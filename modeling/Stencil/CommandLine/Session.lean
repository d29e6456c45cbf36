import Stencil.CommandLine.Options
import Stencil.Engine
import Stencil.Script.Warning

/-!
# Sessions of the command line

A session reads at most three files, one after the other: the configuration, the component data and
the template. It says which file it needs next and goes on with what reading it gave, until it ends
with an exit code and the texts for the two output channels.
-/

namespace Stencil.CommandLine

/-- How a session ends. -/
structure Outcome where
  code : Nat
  stdout : String
  stderr : String
  deriving Repr, DecidableEq

/-- A session: ended, or waiting for a file. -/
inductive Session where
  | ended (outcome : Outcome)
  | reading (p : Path) (next : Except FileFault String → Session)

/-- The end of a session in which all files are read from one state of the file system. -/
def Session.run (files : Files) : Session → Outcome
  | .ended outcome => outcome
  | .reading p next => (next (files.read p)).run files

/-! ## Endings -/

/-- An end with a line on the output. -/
def success (line : String) : Session := .ended ⟨0, line ++ "\n", ""⟩

/-- An end with a line on the error channel. -/
def failure (line : String) : Session := .ended ⟨1, "", line ++ "\n"⟩

/-- How the program is called. -/
def usageText : String := "Usage: stencil [OPTIONS] <TEMPLATE>\n"

/-- What the program does and which options it has. -/
def helpText : String :=
  "Render storefront HTML/XML templates against component data\n\n" ++ usageText ++ "\n" ++
  "Options:\n" ++
  "  -r, --root <ROOT>      Directory templates are resolved against\n" ++
  "  -c, --config <CONFIG>  Engine configuration (TOML format)\n" ++
  "  -d, --data <DATA>      Component data (JSON object of name -> records)\n" ++
  "      --check            Report directive diagnostics instead of rendering\n" ++
  "  -v, --verbose          Log engine decisions to stderr\n" ++
  "  -h, --help             Print help\n"

/-- An end before anything is read. -/
def Stop.outcome : Stop → Outcome
  | .help => ⟨0, helpText, ""⟩
  | .usage => ⟨2, "", "error: invalid arguments\n\n" ++ usageText⟩

/-! ## Steps -/

/-- The end of checking a template. -/
def checked (template source : String) : Session :=
  match Dialect.ofText source with
  | .componentLoop => success s!"{template}: component-loop template, nothing to check"
  | .ruleScript =>
    let findings := (Script.read source).check
    if findings.isEmpty then success s!"{template}: ok"
    else
      let warnings := String.join (findings.map fun d => d.warning source template)
      failure (warnings ++ s!"{template}: {findings.length} warning(s)")

/-- Check or render the template with an engine. -/
def finish (current : Path) (options : Options) (e : Engine) : Session :=
  .reading (e.store.resolve current options.template) fun content =>
    let files : Files := ⟨current, fun _ => content⟩
    if options.check then
      match (e.source files options.template).1 with
      | .ok source => checked options.template source
      | .error fault => failure s!"Error: {fault.message}"
    else
      match (e.render files options.template).1 with
      | .ok output => success output
      | .error fault => failure s!"Error: {fault.message}"

/-- Read the component data, if any is named, and go on. -/
def withData (current : Path) (options : Options) (config : Config) : Session :=
  match options.data? with
  | none => finish current options (.new config .empty)
  | some p =>
    .reading p fun content =>
      let loaded := match content with
        | .ok text => Registry.load text
        | .error fault => .error (.unreadable fault.message)
      match loaded with
      | .ok registry => finish current options (.new config registry)
      | .error fault => failure s!"Error loading data '{p}': {fault.message}"

/-- Take a root from the options and go on. -/
def withRoot (current : Path) (options : Options) (config : Config) : Session :=
  withData current options ((options.root?.map config.withRoot).getD config)

/-- The session for settled options in a current directory. -/
def session (current : Path) (options : Options) : Session :=
  match options.config? with
  | none => withRoot current options .standard
  | some p =>
    .reading p fun content =>
      match Config.ofFile p content with
      | .ok config => withRoot current options config
      | .error fault => failure s!"Error loading config '{p}': {fault.message}"

/-- The session for command line arguments in a current directory. -/
def Session.start (current : Path) (arguments : List String) : Session :=
  match Options.ofArguments arguments with
  | .ok options => session current options
  | .error stop => .ended stop.outcome

end Stencil.CommandLine
