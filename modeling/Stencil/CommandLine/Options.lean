import Stencil.Text.Search

/-!
# Options of the command line

The template is the one argument without a dash. Options with a value take it attached, as in
`--root=dir`, `-rdir` and `-r=dir`, or as the next argument, which then cannot start with a dash.
Short options can share a dash, and after `--` every argument is a template. Nothing may be given
twice, and no value may be empty.
-/

namespace Stencil.CommandLine

/-- The options that take a value. -/
inductive Valued where
  | root
  | config
  | data
  deriving Repr, DecidableEq

/-- The options that are set or not. -/
inductive Switch where
  | check
  | verbose
  deriving Repr, DecidableEq

/-- What an option name means. -/
inductive Meaning where
  | valued (option : Valued)
  | switch (option : Switch)
  | help
  deriving Repr, DecidableEq

/-- The arguments read so far. -/
structure Draft where
  template? : Option String
  root? : Option String
  config? : Option String
  data? : Option String
  check : Bool
  verbose : Bool
  deriving Repr, DecidableEq, Inhabited

/-- Settled options. -/
structure Options where
  template : String
  root? : Option String
  config? : Option String
  data? : Option String
  check : Bool
  verbose : Bool
  deriving Repr, DecidableEq

/-- Why reading arguments stops early. -/
inductive Stop where
  | help
  | usage
  deriving Repr, DecidableEq

/-- The meaning of a long option. -/
def longMeaning? (name : String) : Option Meaning :=
  if name = "root" then some (.valued .root)
  else if name = "config" then some (.valued .config)
  else if name = "data" then some (.valued .data)
  else if name = "check" then some (.switch .check)
  else if name = "verbose" then some (.switch .verbose)
  else if name = "help" then some .help
  else none

/-- The meaning of a short option. -/
def shortMeaning? (c : Char) : Option Meaning :=
  if c = 'r' then some (.valued .root)
  else if c = 'c' then some (.valued .config)
  else if c = 'd' then some (.valued .data)
  else if c = 'v' then some (.switch .verbose)
  else if c = 'h' then some .help
  else none

namespace Draft

/-- No arguments. -/
def empty : Draft := ⟨none, none, none, none, false, false⟩

/-- Set a switch. -/
def setSwitch (d : Draft) : Switch → Except Stop Draft
  | .check => if d.check then .error .usage else .ok { d with check := true }
  | .verbose => if d.verbose then .error .usage else .ok { d with verbose := true }

/-- Give an option its value. -/
def setValue (d : Draft) (option : Valued) (value : String) : Except Stop Draft :=
  if value.isEmpty then .error .usage
  else
    match option with
    | .root => if d.root?.isSome then .error .usage else .ok { d with root? := some value }
    | .config => if d.config?.isSome then .error .usage else .ok { d with config? := some value }
    | .data => if d.data?.isSome then .error .usage else .ok { d with data? := some value }

/-- Take the template. -/
def setTemplate (d : Draft) (value : String) : Except Stop Draft :=
  if value.isEmpty || d.template?.isSome then .error .usage
  else .ok { d with template? := some value }

/-- The settled options; the template must be there. -/
def settle (d : Draft) : Except Stop Options :=
  match d.template? with
  | some template => .ok ⟨template, d.root?, d.config?, d.data?, d.check, d.verbose⟩
  | none => .error .usage

/-- Take short options that share a dash. If the last one lacks its value, it is returned. -/
def takeShort (d : Draft) : List Char → Except Stop (Draft × Option Valued)
  | [] => .ok (d, none)
  | c :: cs =>
    match shortMeaning? c with
    | none => .error .usage
    | some .help => .error .help
    | some (.switch option) => do takeShort (← d.setSwitch option) cs
    | some (.valued option) =>
      match cs with
      | [] => .ok (d, some option)
      | '=' :: value => do return (← d.setValue option (String.ofList value), none)
      | value => do return (← d.setValue option (String.ofList value), none)

/-- Take a long option, given the text behind its dashes. If it lacks its value, it is returned. -/
def takeLong (d : Draft) (text : List Char) : Except Stop (Draft × Option Valued) :=
  let (name, value?) := match Text.splitFirst? ['='] text with
    | some (name, value) => (name, some (String.ofList value))
    | none => (text, none)
  match longMeaning? (String.ofList name), value? with
  | some (.valued option), some value => do return (← d.setValue option value, none)
  | some (.valued option), none => .ok (d, some option)
  | some (.switch option), none => do return (← d.setSwitch option, none)
  | some .help, none => .error .help
  | _, _ => .error .usage

end Draft

/-- Whether an argument starts with a dash and is more than that. -/
def isDashed (argument : String) : Bool :=
  match argument.toList with
  | '-' :: _ :: _ => true
  | _ => false

/-- Read the arguments behind those that a draft holds; `pending` is an option that waits for its
value, and `literal` says whether options have ended. -/
def readArguments (d : Draft) (pending : Option Valued) (literal : Bool) :
    List String → Except Stop Draft
  | [] => if pending.isSome then .error .usage else .ok d
  | argument :: rest =>
    match pending with
    | some option =>
      if isDashed argument then .error .usage
      else do readArguments (← d.setValue option argument) none literal rest
    | none =>
      if literal || !isDashed argument then do
        readArguments (← d.setTemplate argument) none literal rest
      else
        match argument.toList with
        | ['-', '-'] => readArguments d none true rest
        | '-' :: '-' :: text => do
          let (d, pending) ← d.takeLong text
          readArguments d pending literal rest
        | text => do
          let (d, pending) ← d.takeShort (text.drop 1)
          readArguments d pending literal rest

/-- The options that a list of arguments spells. -/
def Options.ofArguments (arguments : List String) : Except Stop Options := do
  (← readArguments .empty none false arguments).settle

end Stencil.CommandLine
