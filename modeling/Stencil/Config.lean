import Stencil.Files.Basic
import Stencil.Text.Letters
import Stencil.Toml.Reader

/-!
# Engine configuration

A configuration says which directory templates are looked up in and which file extensions mean XML.
It can be read from TOML, where both settings are optional keys of the table `templates` and
nothing else may stand. A root that is read from a file counts from the directory of that file.
-/

namespace Stencil

/-- The settings of an engine. -/
structure Config where
  root? : Option Path
  xmlExtensions : List String
  deriving Repr, DecidableEq

/-- Why a configuration cannot be loaded. -/
inductive ConfigFault where
  | unreadable (fault : FileFault)
  | malformed
  deriving Repr, DecidableEq

/-- The wording of a configuration fault. -/
def ConfigFault.message : ConfigFault → String
  | .unreadable fault => s!"Failed to read config file: {fault.message}"
  | .malformed => "Failed to parse config TOML"

namespace Config

/-- No root, and `xml` as the only extension of XML templates. -/
def standard : Config := ⟨none, ["xml"]⟩

instance : Inhabited Config := ⟨standard⟩

/-- The configuration with another root. -/
def withRoot (c : Config) (root : Path) : Config := { c with root? := some root }

/-- The configuration with other XML extensions; dots in front of them are dropped. -/
def withXmlExtensions (c : Config) (extensions : List String) : Config :=
  { c with xmlExtensions := extensions.map fun e => String.ofList (e.toList.dropWhile (· == '.')) }

/-- Whether a path has one of the XML extensions, in any case. -/
def isXml (c : Config) (p : Path) : Bool :=
  p.extension?.any fun e => c.xmlExtensions.any (Text.sameLetters · e)

/-! ## Reading -/

/-- A text. -/
def textOf? : Toml.Value → Option String
  | .text s => some s
  | _ => none

/-- A list of texts. -/
def textsOf? : Toml.Value → Option (List String)
  | .array items => items.mapM textOf?
  | _ => none

/-- The settings as TOML gives them. -/
structure Settings where
  root? : Option String
  extensions? : Option (List String)

/-- Take in one key of the table `templates`. -/
def Settings.take? (s : Settings) (entry : String × Toml.Value) : Option Settings :=
  let (key, value) := entry
  if key = "root" then (textOf? value).map fun root => { s with root? := some root }
  else if key = "xml_extensions" then
    (textsOf? value).map fun extensions => { s with extensions? := some extensions }
  else none

/-- The settings of the value `templates`: a table, or an array that starts with both of them. -/
def Settings.ofValue? : Toml.Value → Option Settings
  | .table _ entries => entries.foldlM Settings.take? ⟨none, none⟩
  | .array (root :: extensions :: _) => do
    return ⟨some (← textOf? root), some (← textsOf? extensions)⟩
  | _ => none

/-- The settings of a document. -/
def Settings.ofEntries? : Toml.Entries → Option Settings
  | [] => some ⟨none, none⟩
  | [(key, value)] => if key = "templates" then Settings.ofValue? value else none
  | _ => none

/-- The configuration with the settings that are given. -/
def withSettings (c : Config) (s : Settings) : Config :=
  let c := (s.root?.map c.withRoot).getD c
  (s.extensions?.map c.withXmlExtensions).getD c

/-- The configuration that a TOML text describes. -/
def ofToml (text : String) : Except ConfigFault Config :=
  match (Toml.read? text).bind Settings.ofEntries? with
  | some s => .ok (standard.withSettings s)
  | none => .error .malformed

/-- The configuration with a relative root moved to the directory of a file. -/
def besideFile (c : Config) (file : Path) : Config :=
  match c.root?, file.parent? with
  | some root, some directory => c.withRoot (directory.join root)
  | _, _ => c

/-- The configuration that a file describes, given what reading the file gave. -/
def ofFile (file : Path) (content : Except FileFault String) : Except ConfigFault Config :=
  match content with
  | .error fault => .error (.unreadable fault)
  | .ok text => (ofToml text).map (·.besideFile file)

end Config

end Stencil
