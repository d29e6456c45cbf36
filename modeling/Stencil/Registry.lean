import Stencil.Json.Reader

/-!
# The registry of component data

A registry maps component names to lists of records. Setting a name replaces its records
wholesale. A registry is read from a JSON object whose values are records or lists of records; a
single record stands for a list of one. Reading is all or nothing, and of several unusable entries
the one with the smallest name is reported.
-/

namespace Stencil

/-- One bindable unit of data: field names with JSON values. -/
abbrev Record := Keyed Json.Value

/-- Component names with their records. -/
structure Registry where
  components : Keyed (List Record)
  deriving Inhabited

namespace Registry

/-- Why component data cannot be loaded. -/
inductive LoadError where
  | unreadable (reason : String)
  | malformed (error : Json.ReadError)
  | notAnObject (found : String)
  | invalidEntry (name : String)
  deriving Repr, DecidableEq

/-- The wording of each load error. -/
def LoadError.message : LoadError → String
  | .unreadable reason => s!"Failed to read component data file: {reason}"
  | .malformed error => s!"Failed to parse component data JSON: {error.message}"
  | .notAnObject found =>
    s!"component data must be a JSON object mapping names to records, found {found}"
  | .invalidEntry name => s!"component '{name}' must be a record or a list of records"

/-- The registry without components. -/
def empty : Registry := ⟨[]⟩

/-- Replace the records of `name`. -/
def set (r : Registry) (name : String) (records : List Record) : Registry :=
  ⟨r.components.insert name records⟩

/-- The records of `name`. -/
def get? (r : Registry) (name : String) : Option (List Record) := r.components.get? name

/-- Forget the records of `name`. -/
def remove (r : Registry) (name : String) : Registry := ⟨r.components.erase name⟩

/-- Whether `name` has records, possibly none. -/
def contains (r : Registry) (name : String) : Bool := r.components.contains name

/-- The registered names, in byte order. -/
def names (r : Registry) : List String := r.components.keys

/-- The number of registered names. -/
def size (r : Registry) : Nat := r.components.length

/-- Whether nothing is registered. -/
def isEmpty (r : Registry) : Bool := r.components.isEmpty

/-- Whether two registries hold equal records under the same names. -/
def same (r s : Registry) : Bool :=
  Json.sameMembers (asMembers r) (asMembers s)
where
  /-- The registry as the members of an object of lists. -/
  asMembers (t : Registry) : List (String × Json.Value) :=
    t.components.map fun (name, records) => (name, .array (records.map .object))

/-! ## Loading -/

/-- What kind of value stands where an object is expected. -/
def kindText : Json.Value → String
  | .null => "null"
  | .bool _ => "a boolean"
  | .number _ => "a number"
  | .string _ => "a string"
  | .array _ => "an array"
  | .object _ => "an object"

/-- The records that an entry stands for: one record, or a list that holds nothing but records. -/
def records? : Json.Value → Option (List Record)
  | .object members => some [members]
  | .array items => items.mapM Json.Value.members?
  | _ => none

/-- Register every entry, in key order; the first unusable one is an error. -/
def ofEntries : Keyed Json.Value → Registry → Except LoadError Registry
  | [], r => .ok r
  | (name, value) :: rest, r =>
    match records? value with
    | some records => ofEntries rest (r.set name records)
    | none => .error (.invalidEntry name)

/-- The registry that a JSON value describes. -/
def ofValue : Json.Value → Except LoadError Registry
  | .object entries => ofEntries entries empty
  | other => .error (.notAnObject (kindText other))

/-- The registry that a JSON text describes. -/
def load (text : String) : Except LoadError Registry :=
  match Json.Value.read text with
  | .ok value => ofValue value
  | .error e => .error (.malformed e)

end Registry
end Stencil
