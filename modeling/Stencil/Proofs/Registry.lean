import Mathlib.Data.String.Basic
import Mathlib.Data.List.Forall2
import Stencil.Registry
import Stencil.Proofs.Text.Bytes

/-!
# Loading component data

The tables that are read from JSON have their keys in strictly increasing order
(`ordered_of_read`), which is the order of the bytes of the keys. So registering the entries from
first to last only ever adds at the end of the registry (`insert_of_forall_lt`): as long as all
entries are usable, what is registered goes side by side with them (`Loads`), and the entry at which
loading stops has the smallest name of all those that are not (`exists_of_ofEntries_error`).
-/

namespace Stencil

/-! ## Tables in the order of their keys -/

namespace Keyed
variable {α : Type} {t : Keyed α} {key other : String} {value : α}

/-- The keys increase strictly. -/
def Ordered (t : Keyed α) : Prop := t.keys.Pairwise (· < ·)

theorem ordered_nil : Ordered ([] : Keyed α) := List.Pairwise.nil

theorem ordered_cons {entry : String × α} {rest : Keyed α} :
    Ordered (entry :: rest) ↔ (∀ k ∈ rest.keys, entry.1 < k) ∧ Ordered rest :=
  List.pairwise_cons

theorem mem_keys_insert : other ∈ (t.insert key value).keys ↔ other = key ∨ other ∈ t.keys := by
  rw [mem_keys_iff, mem_keys_iff]
  by_cases h : other = key
  · simp [h, get?_insert_self]
  · simp [h, get?_insert_of_ne t value h]

theorem Ordered.insert (h : Ordered t) : Ordered (t.insert key value) := by
  induction t with
  | nil => exact List.pairwise_singleton _ _
  | cons entry rest ih =>
    obtain ⟨k, v⟩ := entry
    obtain ⟨hfirst, hrest⟩ := ordered_cons.mp h
    rw [Keyed.insert]
    split_ifs with hk hlt
    · exact hk ▸ ordered_cons.mpr ⟨hfirst, hrest⟩
    · refine ordered_cons.mpr ⟨fun other hother => ?_, h⟩
      rcases List.mem_cons.mp hother with rfl | hother
      · exact hlt
      · exact hlt.trans (hfirst other hother)
    · refine ordered_cons.mpr ⟨fun other hother => ?_, ih hrest⟩
      rcases mem_keys_insert.mp hother with rfl | hother
      · exact lt_of_le_of_ne (not_lt.mp hlt) hk
      · exact hfirst other hother

theorem insert_of_forall_lt (h : ∀ k ∈ t.keys, k < key) :
    t.insert key value = t ++ [(key, value)] := by
  induction t with
  | nil => rfl
  | cons entry rest ih =>
    obtain ⟨k, v⟩ := entry
    obtain ⟨hk, hrest⟩ := List.forall_mem_cons.mp h
    rw [Keyed.insert, if_neg hk.ne, if_neg hk.asymm, ih hrest, List.cons_append]

theorem Ordered.get?_eq_some_iff (h : Ordered t) :
    t.get? key = some value ↔ (key, value) ∈ t := by
  induction t with
  | nil => simp
  | cons entry rest ih =>
    obtain ⟨k, v⟩ := entry
    obtain ⟨hfirst, hrest⟩ := ordered_cons.mp h
    rw [get?, List.mem_cons, ← ih hrest, Prod.mk.injEq]
    by_cases hk : k = key
    · have hnone : Keyed.get? rest key = none := by
        rw [← Option.not_isSome_iff_eq_none, ← mem_keys_iff]
        exact fun hmem => lt_irrefl key (hk ▸ hfirst key hmem)
      simp [hk, hnone, eq_comm]
    · simp [hk, Ne.symm hk]

end Keyed

/-! ## What is read is ordered -/

namespace Json
variable {item : Cursor → Step Value} {fuel depth : Nat} {first : Bool} {v value : Value}
  {at_ next : Cursor} {entries soFar : Keyed Value}

theorem eq_of_readWord {letters : List Char} (h : readWord value letters at_ = .ok (v, next)) :
    v = value := by
  fun_induction readWord value letters at_ with
  | case1 => exact (Prod.mk.inj (Except.ok.inj h)).1.symm
  | case2 => cases h
  | case3 _ _ _ _ _ ih => exact ih h
  | case4 => cases h

theorem exists_array_of_readItems {items : List Value}
    (h : readItems item fuel first items at_ = .ok (v, next)) : ∃ all, v = .array all := by
  fun_induction readItems item fuel first items at_ with
  | case3 => exact ⟨_, (Prod.mk.inj (Except.ok.inj h)).1.symm⟩
  | case4 => rename_i ih; exact ih h
  | case8 => rename_i ih; exact ih h
  | _ => cases h

theorem ordered_of_readMembers (hsoFar : Keyed.Ordered soFar)
    (h : readMembers item fuel first soFar at_ = .ok (v, next)) :
    ∃ entries, v = .object entries ∧ Keyed.Ordered entries := by
  fun_induction readMembers item fuel first soFar at_ with
  | case3 => exact ⟨_, (Prod.mk.inj (Except.ok.inj h)).1.symm, hsoFar⟩
  | case4 => rename_i ih; exact ih hsoFar.insert h
  | case8 => rename_i ih; exact ih hsoFar.insert h
  | _ => cases h

/-- Of all kinds of values only an object is read as an object, and its members are ordered. -/
theorem ordered_of_readValue (h : readValue depth at_ = .ok (.object entries, next)) :
    Keyed.Ordered entries := by
  revert h
  fun_cases readValue depth at_ with
  | case3 => exact fun h => nomatch eq_of_readWord h
  | case4 => exact fun h => nomatch eq_of_readWord h
  | case5 => exact fun h => nomatch eq_of_readWord h
  | case6 | case7 | case8 =>
    unfold Except.map
    split <;> exact nofun
  | case10 => exact fun h => nomatch exists_array_of_readItems h
  | case12 =>
    intro h
    obtain ⟨_, hv, hordered⟩ := ordered_of_readMembers Keyed.ordered_nil h
    exact Value.object.inj hv ▸ hordered
  | _ => exact fun h => nomatch h

theorem ordered_of_read {text : String} (h : Value.read text = .ok (.object entries)) :
    Keyed.Ordered entries := by
  cases hvalue : readValue depthLimit ⟨0, text.toList⟩ with
  | error fault => simp [Value.read, hvalue, Except.bind] at h
  | ok result =>
    obtain ⟨v, at0⟩ := result
    simp only [Value.read, hvalue, Except.bind] at h
    split at h
    · next hv =>
      split at hv
      · obtain rfl := (Except.ok.inj hv).trans (Except.ok.inj h)
        exact ordered_of_readValue hvalue
      · cases hv
    · cases h

end Json

/-! ## Entries and what they register -/

namespace Registry
variable {entries : Keyed Json.Value} {table : Keyed (List Record)} {v : Json.Value}
  {records : List Record} {r s : Registry}

/-- What a value registers: a record is a list of its own, and a list holds nothing but records. -/
inductive Denotes : Json.Value → List Record → Prop where
  | record (r : Record) : Denotes (.object r) [r]
  | records (rs : List Record) : Denotes (.array (rs.map .object)) rs

/-- Whether a value registers anything at all. -/
def Usable (v : Json.Value) : Prop := ∃ records, Denotes v records

theorem mapM_members?_eq_some_iff {items : List Json.Value} :
    items.mapM Json.Value.members? = some records ↔ items = records.map .object := by
  induction items generalizing records with
  | nil => cases records <;> simp
  | cons item items ih =>
    rw [List.mapM_cons, Option.bind_eq_bind, Option.bind_eq_some_iff]
    simp only [Option.bind_eq_bind, Option.bind_eq_some_iff, ih]
    constructor
    · rintro ⟨members, hitem, rest, rfl, hrecords⟩
      cases item with
      | object all =>
        obtain rfl := Option.some.inj hitem
        obtain rfl := Option.some.inj hrecords
        rfl
      | _ => cases hitem
    · intro h
      cases records with
      | nil => cases h
      | cons r rs =>
        obtain ⟨rfl, rfl⟩ := List.cons.inj h
        exact ⟨r, rfl, rs, rfl, rfl⟩

theorem records?_eq_some_iff : records? v = some records ↔ Denotes v records := by
  constructor
  · intro h
    unfold records? at h
    split at h
    · obtain rfl := Option.some.inj h
      exact .record _
    · obtain rfl := mapM_members?_eq_some_iff.mp h
      exact .records records
    · cases h
  · rintro (r | rs)
    · rfl
    · exact mapM_members?_eq_some_iff.mpr rfl

theorem records?_eq_none_iff : records? v = none ↔ ¬Usable v := by
  simp only [Usable, ← records?_eq_some_iff, ← Option.isSome_iff_exists,
    Option.not_isSome_iff_eq_none]

/-- What entries register, side by side with them. -/
def Loads (entries : Keyed Json.Value) (table : Keyed (List Record)) : Prop :=
  List.Forall₂ (fun entry registered => registered.1 = entry.1 ∧ Denotes entry.2 registered.2)
    entries table

theorem Loads.keys_eq (h : Loads entries table) : table.keys = entries.keys := by
  induction h with
  | nil => rfl
  | cons hentry _ ih => exact congrArg₂ List.cons hentry.1 ih

theorem Loads.get? (h : Loads entries table) (name : String) :
    match entries.get? name with
    | some value => ∃ records, Denotes value records ∧ table.get? name = some records
    | none => table.get? name = none := by
  induction h with
  | nil => rfl
  | @cons entry registered _ _ hentry _ ih =>
    obtain ⟨entryName, value⟩ := entry
    obtain ⟨_, records⟩ := registered
    obtain ⟨rfl, hdenotes⟩ := hentry
    rw [Keyed.get?, Keyed.get?]
    split_ifs
    · exact ⟨records, hdenotes, rfl⟩
    · exact ih

theorem exists_loads_iff : (∃ table, Loads entries table) ↔ ∀ entry ∈ entries, Usable entry.2 := by
  induction entries with
  | nil => exact ⟨fun _ => nofun, fun _ => ⟨[], .nil⟩⟩
  | cons entry rest ih =>
    rw [List.forall_mem_cons, ← ih]
    constructor
    · rintro ⟨_, _ | ⟨hentry, hrest⟩⟩
      exact ⟨⟨_, hentry.2⟩, _, hrest⟩
    · rintro ⟨⟨records, hentry⟩, table, hrest⟩
      exact ⟨(entry.1, records) :: table, .cons ⟨rfl, hentry⟩ hrest⟩

/-! ## Registering in order -/

/-- Entries whose names are beyond those of the registry are added at its end, and only if all of
them are usable. -/
theorem ofEntries_eq_ok_iff (h : (r.names ++ entries.keys).Pairwise (· < ·)) :
    ofEntries entries r = .ok s ↔
      ∃ table, Loads entries table ∧ s.components = r.components ++ table := by
  induction entries generalizing r with
  | nil =>
    constructor
    · intro hs
      obtain rfl := Except.ok.inj hs
      exact ⟨[], .nil, (List.append_nil _).symm⟩
    · rintro ⟨_, _ | _, hs⟩
      rw [List.append_nil] at hs
      rw [ofEntries, Except.ok.injEq, Registry.mk.injEq, hs]
  | cons entry rest ih =>
    obtain ⟨name, value⟩ := entry
    have hlast : ∀ records, r.components.insert name records = r.components ++ [(name, records)] :=
      fun _ => Keyed.insert_of_forall_lt fun other hother =>
        (List.pairwise_append.mp h).2.2 other hother name List.mem_cons_self
    rw [ofEntries]
    split
    · next records hrecords =>
      have hset : ((r.set name records).names ++ Keyed.keys rest).Pairwise (· < ·) := by
        simpa [names, set, hlast, Keyed.keys] using h
      rw [ih hset, set, hlast]
      constructor
      · rintro ⟨table, hrest, hs⟩
        exact ⟨(name, records) :: table, .cons ⟨rfl, records?_eq_some_iff.mp hrecords⟩ hrest,
          hs.trans (List.append_cons ..).symm⟩
      · rintro ⟨_, _ | @⟨_, ⟨_, records'⟩, _, table, ⟨rfl, hdenotes⟩, hrest⟩, hs⟩
        obtain rfl := Option.some.inj (hrecords.symm.trans (records?_eq_some_iff.mpr hdenotes))
        exact ⟨table, hrest, hs.trans (List.append_cons ..)⟩
    · next hrecords =>
      constructor
      · intro hs
        cases hs
      · rintro ⟨_, _ | ⟨hentry, -⟩, -⟩
        exact absurd ⟨_, hentry.2⟩ (records?_eq_none_iff.mp hrecords)

/-- Loading stops at the first entry that is not usable. -/
theorem exists_of_ofEntries_error {e : LoadError} (h : ofEntries entries r = .error e) :
    ∃ before name value after, entries = before ++ (name, value) :: after ∧
      (∀ entry ∈ before, Usable entry.2) ∧ ¬Usable value ∧ e = .invalidEntry name := by
  induction entries generalizing r with
  | nil => cases h
  | cons entry rest ih =>
    obtain ⟨name, value⟩ := entry
    rw [ofEntries] at h
    split at h
    · next records hrecords =>
      obtain ⟨before, other, value', after, rfl, hbefore, hvalue, he⟩ := ih h
      have husable : Usable value := ⟨records, records?_eq_some_iff.mp hrecords⟩
      exact ⟨(name, value) :: before, other, value', after, rfl,
        List.forall_mem_cons.mpr ⟨husable, hbefore⟩, hvalue, he⟩
    · next hrecords =>
      exact ⟨[], name, value, rest, rfl, nofun, records?_eq_none_iff.mp hrecords,
        (Except.error.inj h).symm⟩

/-! ## Loading -/

theorem ofEntries_empty_eq_ok_iff (h : Keyed.Ordered entries) :
    ofEntries entries empty = .ok r ↔ Loads entries r.components := by
  rw [ofEntries_eq_ok_iff (r := empty) h]
  exact ⟨fun ⟨_, hloads, hr⟩ => hr ▸ hloads, fun hloads => ⟨_, hloads, rfl⟩⟩

/-- An object loads if and only if all its values are usable. -/
theorem exists_ofEntries_iff (h : Keyed.Ordered entries) :
    (∃ r, ofEntries entries empty = .ok r) ↔
      ∀ name value, Keyed.get? entries name = some value → Usable value := by
  simp only [ofEntries_empty_eq_ok_iff h, h.get?_eq_some_iff]
  calc (∃ r : Registry, Loads entries r.components)
      ↔ ∃ table, Loads entries table :=
        ⟨fun ⟨r, hr⟩ => ⟨r.components, hr⟩, fun ⟨table, htable⟩ => ⟨⟨table⟩, htable⟩⟩
    _ ↔ ∀ entry ∈ entries, Usable entry.2 := exists_loads_iff
    _ ↔ ∀ name value, (name, value) ∈ entries → Usable value := Prod.forall

/-- The entry at which loading an object stops is the first that is not usable, so in byte order its
name comes before that of any other such entry. -/
theorem smallest_of_ofEntries_error {e : LoadError} (h : Keyed.Ordered entries)
    (he : ofEntries entries empty = .error e) :
    ∃ name value, Keyed.get? entries name = some value ∧ ¬Usable value ∧
      (∀ other value', Keyed.get? entries other = some value' → ¬Usable value' →
        other ≠ name → Text.bytes name.toList < Text.bytes other.toList) ∧
      e = .invalidEntry name := by
  obtain ⟨before, name, value, after, hentries, hbefore, hvalue, rfl⟩ :=
    exists_of_ofEntries_error he
  simp only [h.get?_eq_some_iff]
  refine ⟨name, value, hentries ▸ List.mem_append_cons_self, hvalue, ?_, rfl⟩
  intro other value' hother hvalue' hne
  rw [hentries, List.mem_append, List.mem_cons] at hother
  rcases hother with hother | hother | hother
  · exact absurd (hbefore _ hother) hvalue'
  · exact absurd (Prod.mk.inj hother).1 hne
  · have hlt : name < other := by
      rw [Keyed.Ordered, hentries, Keyed.keys, List.map_append] at h
      exact (List.pairwise_cons.mp (List.pairwise_append.mp h).2.1).1 other
        (List.mem_map_of_mem hother)
    exact Text.bytes_lt_of_lt (String.lt_iff_toList_lt.mp hlt)

/-- **Loading is all or nothing, and exact.** A text that is read as a value loads if and only if
the value is an object whose every value is a record or a list of nothing but records. The names
are then the keys of the object, and each has the records that its value stands for. Otherwise the
error says what was found in place of an object, or names the entry that is not usable; of several
it is the one whose name has the smallest bytes. -/
theorem load_exact {text : String} (h : Json.Value.read text = .ok v) :
    ((∃ r, load text = .ok r) ↔
      ∃ entries, v = .object entries ∧
        ∀ name value, Keyed.get? entries name = some value → Usable value) ∧
    (∀ r, load text = .ok r →
      ∃ entries, v = .object entries ∧ r.names = Keyed.keys entries ∧
        ∀ name, match Keyed.get? entries name with
          | some value => ∃ records, Denotes value records ∧ r.get? name = some records
          | none => r.get? name = none) ∧
    ∀ e, load text = .error e →
      match v with
      | .object entries => ∃ name value, Keyed.get? entries name = some value ∧ ¬Usable value ∧
          (∀ other value', Keyed.get? entries other = some value' → ¬Usable value' →
            other ≠ name → Text.bytes name.toList < Text.bytes other.toList) ∧
          e = .invalidEntry name
      | other => e = .notAnObject (kindText other) := by
  have hload : load text = ofValue v := by rw [load, h]
  rw [hload]
  cases v with
  | object entries =>
    have hordered : Keyed.Ordered entries := Json.ordered_of_read h
    refine ⟨?_, ?_, ?_⟩
    · simp only [Json.Value.object.injEq, exists_eq_left']
      exact exists_ofEntries_iff hordered
    · intro r hr
      have hloads := (ofEntries_empty_eq_ok_iff hordered).mp hr
      exact ⟨entries, rfl, hloads.keys_eq, hloads.get?⟩
    · intro e he
      exact smallest_of_ofEntries_error hordered he
  | _ =>
    refine ⟨?_, nofun, fun e he => (Except.error.inj he).symm⟩
    simp [ofValue]

/-- Component data with two unusable entries, the one with the smaller name behind the other. -/
def toyData : String := "\x7b\"toys\": 1, \"cart\": \x7b\x7d, \"books\": [true]\x7d"

/-- The entries of `toyData`. -/
def toyEntries : Keyed Json.Value :=
  [("books", .array [.bool true]), ("cart", .object []), ("toys", .number (.int 1))]

theorem load_exact_toyData :
    Json.Value.read toyData = .ok (.object toyEntries) ∧
    load toyData = .error (.invalidEntry "books") ∧
    ∃ value, Keyed.get? toyEntries "books" = some value ∧ ¬Usable value := by
  have hread : Json.Value.read toyData = .ok (.object toyEntries) := rfl
  refine ⟨hread, rfl, ?_⟩
  obtain ⟨name, value, hvalue, hunusable, -, hname⟩ := (load_exact hread).2.2 _ rfl
  obtain rfl := LoadError.invalidEntry.inj hname
  exact ⟨value, hvalue, hunusable⟩

end Registry
end Stencil
