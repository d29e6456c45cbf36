import Mathlib.Data.List.TakeWhile
import Stencil.Files.Path

/-!
# Absolute paths

The absolute form of a path is written in one way: a slash before each component, one more slash in
front if the path began with exactly two, and one behind if the path ended in one
(`IsAbsoluteForm`). A text of this form is read as the same components again, so it is its own absolute form from
whatever directory it is seen (`absolute_absolute`).
-/

namespace Stencil.Path

variable {cs word rest lead : List Char} {names : List String} {name : String} {p current : Path}

/-! ## Components -/

theorem pieces_of_not_mem (h : '/' ∉ word) : pieces word = [word] := by
  induction word with
  | nil => rfl
  | cons c word ih =>
    rw [List.mem_cons, not_or] at h
    rw [pieces, if_neg (Ne.symm h.1), ih h.2]

/-- A piece ends at the first slash. -/
theorem pieces_append_slash (h : '/' ∉ word) (rest : List Char) :
    pieces (word ++ '/' :: rest) = word :: pieces rest := by
  induction word with
  | nil => rw [List.nil_append, pieces, if_pos rfl]
  | cons c word ih =>
    rw [List.mem_cons, not_or] at h
    rw [List.cons_append, pieces, if_neg (Ne.symm h.1), ih h.2]

theorem not_mem_of_mem_pieces (h : word ∈ pieces cs) : '/' ∉ word := by
  induction cs generalizing word with
  | nil =>
    obtain rfl := List.mem_singleton.mp h
    exact List.not_mem_nil
  | cons c cs ih =>
    rw [pieces] at h
    split at h
    · rcases List.mem_cons.mp h with rfl | h
      · exact List.not_mem_nil
      · exact ih h
    · next hc =>
      split at h
      · next piece rest hcs =>
        rcases List.mem_cons.mp h with rfl | h
        · have hpiece : '/' ∉ piece := ih (hcs ▸ List.mem_cons_self)
          exact fun hm => (List.mem_cons.mp hm).elim (fun he => hc he.symm) hpiece
        · exact ih (hcs ▸ List.mem_cons_of_mem _ h)
      · obtain rfl := List.mem_singleton.mp h
        exact fun hm => hc (List.mem_singleton.mp hm).symm

/-- A text that stands as a component of a path: it has no slash and means something. -/
def IsName (name : String) : Prop := '/' ∉ name.toList ∧ isIdle name = false

theorem isName_of_mem_components (h : name ∈ p.components) : IsName name := by
  obtain ⟨hmem, hidle⟩ := List.mem_filter.mp h
  obtain ⟨word, hword, rfl⟩ := List.mem_map.mp hmem
  refine ⟨?_, by simpa using hidle⟩
  rw [String.toList_ofList]
  exact not_mem_of_mem_pieces hword

theorem IsName.ne_nil (h : IsName name) : name.toList ≠ [] := by
  intro hnil
  have hempty : name = "" := String.toList_eq_nil_iff.mp hnil
  obtain ⟨-, hidle⟩ := h
  rw [hempty] at hidle
  cases hidle

/-! ## The written form -/

/-- Names with a slash before each. -/
def below (names : List String) : List Char := names.flatMap fun name => '/' :: name.toList

theorem below_cons (name : String) (names : List String) :
    below (name :: names) = '/' :: name.toList ++ below names := rfl

theorem below_append (names others : List String) :
    below (names ++ others) = below names ++ below others := List.flatMap_append

theorem pieces_append_below (hword : '/' ∉ word) (hnames : ∀ name ∈ names, '/' ∉ name.toList) :
    pieces (word ++ below names) = word :: names.map String.toList := by
  induction names generalizing word with
  | nil =>
    show pieces (word ++ []) = [word]
    rw [List.append_nil, pieces_of_not_mem hword]
  | cons name names ih =>
    obtain ⟨hname, hnames⟩ := List.forall_mem_cons.mp hnames
    rw [below_cons, List.cons_append, pieces_append_slash hword, ih hname hnames, List.map_cons]

/-- An absolute path without a slash at its end; the root alone is a slash. -/
def absoluteText (lead : List Char) (names : List String) : List Char :=
  lead ++ if names.isEmpty then ['/'] else below names

theorem absoluteText_nil (lead : List Char) : absoluteText lead [] = lead ++ ['/'] := rfl

theorem absoluteText_of_ne_nil (lead : List Char) (hne : names ≠ []) :
    absoluteText lead names = lead ++ below names := by
  rw [absoluteText, if_neg (by rwa [List.isEmpty_iff])]

theorem getLast?_absoluteText (lead : List Char) (hne : names ≠ [])
    (hnames : ∀ name ∈ names, IsName name) : (absoluteText lead names).getLast? ≠ some '/' := by
  obtain ⟨init, last, rfl⟩ : ∃ init last, names = init ++ [last] :=
    ⟨names.dropLast, names.getLast hne, (List.dropLast_concat_getLast hne).symm⟩
  have hlast : IsName last := hnames last (by simp)
  have htext : absoluteText lead (init ++ [last])
      = (lead ++ below init ++ ['/']) ++ last.toList := by
    rw [absoluteText_of_ne_nil lead hne, below_append]
    simp [below]
  rw [htext, List.getLast?_append, Option.or_eq_left_of_isSome (by simpa using hlast.ne_nil)]
  exact fun h => hlast.1 (List.mem_of_getLast? h)

/-- How absolute forms are written. -/
inductive IsAbsoluteForm (p : Path) : Prop
  | plain {lead : List Char} {names : List String} (hlead : lead = [] ∨ lead = ['/'])
      (hnames : ∀ name ∈ names, IsName name) (hp : p.toList = absoluteText lead names)
  | slash {lead : List Char} {names : List String} (hlead : lead = [] ∨ lead = ['/'])
      (hnames : ∀ name ∈ names, IsName name) (hne : names ≠ [])
      (hp : p.toList = absoluteText lead names ++ ['/'])

/-- A path as the system writes a working directory: like the place that it names. -/
def IsCanonical (p : Path) : Prop := p.isAbsolute ∧ p.key = p

/-! ## Writing it -/

theorem endsInSlash_eq_false (hne : names ≠ []) (hnames : ∀ name ∈ names, IsName name)
    (hp : p.toList = absoluteText lead names) : p.endsInSlash = false := by
  rw [endsInSlash, hp]
  exact beq_eq_false_iff_ne.mpr (getLast?_absoluteText lead hne hnames)

theorem isEmpty_eq_false (h : p.toList ≠ []) : p.isEmpty = false := by
  rw [Bool.eq_false_iff, ne_eq, String.isEmpty_iff]
  rintro rfl
  exact h rfl

/-- One more component stands behind a slash. -/
theorem toList_push (hnames : ∀ name ∈ names, IsName name)
    (hp : p.toList = absoluteText lead names) (name : String) :
    (push p name).toList = absoluteText lead (names ++ [name]) := by
  rw [absoluteText_of_ne_nil lead (by simp), below_append]
  rcases eq_or_ne names [] with rfl | hne
  · have hends : p.endsInSlash = true := by
      rw [endsInSlash, hp, absoluteText_nil, List.getLast?_concat]
      rfl
    rw [push, hends, Bool.or_true, if_pos rfl, String.toList_append, hp, absoluteText_nil]
    simp [below]
  · have hempty : p.isEmpty = false := by
      refine isEmpty_eq_false ?_
      rw [hp, absoluteText_of_ne_nil lead hne]
      obtain ⟨first, rest, rfl⟩ := List.exists_cons_of_ne_nil hne
      simp [below_cons]
    rw [push, hempty, endsInSlash_eq_false hne hnames hp, if_neg (by simp),
      String.toList_append, String.toList_append, hp, absoluteText_of_ne_nil lead hne]
    simp [below]

theorem toList_foldl_push {before : List String} (hbefore : ∀ name ∈ before, IsName name)
    (hnames : ∀ name ∈ names, IsName name) (hp : p.toList = absoluteText lead before) :
    (names.foldl push p).toList = absoluteText lead (before ++ names) := by
  induction names generalizing p before with
  | nil => rw [List.foldl_nil, List.append_nil, hp]
  | cons name names ih =>
    obtain ⟨hname, hnames⟩ := List.forall_mem_cons.mp hnames
    have hbefore' : ∀ other ∈ before ++ [name], IsName other := fun other h =>
      (List.mem_append.mp h).elim (hbefore other) fun h => List.mem_singleton.mp h ▸ hname
    rw [List.foldl_cons, ih hbefore' hnames (toList_push hbefore hp name), List.append_assoc]
    rfl

/-- A slash is put at the end of a path unless the path is the root. -/
theorem toList_push_empty (hnames : ∀ name ∈ names, IsName name)
    (hp : p.toList = absoluteText lead names) :
    (push p "").toList = if names = [] then absoluteText lead names
      else absoluteText lead names ++ ['/'] := by
  rw [toList_push hnames hp, absoluteText_of_ne_nil lead (by simp), below_append]
  split
  · next h => subst h; rfl
  · next h => rw [absoluteText_of_ne_nil lead h, List.append_assoc]; rfl

/-! ## Reading it -/

theorem components_eq (hlead : lead = [] ∨ lead = ['/'])
    (hnames : ∀ name ∈ names, '/' ∉ name.toList) (hp : p.toList = lead ++ below names) :
    p.components = names.filter (!isIdle ·) := by
  have hpieces : pieces (below names) = [] :: names.map String.toList :=
    pieces_append_below List.not_mem_nil hnames
  have hback : (names.map String.toList).map String.ofList = names := by
    simp [Function.comp_def]
  rw [components, segments, hp]
  rcases hlead with rfl | rfl
  · rw [List.nil_append, hpieces, List.map_cons, hback]
    rfl
  · rw [List.singleton_append, pieces, if_pos rfl, hpieces, List.map_cons, List.map_cons, hback]
    rfl

theorem filter_isIdle (hnames : ∀ name ∈ names, IsName name) :
    names.filter (!isIdle ·) = names :=
  List.filter_eq_self.mpr fun name h => by rw [(hnames name h).2]; rfl

theorem components_absoluteText (hlead : lead = [] ∨ lead = ['/'])
    (hnames : ∀ name ∈ names, IsName name) (hp : p.toList = absoluteText lead names) :
    p.components = names := by
  rcases eq_or_ne names [] with rfl | hne
  · have hempty : ∀ name ∈ [""], '/' ∉ name.toList := by simp
    rw [components_eq hlead hempty hp]
    rfl
  · rw [absoluteText_of_ne_nil lead hne] at hp
    rw [components_eq hlead (fun name h => (hnames name h).1) hp, filter_isIdle hnames]

theorem components_absoluteText_slash (hlead : lead = [] ∨ lead = ['/'])
    (hnames : ∀ name ∈ names, IsName name) (hne : names ≠ [])
    (hp : p.toList = absoluteText lead names ++ ['/']) : p.components = names := by
  have hbelow : p.toList = lead ++ below (names ++ [""]) := by
    rw [hp, absoluteText_of_ne_nil lead hne, below_append, List.append_assoc]
    rfl
  have hfree : ∀ name ∈ names ++ [""], '/' ∉ name.toList := by
    intro name hmem
    rcases List.mem_append.mp hmem with hmem | hmem
    · exact (hnames name hmem).1
    · rw [List.mem_singleton.mp hmem]
      exact List.not_mem_nil
  rw [components_eq hlead hfree hbelow, List.filter_append, filter_isIdle hnames]
  exact List.append_nil names

/-- The slashes at the start of an absolute form are kept. -/
theorem toList_rootOf (hlead : lead = [] ∨ lead = ['/']) (hrest : rest.head? ≠ some '/')
    (hp : p.toList = lead ++ '/' :: rest) : p.rootOf.toList = absoluteText lead [] := by
  rw [absoluteText_nil, rootOf, hp]
  rcases hlead with rfl | rfl
  · cases rest with
    | nil => rfl
    | cons c rest =>
      have hc : c ≠ '/' := fun h => hrest (congrArg some h)
      split
      · next h => exact absurd (List.cons.inj (List.cons.inj h).2).1 hc
      · next h => exact absurd (List.cons.inj (List.cons.inj h).2).1 hc
      · rfl
  · cases rest with
    | nil => rfl
    | cons c rest =>
      have hc : c ≠ '/' := fun h => hrest (congrArg some h)
      split
      · next h => exact absurd (List.cons.inj (List.cons.inj (List.cons.inj h).2).2).1 hc
      · rfl
      · next h => exact absurd rfl (h _)

/-- What stands behind the first slashes of an absolute form starts with no slash. -/
theorem exists_absoluteText (lead : List Char) (hnames : ∀ name ∈ names, IsName name) :
    ∃ rest, absoluteText lead names = lead ++ '/' :: rest ∧ rest.head? ≠ some '/'
      ∧ (names ≠ [] → rest ≠ []) := by
  cases names with
  | nil => exact ⟨[], rfl, by simp, fun h => absurd rfl h⟩
  | cons name names =>
    have hname : IsName name := hnames name List.mem_cons_self
    refine ⟨name.toList ++ below names, rfl, ?_, fun _ => ?_⟩
    · obtain ⟨c, cs, hcs⟩ := List.exists_cons_of_ne_nil hname.ne_nil
      intro h
      rw [hcs, List.cons_append, List.head?_cons] at h
      exact hname.1 (hcs ▸ Option.some.inj h ▸ List.mem_cons_self)
    · simp [hname.ne_nil]

/-! ## Absolute forms -/

/-- The absolute form of a path, once it is known where the path starts. -/
theorem toList_absolute {before : List String} (hbefore : ∀ name ∈ before, IsName name)
    (hp : p.isEmpty = false)
    (hstart : (if p.isAbsolute then p.rootOf else current).toList = absoluteText lead before) :
    (p.absolute current).toList
      = if p.endsInSlash = true ∧ before ++ p.components ≠ []
        then absoluteText lead (before ++ p.components) ++ ['/']
        else absoluteText lead (before ++ p.components) := by
  have hnames : ∀ name ∈ p.components, IsName name := fun _ => isName_of_mem_components
  have hall : ∀ name ∈ before ++ p.components, IsName name := fun name h =>
    (List.mem_append.mp h).elim (hbefore name) (hnames name)
  have hfold := toList_foldl_push hbefore hnames hstart
  rw [absolute, hp, if_neg Bool.false_ne_true]
  by_cases hends : p.endsInSlash = true
  · rw [if_pos hends, toList_push_empty hall hfold]
    by_cases hne : before ++ p.components = []
    · rw [if_pos hne, if_neg fun h => h.2 hne]
    · rw [if_neg hne, if_pos ⟨hends, hne⟩]
  · rw [if_neg hends, hfold, if_neg fun h => hends h.1]

theorem toList_rootOf_of_isAbsolute (p : Path) :
    ∃ lead, (lead = [] ∨ lead = ['/']) ∧ p.rootOf.toList = absoluteText lead [] := by
  rw [rootOf]
  split
  · exact ⟨[], .inl rfl, rfl⟩
  · exact ⟨['/'], .inr rfl, rfl⟩
  · exact ⟨[], .inl rfl, rfl⟩

theorem intercalate_slash (names : List String) :
    '/' :: ['/'].intercalate (names.map String.toList) = absoluteText [] names := by
  induction names with
  | nil => rfl
  | cons name names ih =>
    rcases eq_or_ne names [] with rfl | hne
    · simp [List.intercalate, absoluteText, below]
    · obtain ⟨other, rest, rfl⟩ := List.exists_cons_of_ne_nil hne
      rw [absoluteText_of_ne_nil [] hne, List.nil_append] at ih
      rw [absoluteText_of_ne_nil [] (by simp), List.nil_append, below_cons, ← ih]
      simp [List.intercalate]

theorem IsCanonical.toList_eq (h : current.IsCanonical) :
    current.toList = absoluteText [] current.components := by
  obtain ⟨habs, hkey⟩ := h
  rw [key, if_pos habs] at hkey
  have htext : current.toList = '/' :: ("/".intercalate current.components).toList :=
    (congrArg String.toList hkey).symm.trans (String.toList_append ..)
  rw [htext, String.toList_intercalate]
  exact intercalate_slash current.components

/-- The absolute form of a path has the form that it should have. -/
theorem isAbsoluteForm_absolute (hcurrent : current.IsCanonical) (hp : p.isEmpty = false) :
    IsAbsoluteForm (p.absolute current) := by
  obtain ⟨lead, before, hlead, hbefore, hstart⟩ : ∃ lead before, (lead = [] ∨ lead = ['/'])
      ∧ (∀ name ∈ before, IsName name)
      ∧ (if p.isAbsolute then p.rootOf else current).toList = absoluteText lead before := by
    by_cases habs : p.isAbsolute = true
    · obtain ⟨lead, hlead, hroot⟩ := toList_rootOf_of_isAbsolute p
      exact ⟨lead, [], hlead, by simp, by rw [if_pos habs, hroot]⟩
    · refine ⟨[], current.components, .inl rfl, fun _ => isName_of_mem_components, ?_⟩
      rw [if_neg habs, hcurrent.toList_eq]
  have hall : ∀ name ∈ before ++ p.components, IsName name := fun name h =>
    (List.mem_append.mp h).elim (hbefore name) isName_of_mem_components
  have htext := toList_absolute hbefore hp hstart
  split at htext
  · next h => exact .slash hlead hall h.2 htext
  · exact .plain hlead hall htext

theorem IsAbsoluteForm.isAbsolute (h : IsAbsoluteForm p) : p.isAbsolute = true := by
  obtain ⟨lead, rest, hlead, hp⟩ : ∃ lead rest, (lead = [] ∨ lead = ['/'])
      ∧ p.toList = lead ++ '/' :: rest := by
    cases h with
    | @plain lead names hlead hnames hp =>
      obtain ⟨rest, hrest, -⟩ := exists_absoluteText lead hnames
      exact ⟨lead, rest, hlead, hp.trans hrest⟩
    | @slash lead names hlead hnames _ hp =>
      obtain ⟨rest, hrest, -⟩ := exists_absoluteText lead hnames
      exact ⟨lead, rest ++ ['/'], hlead, by rw [hp, hrest, List.append_assoc]; rfl⟩
  rw [Path.isAbsolute, hp]
  rcases hlead with rfl | rfl <;> rfl

/-- An absolute form is what its components give behind its own root. -/
theorem IsAbsoluteForm.absolute_eq (h : IsAbsoluteForm p) (current : Path) :
    p.absolute current = p := by
  obtain ⟨lead, names, hlead, hnames, hcomponents, hstarts, hends⟩ : ∃ lead names,
      (lead = [] ∨ lead = ['/']) ∧ (∀ name ∈ names, IsName name) ∧ p.components = names
      ∧ (∃ rest, p.toList = lead ++ '/' :: rest ∧ rest.head? ≠ some '/')
      ∧ p.toList = if p.endsInSlash = true ∧ names ≠ [] then absoluteText lead names ++ ['/']
        else absoluteText lead names := by
    cases h with
    | @plain lead names hlead hnames hp =>
      obtain ⟨rest, hrest, hhead, -⟩ := exists_absoluteText lead hnames
      refine ⟨lead, names, hlead, hnames, components_absoluteText hlead hnames hp,
        ⟨rest, hp.trans hrest, hhead⟩, ?_⟩
      rw [if_neg, hp]
      rintro ⟨hends, hne⟩
      rw [endsInSlash_eq_false hne hnames hp] at hends
      cases hends
    | @slash lead names hlead hnames hne hp =>
      obtain ⟨rest, hrest, hhead, hrest'⟩ := exists_absoluteText lead hnames
      refine ⟨lead, names, hlead, hnames, components_absoluteText_slash hlead hnames hne hp,
        ⟨rest ++ ['/'], ?_, ?_⟩, ?_⟩
      · rw [hp, hrest]; simp
      · obtain ⟨c, cs, rfl⟩ := List.exists_cons_of_ne_nil (hrest' hne)
        exact hhead
      · have hends : p.endsInSlash = true := by
          rw [endsInSlash, hp, List.getLast?_concat]
          rfl
        rw [if_pos ⟨hends, hne⟩, hp]
  obtain ⟨rest, hrest, hhead⟩ := hstarts
  have hempty : p.isEmpty = false := isEmpty_eq_false (by rw [hrest]; simp)
  have hstart : (if p.isAbsolute then p.rootOf else current).toList = absoluteText lead [] := by
    rw [if_pos h.isAbsolute, toList_rootOf hlead hhead hrest]
  apply String.toList_injective
  rw [toList_absolute (by simp) hempty hstart, List.nil_append, hcomponents, ← hends]

theorem absolute_absolute (hcurrent : current.IsCanonical) (p : Path) :
    (p.absolute current).absolute current = p.absolute current := by
  cases hp : p.isEmpty with
  | true =>
    have hsame : p.absolute current = p := by rw [absolute, if_pos hp]
    rw [hsame, hsame]
  | false => exact (isAbsoluteForm_absolute hcurrent hp).absolute_eq current

theorem join_of_isAbsolute (base : Path) (h : p.isAbsolute = true) : base.join p = p := by
  rw [join, if_pos h]

/-- Nothing is joined to nothing only. -/
theorem join_eq_empty {base : Path} (h : (base.join p).isEmpty = true) : base = "" ∧ p = "" := by
  rw [String.isEmpty_iff, join] at h
  split at h
  · next habs =>
    subst h
    cases habs
  · rw [push] at h
    split at h
    · exact String.append_eq_empty_iff.mp h
    · simp at h

end Stencil.Path
