import Stencil.Script.Plan

/-!
# The loop of a script

The first line that declares a loop decides what a script does (`FirstLoop`); the rules up to the
next end line are its body. Both are said here in terms of the lines alone, as is which aliases are
defined.
-/

namespace Stencil.Script

variable {s : Template} {l first : Line} {lines rest : List Line} {p : Plan}

/-! ## Aliases -/

theorem get?_define_eq_none (aliases : Aliases) (d : Directive) (name : String) :
    Keyed.get? (aliases.define d) name = none ↔
      Keyed.get? aliases name = none ∧ ∀ selector, d ≠ .aliasLine name selector := by
  cases d with
  | aliasLine other selector =>
    rw [Aliases.define]
    -- A later definition replaces an earlier one, so only whether there is one matters.
    by_cases h : name = other
    · subst h
      rw [Keyed.get?_insert_self]
      simp
    · rw [Keyed.get?_insert_of_ne _ _ h]
      simp [Ne.symm h]
  | _ => simp [Aliases.define]

theorem get?_foldl_define_eq_none (aliases : Aliases) (lines : List Line) (name : String) :
    Keyed.get? (lines.foldl (fun table l => Aliases.define table l.directive) aliases) name = none ↔
      Keyed.get? aliases name = none ∧
        ∀ l ∈ lines, ∀ selector, l.directive ≠ .aliasLine name selector := by
  induction lines generalizing aliases with
  | nil => simp
  | cons l lines ih =>
    rw [List.foldl_cons, ih, get?_define_eq_none, List.forall_mem_cons, and_assoc]

/-- **An alias is undefined exactly if no line anywhere defines it.** -/
theorem get?_aliases_eq_none_iff {name : String} : Keyed.get? s.aliases name = none ↔
    ∀ l ∈ s.lines, ∀ selector, l.directive ≠ .aliasLine name selector := by
  rw [Template.aliases, get?_foldl_define_eq_none, Keyed.get?_nil]
  simp

/-! ## The loop -/

/-- The line declares a loop. -/
def Declares (l : Line) : Prop :=
  ∃ anchor clause, l.directive = .beforeLine anchor (.loop clause)

theorem isSome_loop?_iff : l.directive.loop?.isSome ↔ Declares l := by
  rw [Declares]
  cases l.directive with
  | beforeLine anchor declaration =>
    cases declaration <;> simp [Directive.loop?, Declaration.isLoop]
  | _ => simp [Directive.loop?]

/-- The first line that declares a loop, and the lines after it. -/
def FirstLoop (s : Template) (l : Line) (rest : List Line) : Prop :=
  ∃ earlier, s.lines = earlier ++ l :: rest ∧ (∀ x ∈ earlier, ¬ Declares x) ∧ Declares l

theorem firstLoop?_eq_some_iff : firstLoop? lines = some (l, rest) ↔
    ∃ earlier, lines = earlier ++ l :: rest ∧ (∀ x ∈ earlier, ¬ Declares x) ∧ Declares l := by
  induction lines with
  | nil => simp [firstLoop?]
  | cons x lines ih =>
    rw [firstLoop?]
    by_cases hx : x.directive.loop?.isSome
    · rw [if_pos hx]
      constructor
      · rintro ⟨⟩
        exact ⟨[], rfl, fun _ h => (nomatch h), isSome_loop?_iff.mp hx⟩
      · rintro ⟨earlier, hlines, hearlier, -⟩
        cases earlier with
        | nil =>
          obtain ⟨rfl, rfl⟩ := List.cons.inj hlines
          rfl
        | cons y earlier =>
          obtain ⟨rfl, -⟩ := List.cons.inj hlines
          exact absurd (isSome_loop?_iff.mp hx) (hearlier _ List.mem_cons_self)
    · rw [if_neg hx, ih]
      constructor
      · rintro ⟨earlier, rfl, hearlier, hl⟩
        refine ⟨x :: earlier, rfl, ?_, hl⟩
        intro y hy
        rcases List.mem_cons.mp hy with rfl | hy
        · exact fun h => hx (isSome_loop?_iff.mpr h)
        · exact hearlier y hy
      · rintro ⟨earlier, hlines, hearlier, hl⟩
        cases earlier with
        | nil =>
          obtain ⟨rfl, -⟩ := List.cons.inj hlines
          exact absurd (isSome_loop?_iff.mpr hl) hx
        | cons y earlier =>
          obtain ⟨-, rfl⟩ := List.cons.inj hlines
          exact ⟨earlier, rfl, fun z hz => hearlier z (List.mem_cons_of_mem _ hz), hl⟩

theorem firstLoop_iff : FirstLoop s l rest ↔ firstLoop? s.lines = some (l, rest) :=
  firstLoop?_eq_some_iff.symm

theorem exists_firstLoop_of_declares (hl : l ∈ s.lines) (h : Declares l) :
    ∃ first rest, FirstLoop s first rest := by
  -- If the search finds nothing, no line declares a loop.
  have hnone : ∀ lines, firstLoop? lines = none → ∀ l ∈ lines, ¬ Declares l := by
    intro lines
    induction lines with
    | nil => exact fun _ _ h => (nomatch h)
    | cons x lines ih =>
      intro hx
      rw [firstLoop?] at hx
      split at hx
      · cases hx
      · next hloop =>
        exact List.forall_mem_cons.mpr ⟨fun h => hloop (isSome_loop?_iff.mpr h), ih hx⟩
  cases hfirst : firstLoop? s.lines with
  | none => exact absurd h (hnone _ hfirst l hl)
  | some found => exact ⟨found.1, found.2, firstLoop_iff.mpr hfirst⟩

/-- The plan of a script with a loop. -/
theorem plan?_of_firstLoop (h : FirstLoop s l rest) :
    ∃ anchor clause, l.directive = .beforeLine anchor (.loop clause) ∧ s.plan? = some
      { anchor
        clause? := (Declaration.loop clause).clause?
        binding? := s.binding?
        body := (loopBody rest).filterMap (·.directive.rule?)
        terminated := rest.any (·.directive.isAfter) } := by
  have hfirst := firstLoop_iff.mp h
  obtain ⟨-, -, -, anchor, clause, hl⟩ := h
  refine ⟨anchor, clause, hl, ?_⟩
  have hloop : l.directive.loop? = some (anchor, .loop clause) := by
    rw [hl]
    rfl
  simp only [Template.plan?, hfirst, hloop, bind, Option.bind_some, pure]

theorem exists_firstLoop (hp : s.plan? = some p) : ∃ l rest, FirstLoop s l rest := by
  obtain ⟨⟨l, rest⟩, hfirst, -⟩ := Option.bind_eq_some_iff.mp hp
  exact ⟨l, rest, firstLoop_iff.mpr hfirst⟩

/-! ## Lines of a loop -/

theorem isAfter_iff {d : Directive} : d.isAfter ↔ ∃ anchor, d = .afterLine anchor := by
  cases d <;> simp [Directive.isAfter]

theorem rule?_eq_some_iff {d : Directive} {r : Rule} : d.rule? = some r ↔ d = .ruleLine r := by
  cases d <;> simp [Directive.rule?]

/-- The rules of a plan are those of the lines in the body of the first loop. -/
theorem mem_body_iff {r : Rule} (h : FirstLoop s first rest) (hp : s.plan? = some p) :
    r ∈ p.body ↔ ∃ l ∈ loopBody rest, l.directive = .ruleLine r := by
  obtain ⟨anchor, clause, -, hp'⟩ := plan?_of_firstLoop h
  have hbody : p.body = (loopBody rest).filterMap (·.directive.rule?) := by
    rw [← Option.some.inj (hp'.symm.trans hp)]
  simp only [hbody, List.mem_filterMap, rule?_eq_some_iff]

theorem firstLoop_unique {first' : Line} {rest' : List Line} (h : FirstLoop s first rest)
    (h' : FirstLoop s first' rest') : first' = first ∧ rest' = rest := by
  have heq := (firstLoop_iff.mp h').symm.trans (firstLoop_iff.mp h)
  exact Prod.mk.inj (Option.some.inj heq)

theorem mem_loopBody_iff : l ∈ loopBody rest ↔ ∃ earlier later, rest = earlier ++ l :: later ∧
    (∀ x ∈ earlier, ∀ anchor, x.directive ≠ .afterLine anchor) ∧
    ∀ anchor, l.directive ≠ .afterLine anchor := by
  have hnot : ∀ x : Line, (!x.directive.isAfter) = true ↔
      ∀ anchor, x.directive ≠ .afterLine anchor := by
    intro x
    rw [Bool.not_eq_true', ← Bool.not_eq_true, isAfter_iff, not_exists]
  induction rest with
  | nil => simp [loopBody]
  | cons y rest ih =>
    rw [loopBody, List.takeWhile_cons]
    by_cases hy : (!y.directive.isAfter) = true
    · rw [if_pos hy, List.mem_cons]
      constructor
      · rintro (rfl | hl)
        · exact ⟨[], rest, rfl, fun _ h => (nomatch h), (hnot l).mp hy⟩
        · obtain ⟨earlier, later, rfl, hearlier, hl⟩ := ih.mp hl
          exact ⟨y :: earlier, later, rfl, List.forall_mem_cons.mpr ⟨(hnot y).mp hy, hearlier⟩, hl⟩
      · rintro ⟨earlier, later, heq, hearlier, hl⟩
        cases earlier with
        | nil => exact .inl (List.cons.inj heq).1.symm
        | cons z earlier =>
          obtain ⟨-, rfl⟩ := List.cons.inj heq
          exact .inr (ih.mpr ⟨earlier, later, rfl, (List.forall_mem_cons.mp hearlier).2, hl⟩)
    · rw [if_neg hy]
      refine iff_of_false List.not_mem_nil ?_
      rintro ⟨earlier, later, heq, hearlier, hl⟩
      cases earlier with
      | nil =>
        obtain ⟨rfl, -⟩ := List.cons.inj heq
        exact hy ((hnot _).mpr hl)
      | cons z earlier =>
        obtain ⟨rfl, -⟩ := List.cons.inj heq
        exact hy ((hnot _).mpr (hearlier _ List.mem_cons_self))

theorem sublist_of_firstLoop (h : FirstLoop s first rest) : (first :: rest).Sublist s.lines := by
  obtain ⟨earlier, hlines, -, -⟩ := h
  rw [hlines]
  exact List.sublist_append_right _ _

theorem loopBody_sublist (rest : List Line) : (loopBody rest).Sublist rest :=
  List.takeWhile_sublist _

end Stencil.Script
