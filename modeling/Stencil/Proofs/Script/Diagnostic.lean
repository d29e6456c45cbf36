import Mathlib.Data.List.Pairwise
import Stencil.Proofs.Script.Loop
import Stencil.Proofs.Script.Positions
import Stencil.Script.Diagnostic

/-!
# What checking a script finds

`Reported` says which lines deserve a finding of which kind, in terms of the lines alone: where the
first loop is declared, what follows it, and which texts are usable selectors. Checking reports
exactly these lines, each once for each kind (`check_exact`), and a clause fault inside each line
with an unusable clause. So a script with a loop and without findings is expanded in full.
-/

namespace Stencil.Script

variable {s : Template} {l first : Line} {lines rest : List Line} {p : Plan} {kind : DiagnosticKind}

/-! ## What deserves a finding -/

/-- Which lines deserve a finding of which kind. Clause faults lie inside lines and are not among
these. -/
inductive Reported (s : Template) : DiagnosticKind → Line → Prop
  | undefinedAlias {l : Line} {anchor : String} (hl : l ∈ s.lines)
      (hanchor : l.directive.anchor? = some anchor) (halias : anchor.toList.head? = some '@')
      (hnone : ∀ x ∈ s.lines, ∀ selector, x.directive ≠ .aliasLine anchor selector) :
      Reported s .undefinedAlias l
  | ignoredLoop {first l : Line} {rest : List Line} (hfirst : FirstLoop s first rest)
      (hl : l ∈ rest) (hloop : Declares l) : Reported s .ignoredLoop l
  | missingContext {l : Line} {rest : List Line} {p : Plan} (hfirst : FirstLoop s l rest)
      (hp : s.plan? = some p) (hnone : p.binding? = none) : Reported s .missingContext l
  | unterminatedLoop {l : Line} {rest : List Line} (hfirst : FirstLoop s l rest)
      (hnone : ∀ x ∈ rest, ∀ anchor, x.directive ≠ .afterLine anchor) :
      Reported s .unterminatedLoop l
  | invalidAnchor {l : Line} {rest : List Line} {p : Plan} (hfirst : FirstLoop s l rest)
      (hp : s.plan? = some p) (hbad : ∀ selector, p.anchorSelector s.aliases ≠ .ok selector) :
      Reported s .invalidSelector l
  | invalidRule {first l : Line} {rest earlier later : List Line} {p : Plan} {r : Rule}
      (hfirst : FirstLoop s first rest) (hp : s.plan? = some p)
      (hrest : rest = earlier ++ l :: later)
      (hbody : ∀ x ∈ earlier, ∀ anchor, x.directive ≠ .afterLine anchor)
      (hl : l.directive = .ruleLine r)
      (hbad : ∀ selector, p.selectorOf s.aliases r ≠ .ok selector) : Reported s .invalidSelector l

/-- The line mentions a loop and has no usable clause. -/
def LacksClause (l : Line) : Prop :=
  ∃ anchor declaration, l.directive = .beforeLine anchor declaration ∧ declaration.isLoop ∧
    declaration.clause? = none

/-! ## Findings by kind -/

/-- The places of the findings of one kind. -/
def spansOf (kind : DiagnosticKind) (findings : List Diagnostic) : List Span :=
  (findings.filter fun f => f.kind = kind).map (·.span)

theorem spansOf_append (kind : DiagnosticKind) (f g : List Diagnostic) :
    spansOf kind (f ++ g) = spansOf kind f ++ spansOf kind g := by
  rw [spansOf, List.filter_append, List.map_append]
  rfl

theorem spansOf_eq_nil {findings : List Diagnostic} (h : ∀ f ∈ findings, f.kind ≠ kind) :
    spansOf kind findings = [] := by
  rw [spansOf, List.map_eq_nil_iff, List.filter_eq_nil_iff]
  intro f hf
  simpa using h f hf

theorem spansOf_filterMap {finding? : Line → Option Diagnostic}
    (h : ∀ l, ∀ f ∈ finding? l, f.kind = kind ∧ f.span = l.span) (lines : List Line) :
    spansOf kind (lines.filterMap finding?) =
      (lines.filter fun l => (finding? l).isSome).map Line.span := by
  induction lines with
  | nil => rfl
  | cons l lines ih =>
    rw [List.filterMap_cons]
    cases hl : finding? l with
    | none => rw [List.filter_cons_of_neg (by simp [hl]), ih]
    | some f =>
      obtain ⟨hkind, hspan⟩ := h l f hl
      rw [List.filter_cons_of_pos (by simp [hl]), List.map_cons, ← ih, ← hspan, spansOf,
        List.filter_cons_of_pos (by simp [hkind]), List.map_cons]
      rfl

theorem kind_of_mem_clauseFindings {f : Diagnostic} (hf : f ∈ lines.filterMap clauseFinding?) :
    f.kind = .malformedForeach := by
  obtain ⟨l, -, hl⟩ := List.mem_filterMap.mp hf
  unfold clauseFinding? at hl
  split at hl
  · exact (Option.some.inj hl) ▸ rfl
  · cases hl

theorem aliasFinding?_eq {aliases : Aliases} {f : Diagnostic} (h : f ∈ aliasFinding? aliases l) :
    f.kind = .undefinedAlias ∧ f.span = l.span := by
  obtain ⟨anchor, -, h⟩ := Option.bind_eq_some_iff.mp h
  split at h
  · exact (Option.some.inj h) ▸ ⟨rfl, rfl⟩
  · cases h

theorem ruleFinding?_eq {aliases : Aliases} {f : Diagnostic} (h : f ∈ ruleFinding? p aliases l) :
    f.kind = .invalidSelector ∧ f.span = l.span := by
  obtain ⟨r, -, h⟩ := Option.bind_eq_some_iff.mp h
  split at h
  · cases h
  · exact (Option.some.inj h) ▸ ⟨rfl, rfl⟩

theorem isSome_aliasFinding?_iff : (aliasFinding? s.aliases l).isSome ↔
    ∃ anchor, l.directive.anchor? = some anchor ∧ anchor.toList.head? = some '@' ∧
      ∀ x ∈ s.lines, ∀ selector, x.directive ≠ .aliasLine anchor selector := by
  rw [aliasFinding?]
  cases l.directive.anchor? with
  | none => simp
  | some anchor =>
    simp only [bind, Option.bind_some, Option.some.injEq, exists_eq_left', ← get?_aliases_eq_none_iff]
    split
    · next h => exact iff_of_true rfl h
    · next h => exact iff_of_false Bool.false_ne_true h

theorem isSome_ruleFinding?_iff {aliases : Aliases} : (ruleFinding? p aliases l).isSome ↔
    ∃ r, l.directive = .ruleLine r ∧ ∀ selector, p.selectorOf aliases r ≠ .ok selector := by
  rw [ruleFinding?]
  cases l.directive with
  | ruleLine r =>
    simp only [Directive.rule?, bind, Option.bind_some, Directive.ruleLine.injEq, exists_eq_left']
    cases p.selectorOf aliases r <;> simp
  | _ => simp [Directive.rule?]

theorem kind_of_mem_laterLoopFindings {f : Diagnostic} (hf : f ∈ laterLoopFindings lines) :
    f.kind = .ignoredLoop := by
  obtain ⟨l, -, rfl⟩ := List.mem_map.mp hf
  rfl

/-- The findings about the loop itself. -/
theorem cases_of_mem_planFindings {aliases : Aliases} {span : Span} {f : Diagnostic}
    (hf : f ∈ planFindings p aliases span) :
    (∃ message, f = ⟨.missingContext, message, span⟩) ∨
      (∃ message, f = ⟨.unterminatedLoop, message, span⟩) ∨
      ∃ fault : SelectorFault, f = ⟨.invalidSelector, s!"loop anchor: {fault.message}", span⟩ := by
  unfold planFindings at hf
  rcases List.mem_append.mp hf with hf | hf
  · rcases List.mem_append.mp hf with hf | hf
    · split at hf
      · exact .inl ⟨_, List.mem_singleton.mp hf⟩
      · cases hf
    · split at hf
      · exact .inr (.inl ⟨_, List.mem_singleton.mp hf⟩)
      · cases hf
  · split at hf
    · cases hf
    · exact .inr (.inr ⟨_, List.mem_singleton.mp hf⟩)

theorem kind_of_mem_loopFindings {aliases : Aliases} {f : Diagnostic}
    (hf : f ∈ loopFindings s aliases) :
    f.kind = .missingContext ∨ f.kind = .unterminatedLoop ∨ f.kind = .invalidSelector := by
  unfold loopFindings at hf
  split at hf
  · rcases List.mem_append.mp hf with hf | hf
    · rcases cases_of_mem_planFindings hf with ⟨_, rfl⟩ | ⟨_, rfl⟩ | ⟨_, rfl⟩
      · exact .inl rfl
      · exact .inr (.inl rfl)
      · exact .inr (.inr rfl)
    · obtain ⟨l, -, hl⟩ := List.mem_filterMap.mp hf
      exact .inr (.inr (ruleFinding?_eq hl).1)
  · cases hf

/-- The places of one kind of findings, part by part. -/
theorem spansOf_findings (s : Template) (kind : DiagnosticKind) (hkind : kind ≠ .malformedForeach) :
    spansOf kind s.findings = spansOf kind (s.lines.filterMap (aliasFinding? s.aliases)) ++
      spansOf kind (laterLoopFindings s.lines) ++ spansOf kind (loopFindings s s.aliases) := by
  -- Clause faults are not placed on lines, so they are kept apart from the other kinds.
  have hclause : spansOf kind (s.lines.filterMap clauseFinding?) = [] :=
    spansOf_eq_nil fun f hf => kind_of_mem_clauseFindings hf ▸ hkind.symm
  rw [Template.findings, spansOf_append, spansOf_append, spansOf_append, hclause, List.nil_append]

/-- The findings about the loop, if the script has one. -/
theorem loopFindings_of_firstLoop (h : FirstLoop s l rest) (hp : s.plan? = some p) :
    loopFindings s s.aliases = planFindings p s.aliases l.span ++
      (loopBody rest).filterMap (ruleFinding? p s.aliases) := by
  rw [loopFindings, hp, firstLoop_iff.mp h]

theorem loopFindings_of_no_loop (h : s.plan? = none) : loopFindings s s.aliases = [] := by
  rw [loopFindings, h]

theorem spansOf_ruleFindings_of_ne {aliases : Aliases} (hkind : kind ≠ .invalidSelector)
    (lines : List Line) : spansOf kind (lines.filterMap (ruleFinding? p aliases)) = [] := by
  refine spansOf_eq_nil ?_
  intro f hf
  obtain ⟨x, -, hx⟩ := List.mem_filterMap.mp hf
  exact (ruleFinding?_eq hx).1 ▸ hkind.symm

/-! ## One kind at a time -/

/-- The findings of a kind are about the lines `ls`, each once, and these deserve them. -/
structure Lists (s : Template) (kind : DiagnosticKind) (ls : List Line) : Prop where
  sublist : ls.Sublist s.lines
  spans : spansOf kind s.findings = ls.map Line.span
  mem_iff : ∀ l, l ∈ ls ↔ Reported s kind l

theorem exists_lists_undefinedAlias (s : Template) : ∃ ls, Lists s .undefinedAlias ls := by
  refine ⟨s.lines.filter fun l => (aliasFinding? s.aliases l).isSome, List.filter_sublist, ?_, ?_⟩
  · -- Neither of the other parts reports an alias.
    have hlater : spansOf .undefinedAlias (laterLoopFindings s.lines) = [] :=
      spansOf_eq_nil fun f hf => by rw [kind_of_mem_laterLoopFindings hf]; decide
    have hloop : spansOf .undefinedAlias (loopFindings s s.aliases) = [] :=
      spansOf_eq_nil fun f hf => by
        rcases kind_of_mem_loopFindings hf with h | h | h <;> rw [h] <;> decide
    rw [spansOf_findings s _ (by decide), hlater, hloop, List.append_nil, List.append_nil,
      spansOf_filterMap fun _ _ h => aliasFinding?_eq h]
  · intro l
    rw [List.mem_filter, isSome_aliasFinding?_iff]
    constructor
    · rintro ⟨hl, anchor, hanchor, halias, hnone⟩
      exact .undefinedAlias hl hanchor halias hnone
    · rintro ⟨hl, hanchor, halias, hnone⟩
      exact ⟨hl, _, hanchor, halias, hnone⟩

theorem spansOf_aliasFindings_of_ne (hkind : kind ≠ .undefinedAlias) (s : Template) :
    spansOf kind (s.lines.filterMap (aliasFinding? s.aliases)) = [] := by
  refine spansOf_eq_nil ?_
  intro f hf
  obtain ⟨x, -, hx⟩ := List.mem_filterMap.mp hf
  exact (aliasFinding?_eq hx).1 ▸ hkind.symm

theorem drop_filter_declares (h : FirstLoop s first rest) :
    (s.lines.filter fun l => l.directive.loop?.isSome).drop 1 =
      rest.filter fun l => l.directive.loop?.isSome := by
  obtain ⟨earlier, hlines, hearlier, hfirst⟩ := h
  have hnone : (earlier.filter fun l => l.directive.loop?.isSome) = [] :=
    List.filter_eq_nil_iff.mpr fun x hx hloop => hearlier x hx (isSome_loop?_iff.mp hloop)
  have hpos : first.directive.loop?.isSome = true := isSome_loop?_iff.mpr hfirst
  rw [hlines, List.filter_append, hnone, List.nil_append, List.filter_cons, if_pos hpos,
    List.drop_one, List.tail_cons]

theorem spansOf_laterLoopFindings (lines : List Line) :
    spansOf .ignoredLoop (laterLoopFindings lines) =
      ((lines.filter fun l => l.directive.loop?.isSome).drop 1).map Line.span := by
  have hall : (laterLoopFindings lines).filter (fun f => f.kind = .ignoredLoop) =
      laterLoopFindings lines :=
    List.filter_eq_self.mpr fun f hf => decide_eq_true (kind_of_mem_laterLoopFindings hf)
  rw [spansOf, hall, laterLoopFindings, List.map_map]
  rfl

theorem exists_lists_ignoredLoop (s : Template) : ∃ ls, Lists s .ignoredLoop ls := by
  have hspans : spansOf .ignoredLoop s.findings =
      ((s.lines.filter fun l => l.directive.loop?.isSome).drop 1).map Line.span := by
    have hloop : spansOf .ignoredLoop (loopFindings s s.aliases) = [] :=
      spansOf_eq_nil fun f hf => by
        rcases kind_of_mem_loopFindings hf with h | h | h <;> rw [h] <;> decide
    rw [spansOf_findings s _ (by decide), spansOf_aliasFindings_of_ne (by decide), hloop,
      List.nil_append, List.append_nil, spansOf_laterLoopFindings]
  refine ⟨_, (List.drop_sublist 1 _).trans List.filter_sublist, hspans, ?_⟩
  intro l
  constructor
  · intro hl
    have hmem := List.mem_filter.mp ((List.drop_sublist 1 _).subset hl)
    -- There is a later loop, so there is a first one, and dropping it leaves those behind it.
    obtain ⟨first, rest, h⟩ :=
      exists_firstLoop_of_declares hmem.1 (isSome_loop?_iff.mp hmem.2)
    rw [drop_filter_declares h, List.mem_filter] at hl
    exact .ignoredLoop h hl.1 (isSome_loop?_iff.mp hl.2)
  · intro hl
    cases hl with
    | ignoredLoop h hl hloop =>
      rw [drop_filter_declares h, List.mem_filter]
      exact ⟨hl, isSome_loop?_iff.mpr hloop⟩

/-- The places of the findings about the loop itself. -/
theorem spansOf_planFindings (p : Plan) (aliases : Aliases) (span : Span) :
    spansOf .missingContext (planFindings p aliases span) = (if p.binding?.isNone then [span] else []) ∧
    spansOf .unterminatedLoop (planFindings p aliases span) = (if !p.terminated then [span] else []) ∧
    spansOf .invalidSelector (planFindings p aliases span) =
      if (p.anchorSelector aliases).isOk then [] else [span] := by
  rw [planFindings]
  cases p.binding?.isNone <;> cases p.terminated <;> cases p.anchorSelector aliases <;>
    simp [spansOf, Except.isOk, Except.toBool]

/-- The kinds of findings that are about a loop. -/
theorem spansOf_of_loopKind (h : kind = .missingContext ∨ kind = .unterminatedLoop ∨
    kind = .invalidSelector) (s : Template) :
    spansOf kind s.findings = spansOf kind (loopFindings s s.aliases) := by
  have hlater : spansOf kind (laterLoopFindings s.lines) = [] := by
    refine spansOf_eq_nil ?_
    intro f hf
    rw [kind_of_mem_laterLoopFindings hf]
    rcases h with rfl | rfl | rfl <;> decide
  have hne : kind ≠ .undefinedAlias ∧ kind ≠ .malformedForeach := by
    rcases h with rfl | rfl | rfl <;> decide
  rw [spansOf_findings s _ hne.2, spansOf_aliasFindings_of_ne hne.1, hlater, List.nil_append,
    List.nil_append]

theorem singleton_sublist_of_firstLoop (h : FirstLoop s first rest) :
    [first].Sublist s.lines :=
  List.singleton_sublist.mpr ((sublist_of_firstLoop h).subset List.mem_cons_self)

/-- A kind of which only the line of the loop can deserve a finding. -/
theorem exists_lists_of_first (b : Bool)
    (hkind : kind = .missingContext ∨ kind = .unterminatedLoop)
    (h : FirstLoop s first rest) (hp : s.plan? = some p)
    (hspans : spansOf kind (planFindings p s.aliases first.span) = if b then [first.span] else [])
    (hreported : ∀ l, Reported s kind l ↔ l = first ∧ b) : ∃ ls, Lists s kind ls := by
  have hrules : spansOf kind ((loopBody rest).filterMap (ruleFinding? p s.aliases)) = [] :=
    spansOf_ruleFindings_of_ne (by rcases hkind with rfl | rfl <;> decide) _
  have hall : spansOf kind s.findings = if b then [first.span] else [] := by
    rw [spansOf_of_loopKind (hkind.imp_right .inl), loopFindings_of_firstLoop h hp, spansOf_append,
      hrules, List.append_nil, hspans]
  refine ⟨if b then [first] else [], ?_, ?_, fun l => ?_⟩
  · split
    · exact singleton_sublist_of_firstLoop h
    · exact List.nil_sublist _
  · rw [hall]
    split <;> rfl
  · rw [hreported]
    cases b <;> simp

/-- Without a loop there are no findings about one. -/
theorem lists_nil_of_no_loop (hkind : kind = .missingContext ∨ kind = .unterminatedLoop ∨
    kind = .invalidSelector) (h : ∀ first rest, ¬ FirstLoop s first rest) : Lists s kind [] := by
  have hp : s.plan? = none := by
    cases hp : s.plan? with
    | none => rfl
    | some p =>
      obtain ⟨first, rest, hfirst⟩ := exists_firstLoop hp
      exact absurd hfirst (h first rest)
  refine ⟨List.nil_sublist _, ?_, fun l => iff_of_false List.not_mem_nil ?_⟩
  · rw [spansOf_of_loopKind hkind, loopFindings_of_no_loop hp]
    rfl
  · intro hl
    rcases hkind with rfl | rfl | rfl
    · cases hl with
      | missingContext hfirst => exact h _ _ hfirst
    · cases hl with
      | unterminatedLoop hfirst => exact h _ _ hfirst
    · cases hl with
      | invalidAnchor hfirst => exact h _ _ hfirst
      | invalidRule hfirst => exact h _ _ hfirst

theorem exists_lists_missingContext (s : Template) : ∃ ls, Lists s .missingContext ls := by
  by_cases h : ∃ first rest, FirstLoop s first rest
  · obtain ⟨first, rest, h⟩ := h
    obtain ⟨anchor, clause, -, hp⟩ := plan?_of_firstLoop h
    refine exists_lists_of_first _ (.inl rfl) h hp (spansOf_planFindings _ _ _).1 ?_
    intro l
    constructor
    · intro hl
      cases hl with
      | missingContext hfirst hp' hnone =>
        obtain rfl := Option.some.inj (hp.symm.trans hp')
        exact ⟨(firstLoop_unique h hfirst).1, Option.isNone_iff_eq_none.mpr hnone⟩
    · rintro ⟨rfl, hnone⟩
      exact .missingContext h hp (Option.isNone_iff_eq_none.mp hnone)
  · simp only [not_exists] at h
    exact ⟨[], lists_nil_of_no_loop (.inl rfl) h⟩

theorem exists_lists_unterminatedLoop (s : Template) : ∃ ls, Lists s .unterminatedLoop ls := by
  by_cases h : ∃ first rest, FirstLoop s first rest
  · obtain ⟨first, rest, h⟩ := h
    obtain ⟨anchor, clause, -, hp⟩ := plan?_of_firstLoop h
    have hend : ∀ rest : List Line, (!rest.any (·.directive.isAfter)) = true ↔
        ∀ x ∈ rest, ∀ anchor, x.directive ≠ .afterLine anchor := by
      intro rest
      rw [Bool.not_eq_true', List.any_eq_false]
      refine forall₂_congr ?_
      intro x _
      rw [isAfter_iff, not_exists]
    refine exists_lists_of_first _ (.inr rfl) h hp (spansOf_planFindings _ _ _).2.1 ?_
    intro l
    constructor
    · intro hl
      cases hl with
      | unterminatedLoop hfirst hnone =>
        obtain ⟨rfl, rfl⟩ := firstLoop_unique h hfirst
        exact ⟨rfl, (hend _).mpr hnone⟩
    · rintro ⟨rfl, hnone⟩
      exact .unterminatedLoop h ((hend _).mp hnone)
  · simp only [not_exists] at h
    exact ⟨[], lists_nil_of_no_loop (.inr (.inl rfl)) h⟩

theorem isOk_iff {α ε : Type} {x : Except ε α} : x.isOk = false ↔ ∀ a, x ≠ .ok a := by
  cases x <;> simp [Except.isOk, Except.toBool]

/-- The line of the loop, if its anchor is unusable. -/
def anchorLines (s : Template) (p : Plan) (first : Line) : List Line :=
  if (p.anchorSelector s.aliases).isOk then [] else [first]

theorem mem_anchorLines_iff : l ∈ anchorLines s p first ↔
    l = first ∧ ∀ selector, p.anchorSelector s.aliases ≠ .ok selector := by
  rw [← isOk_iff, anchorLines]
  cases (p.anchorSelector s.aliases).isOk <;> simp

theorem spansOf_anchor (s : Template) (p : Plan) (first : Line) :
    spansOf .invalidSelector (planFindings p s.aliases first.span) =
      (anchorLines s p first).map Line.span := by
  rw [(spansOf_planFindings _ _ _).2.2, anchorLines]
  cases (p.anchorSelector s.aliases).isOk <;> rfl

theorem lists_invalidSelector (h : FirstLoop s first rest) (hp : s.plan? = some p) :
    Lists s .invalidSelector (anchorLines s p first ++
      (loopBody rest).filter fun l => (ruleFinding? p s.aliases l).isSome) where
  sublist := by
    -- The line of the loop comes before its body, as the finding about the anchor comes first.
    have hanchor : (anchorLines s p first).Sublist [first] := by
      rw [anchorLines]
      split
      · exact List.nil_sublist _
      · exact List.Sublist.refl _
    exact (hanchor.append (List.filter_sublist.trans (loopBody_sublist rest))).trans
      (sublist_of_firstLoop h)
  spans := by
    rw [spansOf_of_loopKind (.inr (.inr rfl)), loopFindings_of_firstLoop h hp, spansOf_append,
      spansOf_anchor, spansOf_filterMap fun _ _ h => ruleFinding?_eq h, List.map_append]
  mem_iff l := by
    rw [List.mem_append, List.mem_filter, isSome_ruleFinding?_iff, mem_loopBody_iff,
      mem_anchorLines_iff]
    constructor
    · rintro (⟨rfl, hbad⟩ | ⟨⟨earlier, later, hrest, hearlier, -⟩, r, hl, hbad⟩)
      · exact .invalidAnchor h hp hbad
      · exact .invalidRule h hp hrest hearlier hl hbad
    · intro hl
      cases hl with
      | invalidAnchor hfirst hp' hbad =>
        obtain rfl := Option.some.inj (hp.symm.trans hp')
        exact .inl ⟨(firstLoop_unique h hfirst).1, hbad⟩
      | invalidRule hfirst hp' hrest hbody hl hbad =>
        obtain rfl := Option.some.inj (hp.symm.trans hp')
        obtain ⟨-, rfl⟩ := firstLoop_unique h hfirst
        -- A line with a rule is no end line.
        refine .inr ⟨⟨_, _, hrest, hbody, ?_⟩, _, hl, hbad⟩
        intro anchor he
        rw [hl] at he
        cases he

theorem exists_lists_invalidSelector (s : Template) : ∃ ls, Lists s .invalidSelector ls := by
  by_cases h : ∃ first rest, FirstLoop s first rest
  · obtain ⟨first, rest, h⟩ := h
    obtain ⟨anchor, clause, -, hp⟩ := plan?_of_firstLoop h
    exact ⟨_, lists_invalidSelector h hp⟩
  · simp only [not_exists] at h
    exact ⟨[], lists_nil_of_no_loop (.inr (.inr rfl)) h⟩

theorem exists_lists (s : Template) (hkind : kind ≠ .malformedForeach) : ∃ ls, Lists s kind ls := by
  cases kind with
  | malformedForeach => exact absurd rfl hkind
  | missingContext => exact exists_lists_missingContext s
  | unterminatedLoop => exact exists_lists_unterminatedLoop s
  | ignoredLoop => exact exists_lists_ignoredLoop s
  | undefinedAlias => exact exists_lists_undefinedAlias s
  | invalidSelector => exact exists_lists_invalidSelector s

/-! ## The line that a finding is about -/

/-- A finding is about a line: what the line is, what is said about it, and where this points. -/
inductive About (s : Template) (l : Line) : Diagnostic → Prop
  | clause {anchor : String} {fault : ClauseFault} {span : Span}
      (hl : l.directive = .beforeLine anchor (.loop (.error (fault, span)))) :
      About s l ⟨.malformedForeach, fault.message, span⟩
  | undefinedAlias {anchor message : String} (hl : l.directive.anchor? = some anchor) :
      About s l ⟨.undefinedAlias, message, l.span⟩
  | ignoredLoop {message : String} (hl : Declares l) : About s l ⟨.ignoredLoop, message, l.span⟩
  | missingContext {message : String} (hl : Declares l) :
      About s l ⟨.missingContext, message, l.span⟩
  | unterminatedLoop {message : String} (hl : Declares l) :
      About s l ⟨.unterminatedLoop, message, l.span⟩
  | invalidAnchor {fault : SelectorFault} (hl : Declares l) :
      About s l ⟨.invalidSelector, s!"loop anchor: {fault.message}", l.span⟩
  | invalidRule {first : Line} {rest : List Line} {r : Rule} {fault : SelectorFault}
      (hfirst : FirstLoop s first rest) (hbody : l ∈ loopBody rest)
      (hl : l.directive = .ruleLine r) : About s l ⟨.invalidSelector, fault.message, l.span⟩

variable {f : Diagnostic}

theorem about_of_clauseFinding? (h : clauseFinding? l = some f) : About s l f := by
  unfold clauseFinding? at h
  split at h
  · next hl =>
    obtain rfl := Option.some.inj h
    exact .clause hl
  · cases h

theorem about_of_aliasFinding? {aliases : Aliases} (h : aliasFinding? aliases l = some f) :
    About s l f := by
  obtain ⟨anchor, hl, h⟩ := Option.bind_eq_some_iff.mp h
  split at h
  · obtain rfl := Option.some.inj h
    exact .undefinedAlias hl
  · cases h

theorem about_of_ruleFinding? {aliases : Aliases} (hfirst : FirstLoop s first rest)
    (hbody : l ∈ loopBody rest) (h : ruleFinding? p aliases l = some f) : About s l f := by
  obtain ⟨r, hr, h⟩ := Option.bind_eq_some_iff.mp h
  split at h
  · cases h
  · obtain rfl := Option.some.inj h
    exact .invalidRule hfirst hbody (rule?_eq_some_iff.mp hr)

theorem exists_about_of_mem_laterLoopFindings (h : f ∈ laterLoopFindings s.lines) :
    ∃ l ∈ s.lines, About s l f := by
  obtain ⟨l, hl, rfl⟩ := List.mem_map.mp h
  obtain ⟨hmem, hloop⟩ := List.mem_filter.mp (List.mem_of_mem_drop hl)
  exact ⟨l, hmem, .ignoredLoop (isSome_loop?_iff.mp hloop)⟩

theorem about_of_mem_planFindings {aliases : Aliases} (hl : Declares l)
    (h : f ∈ planFindings p aliases l.span) : About s l f := by
  rcases cases_of_mem_planFindings h with ⟨_, rfl⟩ | ⟨_, rfl⟩ | ⟨_, rfl⟩
  · exact .missingContext hl
  · exact .unterminatedLoop hl
  · exact .invalidAnchor hl

theorem exists_about_of_mem_loopFindings (h : f ∈ loopFindings s s.aliases) :
    ∃ l ∈ s.lines, About s l f := by
  cases hp : s.plan? with
  | none =>
    rw [loopFindings_of_no_loop hp] at h
    cases h
  | some p =>
    obtain ⟨first, rest, hfirst⟩ := exists_firstLoop hp
    have hlines := sublist_of_firstLoop hfirst
    rw [loopFindings_of_firstLoop hfirst hp] at h
    rcases List.mem_append.mp h with h | h
    · obtain ⟨-, -, -, hdeclares⟩ := id hfirst
      exact ⟨first, hlines.subset List.mem_cons_self, about_of_mem_planFindings hdeclares h⟩
    · obtain ⟨l, hl, h⟩ := List.mem_filterMap.mp h
      exact ⟨l, hlines.subset (List.mem_cons_of_mem _ ((loopBody_sublist rest).subset hl)),
        about_of_ruleFinding? hfirst hl h⟩

/-- **Every finding is about a line of the script.** -/
theorem exists_about_of_mem_findings (h : f ∈ s.findings) : ∃ l ∈ s.lines, About s l f := by
  rw [Template.findings] at h
  rcases List.mem_append.mp h with h | h
  · rcases List.mem_append.mp h with h | h
    · rcases List.mem_append.mp h with h | h
      · obtain ⟨l, hl, h⟩ := List.mem_filterMap.mp h
        exact ⟨l, hl, about_of_clauseFinding? h⟩
      · obtain ⟨l, hl, h⟩ := List.mem_filterMap.mp h
        exact ⟨l, hl, about_of_aliasFinding? h⟩
    · exact exists_about_of_mem_laterLoopFindings h
  · exact exists_about_of_mem_loopFindings h

/-! ## Exactness -/

theorem perm_check (s : Template) : s.check.Perm s.findings := by
  rw [Template.check]
  split
  · exact List.mergeSort_perm _ _
  · exact .refl _

/-- The lines of a template lie one behind the other. -/
theorem pairwise_lines (source : String) :
    (read source).lines.Pairwise fun a b => a.span.stop < b.span.start :=
  pairwise_readLines (pairwise_splitLines _)

theorem start_le_stop (source : String) :
    ∀ l ∈ (read source).lines, l.span.start ≤ l.span.stop := by
  intro l hl
  obtain ⟨line, hs, -, -⟩ := exists_of_mem_lines hl
  exact hs.le

/-- A place belongs to one line only. -/
theorem eq_of_between {source : String} {a b : Line} {span : Span} (ha : a ∈ (read source).lines)
    (hb : b ∈ (read source).lines) (hsa : span.Between a.span.start a.span.stop)
    (hsb : span.Between b.span.start b.span.stop) : a = b := by
  have hdisj : (read source).lines.Pairwise fun a b =>
      a.span.stop < b.span.start ∨ b.span.stop < a.span.start :=
    (pairwise_lines source).imp Or.inl
  by_cases hne : a = b
  · exact hne
  · obtain ⟨h1, h2, -, -⟩ := hsa
    obtain ⟨h3, h4, -, -⟩ := hsb
    -- Two different lines would lie apart and yet share the place.
    have : Std.Symm fun a b : Line =>
        a.span.stop < b.span.start ∨ b.span.stop < a.span.start := ⟨fun _ _ h => h.symm⟩
    have := hdisj.forall ha hb hne
    omega

/-- Equal places, equal lines. -/
theorem nodup_spans (source : String) : ((read source).lines.map Line.span).Nodup := by
  rw [List.Nodup, List.pairwise_map]
  refine List.Pairwise.imp_of_mem (fun {a b} ha _ hab he => ?_) (pairwise_lines source)
  have := start_le_stop source a ha
  rw [← he] at hab
  omega

/-- Each line that deserves a finding of a kind has exactly one, and no other place has one. -/
theorem spansOf_check (source : String) (hkind : kind ≠ .malformedForeach) :
    (spansOf kind (read source).check).Nodup ∧
      ∀ span, span ∈ spansOf kind (read source).check ↔
        ∃ l ∈ (read source).lines, Reported (read source) kind l ∧ l.span = span := by
  obtain ⟨ls, hls⟩ := exists_lists (read source) hkind
  -- Checking sorts the findings, which moves them around but neither drops nor repeats any.
  have hperm : (spansOf kind (read source).check).Perm (ls.map Line.span) :=
    hls.spans ▸ ((perm_check (read source)).filter _).map _
  refine ⟨hperm.nodup_iff.mpr ((hls.sublist.map _).nodup (nodup_spans source)), ?_⟩
  intro span
  rw [hperm.mem_iff, List.mem_map]
  refine exists_congr ?_
  intro l
  rw [hls.mem_iff]
  exact ⟨fun h => ⟨hls.sublist.subset ((hls.mem_iff l).mpr h.1), h⟩, fun h => h.2⟩

/-- A place of a clause fault comes from a line without a usable clause. -/
theorem mem_spansOf_malformed {span : Span}
    (h : span ∈ spansOf .malformedForeach s.check) :
    ∃ l ∈ s.lines, ∃ anchor fault,
      l.directive = .beforeLine anchor (.loop (.error (fault, span))) := by
  obtain ⟨f, hf, rfl⟩ := List.mem_map.mp h
  obtain ⟨hmem, hkind⟩ := List.mem_filter.mp hf
  have hkind := of_decide_eq_true hkind
  obtain ⟨l, hl, habout⟩ := exists_about_of_mem_findings ((perm_check s).mem_iff.mp hmem)
  cases habout with
  | clause hd => exact ⟨l, hl, _, _, hd⟩
  | _ => cases hkind

/-- A line without a usable clause has a finding. -/
theorem exists_span_of_lacksClause (hl : l ∈ s.lines) (h : LacksClause l) :
    ∃ anchor fault, ∃ span ∈ spansOf .malformedForeach s.check,
      l.directive = .beforeLine anchor (.loop (.error (fault, span))) := by
  obtain ⟨anchor, declaration, hd, hloop, hclause⟩ := h
  cases declaration with
  | unrelated => cases hloop
  | loop clause =>
    cases clause with
    | ok c => cases hclause
    | error e =>
      obtain ⟨fault, span⟩ := e
      refine ⟨anchor, fault, span, ?_, hd⟩
      have hfinding : clauseFinding? l = some ⟨.malformedForeach, fault.message, span⟩ := by
        rw [clauseFinding?, hd]
      have hmem : (⟨.malformedForeach, fault.message, span⟩ : Diagnostic) ∈ s.check := by
        rw [(perm_check s).mem_iff, Template.findings, List.append_assoc, List.append_assoc]
        exact List.mem_append_left _ (List.mem_filterMap.mpr ⟨l, hl, hfinding⟩)
      exact List.mem_map_of_mem (List.mem_filter.mpr ⟨hmem, decide_eq_true rfl⟩)

theorem between_of_directive {source : String} {anchor : String} {fault : ClauseFault} {span : Span}
    (hl : l ∈ (read source).lines)
    (hd : l.directive = .beforeLine anchor (.loop (.error (fault, span)))) :
    span.Between l.span.start l.span.stop := by
  obtain ⟨line, hs, -, hline⟩ := exists_of_mem_lines hl
  rw [hs.stop_eq]
  exact fault_between (hline.symm.trans hd)

/-- A loop about which there are no findings is expanded in full: nothing that the expansion needs
is missing or unusable. -/
theorem usable_of_check_eq_nil (source : String) (h : (read source).check = [])
    (hp : (read source).plan? = some p) : p.clause?.isSome ∧ p.binding?.isSome ∧
      (∃ selector, p.anchorSelector (read source).aliases = .ok selector) ∧
      ∀ r ∈ p.body, ∃ selector, p.selectorOf (read source).aliases r = .ok selector := by
  -- Whatever deserved a finding would have one.
  have hnone : ∀ kind l, kind ≠ .malformedForeach → ¬ Reported (read source) kind l := by
    intro kind l hkind hl
    obtain ⟨ls, hls⟩ := exists_lists (read source) hkind
    have hmem := ((spansOf_check source hkind).2 l.span).mpr
      ⟨l, hls.sublist.subset ((hls.mem_iff l).mpr hl), hl, rfl⟩
    rw [h] at hmem
    cases hmem
  obtain ⟨first, rest, hfirst⟩ := exists_firstLoop hp
  obtain ⟨anchor, clause, hd, hp'⟩ := plan?_of_firstLoop hfirst
  have hmem : first ∈ (read source).lines := (sublist_of_firstLoop hfirst).subset List.mem_cons_self
  refine ⟨?_, ?_, not_forall_not.mp fun hbad => ?_, fun r hr => not_forall_not.mp fun hbad => ?_⟩
  · cases hc : p.clause? with
    | some c => rfl
    | none =>
      obtain rfl := Option.some.inj (hp'.symm.trans hp)
      obtain ⟨-, -, span, hspan, -⟩ :=
        exists_span_of_lacksClause hmem ⟨anchor, .loop clause, hd, rfl, hc⟩
      rw [h] at hspan
      cases hspan
  · cases hb : p.binding? with
    | some b => rfl
    | none => exact absurd (.missingContext hfirst hp hb) (hnone _ first (by decide))
  · exact hnone _ first (by decide) (.invalidAnchor hfirst hp hbad)
  · obtain ⟨l, hl, hrule⟩ := (mem_body_iff hfirst hp).mp hr
    obtain ⟨earlier, later, hrest, hearlier, -⟩ := mem_loopBody_iff.mp hl
    exact hnone _ l (by decide) (.invalidRule hfirst hp hrest hearlier hrule hbad)

/-- **Checking finds exactly what expanding would pass over.** The lines of a script lie apart; each
line that deserves a finding of a kind has one of it, and there are no others; clause faults lie in
the lines without a usable clause, and in each of them. So a loop about which there are no findings
has a clause, a binding, a usable anchor and only usable rules. -/
theorem check_exact (source : String) :
    let s := read source
    (s.lines.Pairwise fun a b => a.span.stop < b.span.start) ∧
      (∀ kind ≠ .malformedForeach, (spansOf kind s.check).Nodup ∧
        ∀ span, span ∈ spansOf kind s.check ↔ ∃ l ∈ s.lines, Reported s kind l ∧ l.span = span) ∧
      (∀ l ∈ s.lines, LacksClause l ↔
        ∃ span ∈ spansOf .malformedForeach s.check, span.Between l.span.start l.span.stop) ∧
      (∀ span ∈ spansOf .malformedForeach s.check,
        ∃ l ∈ s.lines, span.Between l.span.start l.span.stop) ∧
      (s.check = [] → ∀ p, s.plan? = some p → p.clause?.isSome ∧ p.binding?.isSome ∧
        (∃ selector, p.anchorSelector s.aliases = .ok selector) ∧
        ∀ r ∈ p.body, ∃ selector, p.selectorOf s.aliases r = .ok selector) := by
  refine ⟨pairwise_lines source, fun kind hkind => spansOf_check source hkind, ?_, ?_,
    fun h p hp => usable_of_check_eq_nil source h hp⟩
  · intro l hl
    constructor
    · intro h
      obtain ⟨anchor, fault, span, hspan, hd⟩ := exists_span_of_lacksClause hl h
      exact ⟨span, hspan, between_of_directive hl hd⟩
    · rintro ⟨span, hspan, hbetween⟩
      obtain ⟨l', hl', anchor, fault, hd⟩ := mem_spansOf_malformed hspan
      obtain rfl := eq_of_between hl hl' hbetween (between_of_directive hl' hd)
      exact ⟨anchor, _, hd, rfl, rfl⟩
  · intro span hspan
    obtain ⟨l, hl, anchor, fault, hd⟩ := mem_spansOf_malformed hspan
    exact ⟨l, hl, between_of_directive hl hd⟩

end Stencil.Script
