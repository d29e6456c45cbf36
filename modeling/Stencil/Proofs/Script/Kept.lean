import Stencil.Proofs.Script.Loop
import Stencil.Script.Expansion

/-!
# What of a script matters

Rendering asks a script for two things, the plan of its first loop and what each alias stands for.
Both are read off the list of its directives, whatever the places of the lines are (`planOf`,
`get?_aliasesOf`). A reader who goes through the lines once can tell which of them decide
(`Progress.keeps`): the aliases, the first component binding, the first declaration of a loop, and
then the rules up to the end line and that line. The others can be left out (`planOf_keptFrom`,
`filterMap_alias?_keptFrom`).
-/

namespace Stencil.Script
open Text

variable {ds : List Directive} {d : Directive} {name : String} {binding? : Option Binding}

/-! ## Places -/

/-- The directive with no place in its fault. -/
def Directive.bare : Directive → Directive
  | .beforeLine anchor (.loop (.error (fault, _))) =>
    .beforeLine anchor (.loop (.error (fault, ⟨0, 0⟩)))
  | d => d

/-- A directive is the same wherever its line stands. -/
theorem bare_directiveOf (position : Nat) (line : List Char) :
    (directiveOf position line).bare = (directiveOf 0 line).bare := by
  have hdeclaration : ∀ (anchor : String) (base base' : Nat) (trimmed : List Char),
      (Directive.beforeLine anchor (declarationOf base trimmed)).bare =
        (Directive.beforeLine anchor (declarationOf base' trimmed)).bare := by
    intro anchor base base' trimmed
    unfold declarationOf
    split
    · cases clauseOf (String.ofList trimmed) <;> rfl
    · rfl
  unfold directiveOf
  dsimp only
  split
  · rfl
  · split
    · rfl
    · unfold plainDirective
      split
      · exact hdeclaration _ _ _ _
      · rfl

/-! ## The plan -/

/-- The rules up to the end of a loop. -/
def bodyOf (ds : List Directive) : List Rule :=
  (ds.takeWhile fun d => !d.isAfter).filterMap (·.rule?)

/-- The plan of the first loop among directives, for a component that has been bound. -/
def planFrom (binding? : Option Binding) : List Directive → Option Plan
  | [] => none
  | d :: ds =>
    match d.loop? with
    | some (anchor, declaration) =>
      some ⟨anchor, declaration.clause?, binding?, bodyOf ds, ds.any (·.isAfter)⟩
    | none => planFrom binding? ds

/-- The plan of the first loop among the directives of a script. -/
def planOf (ds : List Directive) : Option Plan := planFrom (ds.findSome? (·.binding?)) ds

theorem bodyOf_cons (d : Directive) (ds : List Directive) :
    bodyOf (d :: ds) = if d.isAfter then [] else d.rule?.toList ++ bodyOf ds := by
  rw [bodyOf, List.takeWhile_cons]
  cases d.isAfter with
  | true => rfl
  | false =>
    rw [if_neg Bool.false_ne_true, bodyOf]
    cases h : d.rule? <;> simp [h]

theorem planFrom_cons_of_none (h : d.loop? = none) (binding? : Option Binding)
    (ds : List Directive) : planFrom binding? (d :: ds) = planFrom binding? ds := by
  rw [planFrom, h]

theorem plan?_eq (s : Template) : s.plan? = planOf (s.lines.map (·.directive)) := by
  have hbinding : s.binding? = (s.lines.map (·.directive)).findSome? (·.binding?) := by
    rw [Template.binding?, List.findSome?_map]
    rfl
  have hplan : ∀ lines : List Line,
      (firstLoop? lines).bind (fun x => x.1.directive.loop?.map fun y =>
        (⟨y.1, y.2.clause?, s.binding?, (loopBody x.2).filterMap (·.directive.rule?),
          x.2.any (·.directive.isAfter)⟩ : Plan)) =
      planFrom s.binding? (lines.map (·.directive)) := by
    intro lines
    induction lines with
    | nil => rfl
    | cons l lines ih =>
      rw [firstLoop?, List.map_cons, planFrom]
      cases hl : l.directive.loop? with
      | none => simpa [hl] using ih
      | some found =>
        simp [hl, bodyOf, loopBody, List.takeWhile_map, Function.comp_def]
  rw [planOf, ← hbinding, ← hplan, Template.plan?]
  cases firstLoop? s.lines with
  | none => rfl
  | some x =>
    obtain ⟨l, rest⟩ := x
    cases h : l.directive.loop? <;> simp [h]

theorem binding?_bare (d : Directive) : d.bare.binding? = d.binding? := by
  unfold Directive.bare
  split <;> rfl

theorem rule?_bare (d : Directive) : d.bare.rule? = d.rule? := by
  unfold Directive.bare
  split <;> rfl

theorem isAfter_bare (d : Directive) : d.bare.isAfter = d.isAfter := by
  unfold Directive.bare
  split <;> rfl

theorem loop?_bare (d : Directive) : d.bare.loop?.map (fun x => (x.1, x.2.clause?)) =
    d.loop?.map fun x => (x.1, x.2.clause?) := by
  unfold Directive.bare
  split <;> rfl

theorem bodyOf_map_bare (ds : List Directive) : bodyOf (ds.map (·.bare)) = bodyOf ds := by
  simp [bodyOf, List.takeWhile_map, List.filterMap_map, Function.comp_def, isAfter_bare, rule?_bare]

/-- The plan holds no places. -/
theorem planOf_map_bare (ds : List Directive) : planOf (ds.map (·.bare)) = planOf ds := by
  have hplan : ∀ binding?, planFrom binding? (ds.map (·.bare)) = planFrom binding? ds := by
    intro binding?
    induction ds with
    | nil => rfl
    | cons d ds ih =>
      have h := loop?_bare d
      rw [List.map_cons, planFrom, planFrom]
      cases hd : d.loop? with
      | none =>
        rw [hd, Option.map_none, Option.map_eq_none_iff] at h
        rw [h]
        exact ih
      | some found =>
        rw [hd, Option.map_some, Option.map_eq_some_iff] at h
        obtain ⟨found', hd', he⟩ := h
        obtain ⟨hanchor, hclause⟩ := Prod.mk.inj he
        rw [hd']
        dsimp only
        rw [hanchor, hclause, bodyOf_map_bare, List.any_map]
        simp only [Function.comp_def, isAfter_bare]
  rw [planOf, hplan, planOf, List.findSome?_map]
  simp only [Function.comp_def, binding?_bare]

/-! ## Directives that say nothing about the loop -/

/-- Whether a directive says nothing about the loop. -/
def Directive.isIdle : Directive → Bool
  | .aliasLine _ _ | .verbatim => true
  | _ => false

theorem loop?_of_isIdle (h : d.isIdle = true) : d.loop? = none := by
  cases d <;> first | rfl | cases h

theorem binding?_of_isIdle (h : d.isIdle = true) : d.binding? = none := by
  cases d <;> first | rfl | cases h

theorem bodyOf_cons_of_isIdle (h : d.isIdle = true) (ds : List Directive) :
    bodyOf (d :: ds) = bodyOf ds := by
  rw [bodyOf_cons]
  cases d <;> first | rfl | cases h

theorem isAfter_of_isIdle (h : d.isIdle = true) : d.isAfter = false := by
  cases d <;> first | rfl | cases h

section Filter

variable {p : Directive → Bool} (hp : ∀ d, p d = false → d.isIdle = true)
include hp

theorem findSome?_binding?_filter (ds : List Directive) :
    (ds.filter p).findSome? (·.binding?) = ds.findSome? (·.binding?) := by
  induction ds with
  | nil => rfl
  | cons d ds ih =>
    cases hd : p d with
    | true => rw [List.filter_cons_of_pos hd, List.findSome?_cons, List.findSome?_cons, ih]
    | false =>
      rw [List.filter_cons_of_neg (by simp [hd]), List.findSome?_cons,
        binding?_of_isIdle (hp d hd), ih]

theorem bodyOf_filter (ds : List Directive) : bodyOf (ds.filter p) = bodyOf ds := by
  induction ds with
  | nil => rfl
  | cons d ds ih =>
    cases hd : p d with
    | true => rw [List.filter_cons_of_pos hd, bodyOf_cons, bodyOf_cons, ih]
    | false => rw [List.filter_cons_of_neg (by simp [hd]), bodyOf_cons_of_isIdle (hp d hd), ih]

theorem any_isAfter_filter (ds : List Directive) :
    (ds.filter p).any (·.isAfter) = ds.any (·.isAfter) := by
  induction ds with
  | nil => rfl
  | cons d ds ih =>
    cases hd : p d with
    | true => rw [List.filter_cons_of_pos hd, List.any_cons, List.any_cons, ih]
    | false =>
      rw [List.filter_cons_of_neg (by simp [hd]), List.any_cons, isAfter_of_isIdle (hp d hd),
        Bool.false_or, ih]

/-- **Directives that say nothing about the loop can be left out.** -/
theorem planOf_filter (ds : List Directive) : planOf (ds.filter p) = planOf ds := by
  have hplan : ∀ binding?, planFrom binding? (ds.filter p) = planFrom binding? ds := by
    intro binding?
    induction ds with
    | nil => rfl
    | cons d ds ih =>
      cases hd : p d with
      | true =>
        rw [List.filter_cons_of_pos hd, planFrom, planFrom, ih, bodyOf_filter hp,
          any_isAfter_filter hp]
      | false =>
        rw [List.filter_cons_of_neg (by simp [hd]),
          planFrom_cons_of_none (loop?_of_isIdle (hp d hd)), ih]
  rw [planOf, hplan, findSome?_binding?_filter hp, planOf]

end Filter

/-! ## Aliases -/

/-- The aliases that directives define. -/
def aliasesOf (ds : List Directive) : Aliases := ds.foldl Aliases.define []

/-- What a directive says an alias stands for. -/
def Directive.alias? (name : String) : Directive → Option String
  | .aliasLine other selector => if other = name then some selector else none
  | _ => none

theorem aliases_eq (s : Template) : s.aliases = aliasesOf (s.lines.map (·.directive)) := by
  rw [Template.aliases, aliasesOf, List.foldl_map]

theorem aliasesOf_map_bare (ds : List Directive) : aliasesOf (ds.map (·.bare)) = aliasesOf ds := by
  have hdefine : ∀ (table : Aliases) (d : Directive), table.define d.bare = table.define d := by
    intro table d
    unfold Directive.bare
    split <;> rfl
  rw [aliasesOf, List.foldl_map, aliasesOf]
  simp only [hdefine]

theorem get?_define (table : Aliases) (d : Directive) (name : String) :
    Keyed.get? (table.define d) name = (d.alias? name).or (Keyed.get? table name) := by
  cases d with
  | aliasLine other selector =>
    rw [Aliases.define, Directive.alias?]
    by_cases h : other = name
    · subst h
      rw [Keyed.get?_insert_self, if_pos rfl, Option.some_or]
    · rw [Keyed.get?_insert_of_ne _ _ (Ne.symm h), if_neg h, Option.none_or]
  | _ => rfl

/-- **An alias stands for what the last of its lines says.** -/
theorem get?_aliasesOf (ds : List Directive) (name : String) :
    Keyed.get? (aliasesOf ds) name = (ds.filterMap (·.alias? name)).getLast? := by
  have hall : ∀ table : Aliases, Keyed.get? (ds.foldl Aliases.define table) name =
      (ds.filterMap (·.alias? name)).getLast?.or (Keyed.get? table name) := by
    induction ds with
    | nil => exact fun _ => rfl
    | cons d ds ih =>
      intro table
      rw [List.foldl_cons, ih, get?_define, List.filterMap_cons]
      cases d.alias? name with
      | none => rfl
      | some selector =>
        rw [List.getLast?_cons]
        cases (ds.filterMap (·.alias? name)).getLast? <;> rfl
  rw [aliasesOf, hall, Keyed.get?_nil, Option.or_none]

/-- Lines that define no alias can be left out. -/
theorem filterMap_alias?_filter {p : Directive → Bool}
    (hp : ∀ d, p d = false → d.alias? name = none) (ds : List Directive) :
    (ds.filter p).filterMap (·.alias? name) = ds.filterMap (·.alias? name) := by
  induction ds with
  | nil => rfl
  | cons d ds ih =>
    cases hd : p d with
    | true => rw [List.filter_cons_of_pos hd, List.filterMap_cons, List.filterMap_cons, ih]
    | false =>
      rw [List.filter_cons_of_neg (by simp [hd]), List.filterMap_cons_none (hp d hd), ih]

/-! ## What is kept -/

/-- Where a reader is: in front of the first loop, in its body, or behind its end. -/
inductive Stage where
  | before
  | inside
  | behind
  deriving Repr, DecidableEq

/-- What a reader of directives has met: a component binding, and parts of the first loop. -/
structure Progress where
  bound : Bool
  stage : Stage
  deriving Repr, DecidableEq

namespace Progress

/-- Nothing has been met. -/
def start : Progress := ⟨false, .before⟩

/-- Whether a directive matters at this point: every alias does, the first binding, the first
declaration of a loop, and in the body of that loop the rules and the end. -/
def keeps (g : Progress) : Directive → Bool
  | .aliasLine _ _ => true
  | .contextLine _ => !g.bound
  | .beforeLine _ declaration => declaration.isLoop && g.stage == .before
  | .ruleLine _ => g.stage == .inside
  | .afterLine _ => g.stage == .inside
  | .verbatim => false

/-- The progress behind a directive that is kept. -/
def after (g : Progress) : Directive → Progress
  | .contextLine _ => { g with bound := true }
  | .beforeLine _ _ => { g with stage := .inside }
  | .afterLine _ => { g with stage := .behind }
  | _ => g

end Progress

/-- The directives that matter. -/
def keptFrom (g : Progress) : List Directive → List Directive
  | [] => []
  | d :: ds => if g.keeps d then d :: keptFrom (g.after d) ds else keptFrom g ds

theorem keptFrom_of_keeps {g : Progress} (h : g.keeps d = true) (ds : List Directive) :
    keptFrom g (d :: ds) = d :: keptFrom (g.after d) ds := by
  rw [keptFrom, if_pos h]

theorem keptFrom_of_not_keeps {g : Progress} (h : g.keeps d = false) (ds : List Directive) :
    keptFrom g (d :: ds) = keptFrom g ds := by
  rw [keptFrom, if_neg (by simp [h])]

/-- In the body of the first loop all rules are kept, up to the end and with it. -/
theorem bodyOf_keptFrom {g : Progress} (hg : g.stage = .inside) (ds : List Directive) :
    bodyOf (keptFrom g ds) = bodyOf ds ∧
      (keptFrom g ds).any (·.isAfter) = ds.any (·.isAfter) := by
  induction ds generalizing g with
  | nil => exact ⟨rfl, rfl⟩
  | cons d ds ih =>
    cases hd : g.keeps d with
    | true =>
      rw [keptFrom_of_keeps hd, bodyOf_cons, bodyOf_cons, List.any_cons, List.any_cons]
      cases hafter : d.isAfter with
      | true => exact ⟨rfl, rfl⟩
      | false =>
        have hstage : (g.after d).stage = .inside := by
          cases d <;> first | exact hg | rfl | cases hafter
        rw [(ih hstage).1, (ih hstage).2]
        exact ⟨rfl, rfl⟩
    | false =>
      -- nothing is left out that is a rule or an end
      have hnone : d.rule? = none ∧ d.isAfter = false := by
        cases d <;> first | exact ⟨rfl, rfl⟩ | simp [Progress.keeps, hg] at hd
      rw [keptFrom_of_not_keeps hd, (ih hg).1, (ih hg).2, bodyOf_cons, List.any_cons, hnone.1,
        hnone.2]
      exact ⟨rfl, rfl⟩

theorem planFrom_keptFrom {g : Progress} (hg : g.stage = .before) (binding? : Option Binding)
    (ds : List Directive) : planFrom binding? (keptFrom g ds) = planFrom binding? ds := by
  induction ds generalizing g with
  | nil => rfl
  | cons d ds ih =>
    cases hd : g.keeps d with
    | true =>
      rw [keptFrom_of_keeps hd]
      cases hloop : d.loop? with
      | some found =>
        -- the first loop: what is kept behind it is its body and its end
        have hstage : (g.after d).stage = .inside := by
          cases d <;> first | rfl | cases hloop
        rw [planFrom, planFrom, hloop]
        dsimp only
        rw [(bodyOf_keptFrom hstage ds).1, (bodyOf_keptFrom hstage ds).2]
      | none =>
        have hstage : (g.after d).stage = .before := by
          cases d with
          | beforeLine anchor declaration =>
            have hdeclares : declaration.isLoop = true := (Bool.and_eq_true_iff.mp hd).1
            simp [Directive.loop?, hdeclares] at hloop
          | afterLine anchor => simp [Progress.keeps, hg] at hd
          | _ => exact hg
        rw [planFrom_cons_of_none hloop, planFrom_cons_of_none hloop, ih hstage]
    | false =>
      have hloop : d.loop? = none := by
        cases d with
        | beforeLine anchor declaration =>
          have hdeclares : declaration.isLoop = false := by
            simpa [Progress.keeps, hg] using hd
          simp [Directive.loop?, hdeclares]
        | _ => rfl
      rw [keptFrom_of_not_keeps hd, planFrom_cons_of_none hloop, ih hg]

theorem findSome?_binding?_keptFrom {g : Progress} (hg : g.bound = false) (ds : List Directive) :
    (keptFrom g ds).findSome? (·.binding?) = ds.findSome? (·.binding?) := by
  induction ds generalizing g with
  | nil => rfl
  | cons d ds ih =>
    cases hd : g.keeps d with
    | true =>
      rw [keptFrom_of_keeps hd, List.findSome?_cons, List.findSome?_cons]
      cases hbinding : d.binding? with
      | some b => rfl
      | none =>
        have hbound : (g.after d).bound = false := by
          cases d <;> first | exact hg | cases hbinding
        exact ih hbound
    | false =>
      have hbinding : d.binding? = none := by
        cases d <;> first | rfl | simp [Progress.keeps, hg] at hd
      rw [keptFrom_of_not_keeps hd, List.findSome?_cons, hbinding, ih hg]

/-- **The directives that are kept make the same plan.** -/
theorem planOf_keptFrom (ds : List Directive) : planOf (keptFrom .start ds) = planOf ds := by
  rw [planOf, findSome?_binding?_keptFrom rfl, planFrom_keptFrom rfl, planOf]

theorem filterMap_alias?_keptFrom (g : Progress) (ds : List Directive) (name : String) :
    (keptFrom g ds).filterMap (·.alias? name) = ds.filterMap (·.alias? name) := by
  induction ds generalizing g with
  | nil => rfl
  | cons d ds ih =>
    cases hd : g.keeps d with
    | true => rw [keptFrom_of_keeps hd, List.filterMap_cons, List.filterMap_cons, ih]
    | false =>
      have halias : d.alias? name = none := by
        cases d <;> first | rfl | cases hd
      rw [keptFrom_of_not_keeps hd, List.filterMap_cons_none halias, ih]

/-! ## Rendering -/

/-- Expanding asks the aliases for nothing but what names stand for. -/
theorem expand_congr {table table' : Aliases}
    (h : ∀ name, Keyed.get? table' name = Keyed.get? table name) (p : Plan) (registry : Registry)
    (d : Document) : expand p table' registry d = expand p table registry d := by
  have hresolve : ∀ token, table'.resolve token = table.resolve token := by
    intro token
    rw [Aliases.resolve, Aliases.resolve, h]
  have hrule : ∀ item value top,
      applyRule p table' item value top = applyRule p table item value top := by
    intro item value top
    funext d r
    rw [applyRule, applyRule, Plan.selectorOf, Plan.selectorOf, hresolve]
  have hitem : ∀ item container stamp,
      appendItem p table' item container stamp = appendItem p table item container stamp := by
    intro item container stamp
    funext d value
    simp only [appendItem, hrule]
  simp only [expand, Plan.anchorSelector, hresolve, hitem]

/-- **Rendering asks a script for its skeleton, its plan and what its aliases stand for.** -/
theorem render_congr {source source' : String} (registry : Registry)
    (hskeleton : (read source').skeleton = (read source).skeleton)
    (hplan : (read source').plan? = (read source).plan?)
    (haliases : ∀ name, Keyed.get? (read source').aliases name =
      Keyed.get? (read source).aliases name) :
    render registry source' = render registry source := by
  have hexpand : ∀ p d, expand p (read source').aliases registry d =
      expand p (read source).aliases registry d :=
    fun p d => expand_congr haliases p registry d
  simp only [render, hskeleton, hplan, hexpand]

end Stencil.Script
