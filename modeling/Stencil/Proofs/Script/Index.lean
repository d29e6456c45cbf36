import Stencil.Proofs.Script.Spelling
import Stencil.Script.Expansion

/-!
# Which expressions are evaluated

An expression reads a field of the item if it is an index of the item variable and nothing else
(`IsIndex`): `$item['field']`, with gaps around and between its tokens, and with either kind of
quotes. Every other expression stands for its own text, and so does an index whose field is missing
or does not count as true.
-/

namespace Stencil.Script

variable {cs rest gaps : List Char} {expression name field : String}

/-- A text is the index of a field of a variable. -/
def IsIndex (cs : List Char) (name field : String) : Prop :=
  ∃ lead behindName behindOpen behindField behindClose quote,
    IsGaps lead ∧ IsGaps behindName ∧ IsGaps behindOpen ∧ IsGaps behindField ∧
    IsGaps behindClose ∧ (quote = '"' ∨ quote = '\'') ∧ IsName name.toList ∧
    Quotable quote field.toList ∧
    cs = lead ++ '$' :: name.toList ++ behindName ++ '[' :: behindOpen ++
      quote :: field.toList ++ quote :: behindField ++ ']' :: behindClose

/-- No name goes on with a gap or a bracket. -/
theorem endsName_append (h : IsGaps gaps) : EndsName (gaps ++ '[' :: rest) := by
  intro c hc
  cases gaps with
  | nil =>
    obtain rfl := Option.some.inj hc
    rfl
  | cons d gaps =>
    obtain rfl := Option.some.inj hc
    have hgap := h d List.mem_cons_self
    simp only [isGap, Bool.or_eq_true, beq_iff_eq] at hgap
    rcases hgap with ((rfl | rfl) | rfl) | rfl <;> rfl

/-- **The tokens of an index spell indices.** -/
theorem spelledBy_index_iff :
    SpelledBy cs [.var name, .openBracket, .quoted field, .closeBracket] ↔
      IsIndex cs name field := by
  constructor
  · intro h
    obtain ⟨lead, start, rest₁, rfl, hlead, hstart, h₁⟩ := spelledBy_cons_iff.mp h
    obtain ⟨rfl, hname, -⟩ := starts_var_iff.mp hstart
    obtain ⟨behindName, start, rest₂, rfl, hbehindName, hstart, h₂⟩ := spelledBy_cons_iff.mp h₁
    obtain rfl := (starts_bracket_iff rfl).mp hstart
    obtain ⟨behindOpen, start, rest₃, rfl, hbehindOpen, hstart, h₃⟩ := spelledBy_cons_iff.mp h₂
    obtain ⟨quote, hquote, rfl, hfield⟩ := starts_quoted_iff.mp hstart
    obtain ⟨behindField, start, rest₄, rfl, hbehindField, hstart, h₄⟩ := spelledBy_cons_iff.mp h₃
    obtain rfl := (starts_bracket_iff rfl).mp hstart
    refine ⟨lead, behindName, behindOpen, behindField, rest₄, quote, hlead, hbehindName,
      hbehindOpen, hbehindField, spelledBy_nil_right_iff.mp h₄, hquote, hname, hfield, ?_⟩
    simp only [List.append_assoc, List.cons_append]
  · rintro ⟨lead, behindName, behindOpen, behindField, behindClose, quote, hlead, hbehindName,
      hbehindOpen, hbehindField, hbehindClose, hquote, hname, hfield, rfl⟩
    simp only [List.append_assoc, List.cons_append]
    refine spelledBy_cons_iff.mpr ⟨lead, _, _, rfl, hlead,
      starts_var_iff.mpr ⟨rfl, hname, endsName_append hbehindName⟩, ?_⟩
    refine spelledBy_cons_iff.mpr ⟨behindName, _, _, rfl, hbehindName,
      (starts_bracket_iff rfl).mpr rfl, ?_⟩
    refine spelledBy_cons_iff.mpr ⟨behindOpen, _, _, rfl, hbehindOpen,
      starts_quoted_iff.mpr ⟨quote, hquote, rfl, hfield⟩, ?_⟩
    exact spelledBy_cons_iff.mpr ⟨behindField, _, _, rfl, hbehindField,
      (starts_bracket_iff rfl).mpr rfl, spelledBy_nil_right_iff.mpr hbehindClose⟩

/-- **An expression is read as an index exactly if it is one, in each of its parts.** -/
theorem indexOf?_eq_some_iff :
    indexOf? expression = some (name, field) ↔ IsIndex expression.toList name field := by
  rw [← spelledBy_index_iff, ← map_fst_tokens?_eq_some_iff, indexOf?]
  cases tokens? expression with
  | none => exact iff_of_false (fun h => nomatch h) fun h => nomatch h
  | some ts =>
    rw [Option.bind_some, Option.map_some, Option.some.injEq]
    generalize ts.map Prod.fst = us
    constructor
    · intro h
      split at h
      · cases h
        rfl
      · cases h
    · rintro rfl
      rfl

/-- The field of an item that an expression reads: the item is an object that has it, and it counts
as true. -/
def Reads (expression item : String) (value found : Json.Value) : Prop :=
  ∃ field members, IsIndex expression.toList item field ∧ value = .object members ∧
    Keyed.get? members field = some found ∧ isTruthy found = true

/-- What is found under the field of an index. -/
theorem evaluate_of_indexOf? {item : String} (h : indexOf? expression = some (item, field))
    (value : Json.Value) : evaluate expression item value =
      (((value.member? field).filter isTruthy).map fieldText).getD expression := by
  rw [evaluate, h]
  dsimp only
  rw [if_pos rfl]
  cases (value.member? field).filter isTruthy <;> rfl

theorem member?_eq_some_iff {value found : Json.Value} : value.member? field = some found ↔
    ∃ members, value = .object members ∧ Keyed.get? members field = some found := by
  cases value <;> simp [Json.Value.member?]

/-- **An expression reads a field of the item if it is an index of the item variable, and stands for
itself otherwise.** -/
theorem indexOf?_and_evaluate_exact (expression : String) :
    (∀ name field,
      indexOf? expression = some (name, field) ↔ IsIndex expression.toList name field) ∧
    ∀ item value,
      (∀ found, Reads expression item value found →
        evaluate expression item value = fieldText found) ∧
      ((¬ ∃ found, Reads expression item value found) →
        evaluate expression item value = expression) := by
  refine ⟨fun name field => indexOf?_eq_some_iff, fun item value => ⟨?_, ?_⟩⟩
  · rintro found ⟨field, members, hindex, rfl, hfound, htruthy⟩
    rw [evaluate_of_indexOf? (indexOf?_eq_some_iff.mpr hindex),
      member?_eq_some_iff.mpr ⟨members, rfl, hfound⟩, Option.filter_some, if_pos htruthy]
    rfl
  · intro hnone
    unfold evaluate
    split
    · next name field hindex =>
      split
      · next hname =>
        subst hname
        split
        · next found hfound =>
          obtain ⟨hfound, htruthy⟩ := Option.filter_eq_some_iff.mp hfound
          obtain ⟨members, rfl, hfound⟩ := member?_eq_some_iff.mp hfound
          exact absurd ⟨found, field, members, indexOf?_eq_some_iff.mp hindex, rfl, hfound, htruthy⟩
            hnone
        · rfl
      · rfl
    · rfl

example : evaluate " $row [ 'na\\'me' ]" "row" (.object [("na\\'me", .string "x")]) = "x" := by
  decide +kernel

end Stencil.Script
