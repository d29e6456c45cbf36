import Stencil.Text.Letters
import Stencil.Text.Lowercase

/-!
# Letters of either case

What holds of every ASCII letter of one case is checked by going through the twenty-six of them.
In this way the tables of letter case are seen to agree with the folding of `A` to `Z`: a text that
is folded first has the same lower case form (`lowercase_lowerLetters`), also where a capital sigma
depends on what stands around it.
-/

namespace Stencil.Text

variable {c x : Char} {cs before : List Char}

/-! ## One letter -/

theorem of_isLowerLetter {P : Char → Prop} (h : ∀ n < 26, P (Char.ofNat (97 + n)))
    (hc : isLowerLetter c = true) : P c := by
  rw [isLowerLetter, Bool.and_eq_true, decide_eq_true_eq, decide_eq_true_eq] at hc
  have hlow : 97 ≤ c.toNat := hc.1
  have hhigh : c.toNat ≤ 122 := hc.2
  have hletter := h (c.toNat - 97) (by omega)
  rwa [Nat.add_sub_cancel' hlow, Char.ofNat_toNat] at hletter

theorem of_isUpperLetter {P : Char → Prop} (h : ∀ n < 26, P (Char.ofNat (65 + n)))
    (hc : isUpperLetter c = true) : P c := by
  rw [isUpperLetter, Bool.and_eq_true, decide_eq_true_eq, decide_eq_true_eq] at hc
  have hlow : 65 ≤ c.toNat := hc.1
  have hhigh : c.toNat ≤ 90 := hc.2
  have hletter := h (c.toNat - 65) (by omega)
  rwa [Nat.add_sub_cancel' hlow, Char.ofNat_toNat] at hletter

theorem isUpperLetter_upperChar (h : isLowerLetter c = true) : isUpperLetter (upperChar c) = true :=
  of_isLowerLetter (P := fun c => isUpperLetter (upperChar c) = true) (by decide) h

theorem lowerChar_upperChar (h : isLowerLetter c = true) : lowerChar (upperChar c) = c :=
  of_isLowerLetter (P := fun c => lowerChar (upperChar c) = c) (by decide) h

theorem lowerChar_of_isLowerLetter (h : isLowerLetter c = true) : lowerChar c = c :=
  of_isLowerLetter (P := fun c => lowerChar c = c) (by decide) h

theorem isLowerLetter_lowerChar (h : isUpperLetter c = true) : isLowerLetter (lowerChar c) = true :=
  of_isUpperLetter (P := fun c => isLowerLetter (lowerChar c) = true) (by decide) h

theorem upperChar_lowerChar (h : isUpperLetter c = true) : upperChar (lowerChar c) = c :=
  of_isUpperLetter (P := fun c => upperChar (lowerChar c) = c) (by decide) h

theorem isLowerLetter_of_isUpperLetter (h : isUpperLetter c = true) : isLowerLetter c = false :=
  of_isUpperLetter (P := fun c => isLowerLetter c = false) (by decide) h

theorem lowerChar_of_isUpperLetter_eq_false (h : isUpperLetter c = false) : lowerChar c = c :=
  if_neg (Bool.not_eq_true _ ▸ h)

/-- Folding does not lead to what is no letter. -/
theorem lowerChar_eq_iff (hlower : isLowerLetter x = false) (hupper : isUpperLetter x = false) :
    lowerChar c = x ↔ c = x := by
  cases hc : isUpperLetter c with
  | false => rw [lowerChar_of_isUpperLetter_eq_false hc]
  | true =>
    have hfold : lowerChar c ≠ x := by
      rintro rfl
      exact Bool.false_ne_true (hlower.symm.trans (isLowerLetter_lowerChar hc))
    have hne : c ≠ x := by
      rintro rfl
      exact Bool.false_ne_true (hupper.symm.trans hc)
    exact iff_of_false hfold hne

/-- What the tables say of a letter they say of its lower case form. -/
theorem tables_lowerChar (c : Char) :
    lowerLetter (lowerChar c) = lowerLetter c ∧
      inRanges caseIgnorableRanges (lowerChar c).toNat = inRanges caseIgnorableRanges c.toNat ∧
      inRanges casedRanges (lowerChar c).toNat = inRanges casedRanges c.toNat := by
  cases hc : isUpperLetter c with
  | false =>
    rw [lowerChar_of_isUpperLetter_eq_false hc]
    exact ⟨rfl, rfl, rfl⟩
  | true =>
    refine of_isUpperLetter (P := fun c => lowerLetter (lowerChar c) = lowerLetter c ∧
      inRanges caseIgnorableRanges (lowerChar c).toNat = inRanges caseIgnorableRanges c.toNat ∧
      inRanges casedRanges (lowerChar c).toNat = inRanges casedRanges c.toNat) ?_ hc
    decide +kernel

/-! ## Texts -/

theorem casedComesFirst_map_lowerChar (cs : List Char) :
    casedComesFirst (cs.map lowerChar) = casedComesFirst cs := by
  have hignorable : (fun c : Char => inRanges caseIgnorableRanges c.toNat) ∘ lowerChar =
      fun c => inRanges caseIgnorableRanges c.toNat :=
    funext fun c => (tables_lowerChar c).2.1
  rw [casedComesFirst, casedComesFirst, List.dropWhile_map, hignorable]
  cases cs.dropWhile fun c => inRanges caseIgnorableRanges c.toNat with
  | nil => rfl
  | cons c rest => exact (tables_lowerChar c).2.2

theorem lowercaseFrom_map_lowerChar (before cs : List Char) :
    lowercaseFrom (before.map lowerChar) (cs.map lowerChar) = lowercaseFrom before cs := by
  induction cs generalizing before with
  | nil => rfl
  | cons c cs ih =>
    have hsigma : lowerChar c = 'Σ' ↔ c = 'Σ' := lowerChar_eq_iff rfl rfl
    have hdotted : lowerChar c = 'İ' ↔ c = 'İ' := lowerChar_eq_iff rfl rfl
    have hbehind := ih (c :: before)
    rw [List.map_cons] at hbehind
    simp only [List.map_cons, lowercaseFrom, hsigma, hdotted, casedComesFirst_map_lowerChar,
      (tables_lowerChar c).1, hbehind]

/-- **Folding `A` to `Z` first does not show in the lower case form.** -/
theorem lowercase_lowerLetters (s : String) : lowercase (lowerLetters s) = lowercase s := by
  have h := lowercaseFrom_map_lowerChar [] s.toList
  rw [List.map_nil] at h
  rw [lowercase, lowercase, lowerLetters, String.toList_ofList, h]

end Stencil.Text
