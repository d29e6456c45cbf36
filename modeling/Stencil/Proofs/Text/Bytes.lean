import Mathlib.Tactic.SplitIfs
import Stencil.Text.Search

/-!
# The bytes of a text

In UTF-8 each character is one to four bytes, and the first byte of a longer code is above every
first byte of a shorter one. So the bytes of texts compare as their characters do
(`bytes_lt_of_lt`), and tables in the order of the one are in the order of the other.
-/

namespace Stencil.Text

variable {cs ds : List Char} {c d : Char} {byte : UInt8} {n : Nat}

/-- The bytes of a text in UTF-8. -/
def bytes (cs : List Char) : List UInt8 := cs.flatMap String.utf8EncodeChar

theorem bytes_append (cs ds : List Char) : bytes (cs ++ ds) = bytes cs ++ bytes ds :=
  List.flatMap_append

theorem bytes_cons (c : Char) (cs : List Char) :
    bytes (c :: cs) = String.utf8EncodeChar c ++ bytes cs :=
  List.flatMap_cons

theorem length_bytes (cs : List Char) : (bytes cs).length = byteLength cs := by
  induction cs with
  | nil => rfl
  | cons c cs ih =>
    rw [bytes_cons, List.length_append, String.length_utf8EncodeChar, ih, byteLength_cons]

theorem toList_data_toUTF8 (text : String) : text.toUTF8.data.toList = bytes text.toList := by
  rw [String.toUTF8_eq_toByteArray, ← String.utf8Encode_toList, List.utf8Encode,
    List.data_toByteArray]
  rfl

/-- A byte belongs to the character that its offset lies in. -/
theorem exists_of_getElem?_bytes (h : (bytes cs)[n]? = some byte) :
    ∃ before c after, cs = before ++ c :: after ∧ byteLength before ≤ n ∧
      n < byteLength before + c.utf8Size ∧
      (String.utf8EncodeChar c)[n - byteLength before]? = some byte := by
  induction cs generalizing n with
  | nil => cases h
  | cons c cs ih =>
    rw [bytes_cons] at h
    by_cases hn : n < c.utf8Size
    · rw [List.getElem?_append_left (by rwa [String.length_utf8EncodeChar])] at h
      exact ⟨[], c, cs, rfl, Nat.zero_le n, by rwa [byteLength_nil, Nat.zero_add], h⟩
    · rw [Nat.not_lt] at hn
      rw [List.getElem?_append_right (by rwa [String.length_utf8EncodeChar]),
        String.length_utf8EncodeChar] at h
      obtain ⟨before, d, after, rfl, hle, hlt, hbyte⟩ := ih h
      refine ⟨c :: before, d, after, rfl, ?_, ?_, ?_⟩
      · rw [byteLength_cons]; omega
      · rw [byteLength_cons]; omega
      · rwa [byteLength_cons, ← Nat.sub_sub]

theorem getElem?_bytes_append_cons (before after : List Char) (c : Char) :
    (bytes (before ++ c :: after))[byteLength before]? = (String.utf8EncodeChar c)[0]? := by
  have hpos : 0 < (String.utf8EncodeChar c).length := by
    rw [String.length_utf8EncodeChar]
    exact c.utf8Size_pos
  rw [bytes_append, List.getElem?_append_right (Nat.le_of_eq (length_bytes before)), length_bytes,
    Nat.sub_self, bytes_cons, List.getElem?_append_left hpos]

/-! ## Order -/

/-- Bytes compare as the numbers that they are. -/
theorem map_toNat_lt {s t : List UInt8} : s.map UInt8.toNat < t.map UInt8.toNat ↔ s < t := by
  induction s generalizing t with
  | nil => cases t <;> simp
  | cons a s ih =>
    cases t with
    | nil => simp
    | cons b t =>
      rw [List.map_cons, List.map_cons, List.cons_lt_cons_iff, List.cons_lt_cons_iff, ih,
        UInt8.toNat_inj, UInt8.lt_iff_toNat_lt]

/-- The bytes of a character are its digits to the base 64, with the length of the code added to
the first one. -/
theorem map_toNat_utf8EncodeChar (c : Char) : (String.utf8EncodeChar c).map UInt8.toNat =
    if c.toNat ≤ 127 then [c.toNat]
    else if c.toNat ≤ 2047 then [c.toNat / 64 + 192, c.toNat % 64 + 128]
    else if c.toNat ≤ 65535 then
      [c.toNat / 64 / 64 + 224, c.toNat / 64 % 64 + 128, c.toNat % 64 + 128]
    else [c.toNat / 64 / 64 / 64 + 240, c.toNat / 64 / 64 % 64 + 128, c.toNat / 64 % 64 + 128,
      c.toNat % 64 + 128] := by
  have hmax : c.toNat < 0x110000 := by
    rcases c.valid with h | h
    · exact Nat.lt_trans h (by decide)
    · exact h.2
  have hval : c.val.toNat = c.toNat := rfl
  simp only [String.utf8EncodeChar, hval, apply_ite (List.map UInt8.toNat), List.map_cons,
    List.map_nil, UInt8.toNat_ofNat', Nat.div_div_eq_div_mul, Nat.reduceMul]
  split_ifs <;> simp only [List.cons.injEq, and_true] <;> omega

theorem lt_iff_digits (m n : Nat) :
    m < n ↔ m / 64 < n / 64 ∨ m / 64 = n / 64 ∧ m % 64 < n % 64 := by
  omega

/-- **The code of a smaller character comes first, whatever stands behind.** -/
theorem utf8EncodeChar_append_lt (h : c < d) (s t : List UInt8) :
    String.utf8EncodeChar c ++ s < String.utf8EncodeChar d ++ t := by
  have hlt : c.toNat < d.toNat := h
  have hdigits := (lt_iff_digits _ _).mp hlt
  rw [lt_iff_digits (c.toNat / 64), lt_iff_digits (c.toNat / 64 / 64)] at hdigits
  rw [← map_toNat_lt, List.map_append, List.map_append, map_toNat_utf8EncodeChar,
    map_toNat_utf8EncodeChar]
  split_ifs <;> simp only [List.cons_append, List.nil_append, List.cons_lt_cons_iff] <;> omega

theorem append_lt_append {s t : List UInt8} (code : List UInt8) (h : s < t) :
    code ++ s < code ++ t := by
  induction code with
  | nil => exact h
  | cons byte code ih => exact List.cons_lt_cons_iff.mpr (.inr ⟨rfl, ih⟩)

/-- **The bytes of texts compare as their characters do.** -/
theorem bytes_lt_of_lt (h : cs < ds) : bytes cs < bytes ds := by
  induction cs generalizing ds with
  | nil =>
    cases ds with
    | nil => exact absurd h (List.lt_irrefl [])
    | cons d ds =>
      have hpos : 0 < (bytes (d :: ds)).length := by
        rw [length_bytes, byteLength_cons]
        exact Nat.add_pos_left d.utf8Size_pos _
      obtain ⟨byte, rest, hbytes⟩ := List.exists_cons_of_length_pos hpos
      rw [hbytes]
      exact List.nil_lt_cons byte rest
  | cons c cs ih =>
    cases ds with
    | nil => exact absurd h (List.not_lt_nil _)
    | cons d ds =>
      rw [bytes_cons, bytes_cons]
      rcases List.cons_lt_cons_iff.mp h with hhead | ⟨rfl, htail⟩
      · exact utf8EncodeChar_append_lt hhead _ _
      · exact append_lt_append _ (ih htail)

end Stencil.Text
