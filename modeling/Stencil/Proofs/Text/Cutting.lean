import Mathlib.Data.List.TakeWhile
import Stencil.Text.Blank
import Stencil.Text.Search

/-!
# Cutting what was joined

A text that was put together from parts is cut into the same parts again, provided that nothing
inside a part looks like the place to cut. For a delimiter whose last character stands only at its
end it is enough that the part does not hold the delimiter: the two cannot overlap
(`splitFirst?_append`).
-/

namespace Stencil.Text

variable {p : Char → Bool} {c x : Char} {cs needle part rest word : List Char}

/-! ## Words -/

/-- Characters of different kinds are different. -/
theorem ne_of_kind {q : Char → Bool} (hc : q c = true) (hx : q x = false) : c ≠ x := by
  rintro rfl
  exact Bool.false_ne_true (hx.symm.trans hc)

/-- A word ends at the first character that is not of its kind. -/
theorem takeWhile_append_cons (h : ∀ c ∈ word, p c) (hx : p x = false) :
    (word ++ x :: rest).takeWhile p = word := by
  rw [List.takeWhile_append_of_pos h, List.takeWhile_cons_of_neg (Bool.not_eq_true _ ▸ hx),
    List.append_nil]

theorem dropWhile_append_cons (h : ∀ c ∈ word, p c) (hx : p x = false) :
    (word ++ x :: rest).dropWhile p = x :: rest := by
  rw [List.dropWhile_append_of_pos h, List.dropWhile_cons_of_neg (Bool.not_eq_true _ ▸ hx)]

/-- Where a word ends shows in the text. -/
theorem append_cons_inj {x' : Char} {word' rest' : List Char} (h : ∀ c ∈ word, p c)
    (h' : ∀ c ∈ word', p c) (hx : p x = false) (hx' : p x' = false)
    (he : word ++ x :: rest = word' ++ x' :: rest') : word = word' ∧ rest = rest' := by
  have hword := congrArg (List.takeWhile p) he
  have hrest := congrArg (List.dropWhile p) he
  rw [takeWhile_append_cons h hx, takeWhile_append_cons h' hx'] at hword
  rw [dropWhile_append_cons h hx, dropWhile_append_cons h' hx'] at hrest
  exact ⟨hword, (List.cons.inj hrest).2⟩

/-! ## Delimiters -/

theorem startsWith_iff : startsWith needle cs ↔ needle <+: cs := by
  rw [startsWith, Option.isSome_iff_exists]
  refine exists_congr ?_
  intro rest
  rw [dropStem?_eq_some_iff, eq_comm]

theorem occursIn_append (hn : startsWith needle cs) : occursIn needle cs := by
  cases cs with
  | nil =>
    obtain ⟨rest, hrest⟩ := startsWith_iff.mp hn
    rw [occursIn, (List.append_eq_nil_iff.mp hrest).1]
    rfl
  | cons c cs => rw [occursIn, hn, Bool.true_or]

/-- A text holds what is a part of it. -/
theorem occursIn_iff : occursIn needle cs ↔ needle <:+: cs := by
  induction cs with
  | nil => rw [occursIn, List.isEmpty_iff, List.infix_nil]
  | cons c cs ih => rw [occursIn, Bool.or_eq_true, startsWith_iff, ih, List.infix_cons_iff]

theorem contains_self (s : String) : contains s s := occursIn_iff.mpr List.infix_rfl

/-- What a text holds stays in it when something is written in front of it. -/
theorem contains_append_left {s piece : String} (h : contains s piece) (front : String) :
    contains (front ++ s) piece := by
  rw [contains, String.toList_append, occursIn_iff]
  exact (occursIn_iff.mp h).trans (List.suffix_append _ _).isInfix

theorem contains_append_right {s piece : String} (h : contains s piece) (behind : String) :
    contains (s ++ behind) piece := by
  rw [contains, String.toList_append, occursIn_iff]
  exact (occursIn_iff.mp h).trans (List.prefix_append _ _).isInfix

/-- What starts with another character does not start with the delimiter. -/
theorem occursIn_cons_of_ne {d : Char} (h : d ≠ c) :
    occursIn (d :: needle) (c :: cs) = occursIn (d :: needle) cs := by
  rw [occursIn, startsWith, dropStem?, if_neg h, Option.isSome_none, Bool.false_or]

theorem occursIn_append_of_not_mem {d : Char} (h : d ∉ word) :
    occursIn (d :: needle) (word ++ cs) = occursIn (d :: needle) cs := by
  induction word with
  | nil => rfl
  | cons c word ih =>
    rw [List.mem_cons, not_or] at h
    rw [List.cons_append, occursIn_cons_of_ne h.1, ih h.2]

/-- What a character that the delimiter does not hold keeps apart does not make up the delimiter. -/
theorem infix_append_cons_iff (hx : x ∉ needle) :
    needle <:+: part ++ x :: rest ↔ needle <:+: part ∨ needle <:+: rest := by
  constructor
  · intro h
    rcases List.infix_append_iff.mp h with h | h | ⟨left, right, rfl, hleft, hright⟩
    · exact .inl h
    · rcases List.infix_cons_iff.mp h with h | h
      · rcases List.prefix_cons_iff.mp h with rfl | ⟨tail, rfl, -⟩
        · exact .inl List.nil_infix
        · exact absurd List.mem_cons_self hx
      · exact .inr h
    · rcases List.prefix_cons_iff.mp hright with rfl | ⟨tail, rfl, -⟩
      · rw [List.append_nil]
        exact .inl hleft.isInfix
      · exact absurd (List.mem_append_right _ List.mem_cons_self) hx
  · rintro (h | h)
    · exact h.trans (List.prefix_append _ _).isInfix
    · exact h.trans ((List.suffix_cons x rest).trans (List.suffix_append _ _)).isInfix

/-- A delimiter behind a part does not begin inside the part. -/
theorem not_startsWith_of_part (hx : x ∉ needle) (hc : occursIn (needle ++ [x]) (c :: part) = false) :
    startsWith (needle ++ [x]) (c :: part ++ (needle ++ x :: rest)) = false := by
  rw [Bool.eq_false_iff]
  intro hstart
  obtain ⟨rest', he⟩ := startsWith_iff.mp hstart
  have hpart : startsWith (needle ++ [x]) (c :: part) = false := by
    rw [Bool.eq_false_iff]
    exact fun h => Bool.false_ne_true (hc.symm.trans (occursIn_append h))
  -- Where the delimiter would begin inside the part, it either sticks out of it or lies in it.
  rcases List.append_eq_append_iff.mp he.symm with ⟨l, hneedle, hl⟩ | ⟨l, hl, -⟩
  · -- The delimiter sticks out of the part, so its last character is inside the other one.
    rcases List.eq_nil_or_concat l with rfl | ⟨l, y, rfl⟩
    · rw [List.append_nil] at hneedle
      rw [← hneedle, startsWith, dropStem?_eq_some_iff.mpr (List.append_nil _).symm] at hpart
      cases hpart
    · rw [List.concat_eq_append, ← List.append_assoc] at hneedle
      obtain ⟨hstem, hy⟩ := List.append_inj' hneedle rfl
      obtain rfl := (List.cons.inj hy).1
      have hlt : l.length < needle.length := by
        rw [hstem, List.length_append, List.length_cons]
        omega
      have hget := congrArg (·[l.length]?) hl
      simp only [List.concat_eq_append, List.append_assoc, List.getElem?_append_left hlt,
        List.getElem?_append_right (Nat.le_refl _), Nat.sub_self] at hget
      exact hx (List.mem_of_getElem? hget)
  · rw [startsWith, dropStem?_eq_some_iff.mpr hl] at hpart
    cases hpart

/-- **A part without the delimiter is cut off at the delimiter behind it.** -/
theorem splitFirst?_append (needle : List Char) (hx : x ∉ needle)
    (hpart : occursIn (needle ++ [x]) part = false) :
    splitFirst? (needle ++ [x]) (part ++ (needle ++ x :: rest)) = some (part, rest) := by
  induction part with
  | nil =>
    have hstem : dropStem? (needle ++ [x]) (needle ++ x :: rest) = some rest :=
      dropStem?_eq_some_iff.mpr (List.append_cons needle x rest)
    -- The delimiter is not empty, so there is a first character to try.
    rw [List.nil_append]
    cases hcs : needle ++ x :: rest with
    | nil => exact absurd hcs (List.append_ne_nil_of_right_ne_nil _ (List.cons_ne_nil _ _))
    | cons d ds => rw [splitFirst?, ← hcs, hstem]
  | cons c part ih =>
    have hnot : startsWith (needle ++ [x]) (c :: part ++ (needle ++ x :: rest)) = false :=
      not_startsWith_of_part hx hpart
    rw [startsWith, Option.isSome_eq_false_iff, Option.isNone_iff_eq_none] at hnot
    rw [occursIn, Bool.or_eq_false_iff] at hpart
    rw [List.cons_append, splitFirst?]
    rw [List.cons_append] at hnot
    rw [hnot, ih hpart.2]
    rfl

/-- What stands before the first delimiter does not hold one. -/
theorem occursIn_of_splitFirst? {before : List Char} (hne : needle ≠ [])
    (h : splitFirst? needle cs = some (before, rest)) : occursIn needle before = false := by
  have hempty : occursIn needle [] = false := List.isEmpty_eq_false_iff.mpr hne
  induction cs generalizing before rest with
  | nil =>
    rw [splitFirst?, if_neg (by simpa using hne)] at h
    cases h
  | cons c cs ih =>
    have hcs := eq_append_of_splitFirst? h
    rw [splitFirst?] at h
    split at h
    · obtain ⟨rfl, rfl⟩ := Prod.mk.inj (Option.some.inj h)
      exact hempty
    · next hnone =>
      obtain ⟨⟨front, behind⟩, hsplit, he⟩ := Option.map_eq_some_iff.mp h
      obtain ⟨rfl, rfl⟩ := Prod.mk.inj he
      rw [occursIn, ih hsplit, Bool.or_false, Bool.eq_false_iff]
      intro hstart
      -- A delimiter at the start of the part would stand at the start of the text.
      have hprefix : needle <+: c :: cs := by
        rw [hcs, List.append_assoc]
        exact (startsWith_iff.mp hstart).trans (List.prefix_append _ _)
      have hsome := startsWith_iff.mpr hprefix
      rw [startsWith, hnone] at hsome
      cases hsome

theorem occursIn_of_splitFirst?_eq_none (h : splitFirst? needle cs = none) :
    occursIn needle cs = false := by
  induction cs with
  | nil =>
    rw [splitFirst?] at h
    rw [occursIn]
    split at h
    · cases h
    · next hempty => exact Bool.eq_false_iff.mpr hempty
  | cons c cs ih =>
    rw [splitFirst?] at h
    split at h
    · cases h
    · next hstem =>
      rw [occursIn, startsWith, hstem, ih (Option.map_eq_none_iff.mp h)]
      rfl

/-! ## What is left -/

theorem suffix_of_dropWhile_eq_cons (h : cs.dropWhile p = c :: rest) : rest <:+ cs :=
  (List.suffix_cons c rest).trans (h ▸ List.dropWhile_suffix p)

theorem suffix_of_dropStem? {stem : List Char} (h : dropStem? stem cs = some rest) :
    rest <:+ cs :=
  ⟨stem, (dropStem?_eq_some_iff.mp h).symm⟩

theorem suffix_of_splitFirst? {before : List Char}
    (h : splitFirst? needle cs = some (before, rest)) : rest <:+ cs :=
  ⟨before ++ needle, (eq_append_of_splitFirst? h).symm⟩

theorem dropTail?_eq_some_iff {tail stem : List Char} :
    dropTail? tail cs = some stem ↔ cs = stem ++ tail := by
  rw [dropTail?, Option.map_eq_some_iff]
  constructor
  · rintro ⟨reversed, h, rfl⟩
    rw [dropStem?_eq_some_iff] at h
    rw [← List.reverse_reverse cs, h, List.reverse_append, List.reverse_reverse]
  · rintro rfl
    refine ⟨stem.reverse, ?_, List.reverse_reverse stem⟩
    rw [dropStem?_eq_some_iff, List.reverse_append]

theorem afterStem?_eq_some_iff {s stem rest : String} :
    afterStem? s stem = some rest ↔ s = stem ++ rest := by
  rw [afterStem?, Option.map_eq_some_iff, ← String.toList_inj, String.toList_append]
  simp only [dropStem?_eq_some_iff]
  constructor
  · rintro ⟨cs, hcs, rfl⟩
    rw [hcs, String.toList_ofList]
  · intro h
    exact ⟨rest.toList, h, String.ofList_toList⟩

theorem beforeTail?_eq_some_iff {s tail stem : String} :
    beforeTail? s tail = some stem ↔ s = stem ++ tail := by
  rw [beforeTail?, Option.map_eq_some_iff, ← String.toList_inj, String.toList_append]
  simp only [dropTail?_eq_some_iff]
  constructor
  · rintro ⟨cs, hcs, rfl⟩
    rw [hcs, String.toList_ofList]
  · intro h
    exact ⟨stem.toList, h, String.ofList_toList⟩

/-! ## Trimming -/

theorem length_dropWhileEnd_le (p : Char → Bool) (cs : List Char) :
    (dropWhileEnd p cs).length ≤ cs.length := by
  rw [dropWhileEnd, List.length_reverse]
  exact (List.dropWhile_sublist p).length_le.trans_eq List.length_reverse

theorem dropWhileEnd_append_of_forall (h : ∀ c ∈ word, p c = true) (cs : List Char) :
    dropWhileEnd p (cs ++ word) = dropWhileEnd p cs := by
  rw [dropWhileEnd, List.reverse_append,
    List.dropWhile_append_of_pos fun c hc => h c (List.mem_reverse.mp hc), dropWhileEnd]

theorem dropWhileEnd_append_cons (hc : p c = false) (cs rest : List Char) :
    dropWhileEnd p (cs ++ c :: rest) = cs ++ c :: dropWhileEnd p rest := by
  have hneg : ¬ p c = true := Bool.not_eq_true _ ▸ hc
  rw [dropWhileEnd, List.reverse_append, List.reverse_cons, List.append_assoc,
    List.singleton_append, List.dropWhile_append]
  split
  · next h =>
    rw [List.isEmpty_iff] at h
    rw [List.dropWhile_cons_of_neg hneg, List.reverse_cons, List.reverse_reverse, dropWhileEnd, h,
      List.reverse_nil]
  · rw [List.reverse_append, List.reverse_cons, List.reverse_reverse, dropWhileEnd,
      List.append_assoc, List.singleton_append]

theorem dropWhileEnd_of_getLast? (h : ∀ c ∈ cs.getLast?, p c = false) :
    dropWhileEnd p cs = cs := by
  rcases List.eq_nil_or_concat cs with rfl | ⟨front, c, rfl⟩
  · rfl
  · have hc : p c = false := h c (by simp)
    rw [List.concat_eq_append, dropWhileEnd_append_cons hc]
    rfl

/-- A trimmed text does not start with a blank. -/
theorem dropWhile_of_trim (h : trim cs = cs) : cs.dropWhile isBlank = cs := by
  have hstart : (trim cs).length ≤ (cs.dropWhile isBlank).length := length_dropWhileEnd_le _ _
  rw [h] at hstart
  exact (List.dropWhile_sublist isBlank).eq_of_length_le hstart

/-- Between two characters that are no blanks nothing is dropped. -/
theorem trim_cons_append_cons {d : Char} (hc : isBlank c = false) (hd : isBlank d = false)
    (cs ds : List Char) : trim (c :: cs ++ d :: ds) = c :: cs ++ d :: trimEnd ds := by
  rw [trim, trimStart, List.cons_append, List.dropWhile_cons_of_neg (Bool.not_eq_true _ ▸ hc),
    trimEnd, ← List.cons_append, dropWhileEnd_append_cons hd]
  rfl

theorem isBlank_head_of_trim (h : trim (c :: cs) = c :: cs) : isBlank c = false := by
  have hhead := List.head?_dropWhile_not isBlank (c :: cs)
  rwa [dropWhile_of_trim h] at hhead

/-- A text that starts with a trimmed word and ends with a trimmed text is trimmed. -/
theorem trim_append_cons {d : Char} {ds : List Char} (hc : isBlank c = false)
    (hd : trim (d :: ds) = d :: ds) : trim (c :: cs ++ d :: ds) = c :: cs ++ d :: ds := by
  have hblank := isBlank_head_of_trim hd
  rw [trim, trimStart, dropWhile_of_trim hd, trimEnd, ← List.nil_append (d :: ds),
    dropWhileEnd_append_cons hblank] at hd
  rw [trim_cons_append_cons hc hblank, trimEnd, (List.cons.inj hd).2]

/-- A word without blanks is trimmed. -/
theorem trim_of_forall (h : ∀ c ∈ cs, isBlank c = false) : trim cs = cs := by
  have hdrop : ∀ l : List Char, (∀ c ∈ l, isBlank c = false) → l.dropWhile isBlank = l := by
    intro l hl
    cases l with
    | nil => rfl
    | cons c l =>
      exact List.dropWhile_cons_of_neg (Bool.not_eq_true _ ▸ hl c List.mem_cons_self)
  rw [trim, trimStart, hdrop cs h, trimEnd, dropWhileEnd,
    hdrop _ fun c hc => h c (List.mem_reverse.mp hc), List.reverse_reverse]

theorem trim_cons_of_isBlank (hc : isBlank c = true) : trim (c :: cs) = trim cs := by
  rw [trim, trim, trimStart, List.dropWhile_cons_of_pos hc]
  rfl

/-- Blanks at the start and at the end can be dropped in either order. -/
theorem trimStart_trimEnd (cs : List Char) : trimStart (trimEnd cs) = trim cs := by
  obtain ⟨front, hfront, hcs⟩ :
      ∃ front : List Char, (∀ c ∈ front, isBlank c = true) ∧ cs = front ++ trimStart cs :=
    ⟨cs.takeWhile isBlank, fun c hc => List.mem_takeWhile_imp hc,
      List.takeWhile_append_dropWhile.symm⟩
  rw [trim]
  cases hrest : trimStart cs with
  | nil =>
    rw [hcs, hrest, List.append_nil, trimEnd, ← List.nil_append front,
      dropWhileEnd_append_of_forall hfront]
    rfl
  | cons c rest =>
    have hc : isBlank c = false := by
      have := List.head?_dropWhile_not isBlank cs
      rw [show cs.dropWhile isBlank = c :: rest from hrest] at this
      exact this
    have hneg : ¬ isBlank c = true := Bool.not_eq_true _ ▸ hc
    rw [hcs, hrest, trimEnd, dropWhileEnd_append_cons hc, trimStart,
      List.dropWhile_append_of_pos hfront, List.dropWhile_cons_of_neg hneg, trimEnd,
      ← List.nil_append (c :: rest), dropWhileEnd_append_cons hc]
    rfl

theorem trim_append_of_forall (h : ∀ c ∈ word, isBlank c = true) (cs : List Char) :
    trim (cs ++ word) = trim cs := by
  rw [← trimStart_trimEnd, trimEnd, dropWhileEnd_append_of_forall h, ← trimStart_trimEnd]
  rfl

theorem trim_of_forall_append (h : ∀ c ∈ word, isBlank c = true) (cs : List Char) :
    trim (word ++ cs) = trim cs := by
  rw [trim, trimStart, List.dropWhile_append_of_pos h]
  rfl

theorem trim_trimEnd (cs : List Char) : trim (trimEnd cs) = trim cs := by
  obtain ⟨blanks, hblanks, hcs⟩ :
      ∃ blanks : List Char, (∀ c ∈ blanks, isBlank c = true) ∧ cs = trimEnd cs ++ blanks := by
    refine ⟨(cs.reverse.takeWhile isBlank).reverse, fun c hc => ?_, ?_⟩
    · exact List.mem_takeWhile_imp (List.mem_reverse.mp hc)
    · rw [trimEnd, dropWhileEnd, ← List.reverse_append, List.takeWhile_append_dropWhile,
        List.reverse_reverse]
  rw [← trim_append_of_forall hblanks (trimEnd cs), ← hcs]

theorem trim_trim (cs : List Char) : trim (trim cs) = trim cs := by
  have hblanks : ∀ c ∈ cs.takeWhile isBlank, isBlank c = true :=
    fun c hc => List.mem_takeWhile_imp hc
  have hstart : trim (trimStart cs) = trim cs := by
    rw [← trim_of_forall_append hblanks, trimStart, List.takeWhile_append_dropWhile]
  exact (trim_trimEnd (trimStart cs)).trans hstart

/-- Nothing is left of blanks alone. -/
theorem trim_eq_nil_iff : trim cs = [] ↔ ∀ c ∈ cs, isBlank c = true := by
  rw [← List.dropWhile_eq_nil_iff]
  constructor
  · intro h
    have hhead := List.head?_dropWhile_not isBlank cs
    cases hrest : cs.dropWhile isBlank with
    | nil => rfl
    | cons c rest =>
      rw [hrest] at hhead
      rw [trim, trimStart, hrest, trimEnd, ← List.nil_append (c :: rest),
        dropWhileEnd_append_cons hhead] at h
      cases h
  · intro h
    rw [trim, trimStart, h]
    rfl

/-- A front part of a trimmed text stays one when it is trimmed. -/
theorem trim_prefix_of_trim (hline : trim cs = cs) (h : word <+: cs) : trim word <+: cs := by
  cases word with
  | nil => exact h
  | cons c word =>
    obtain ⟨rest, rfl⟩ := h
    have hc : isBlank c = false := isBlank_head_of_trim hline
    have hend : trim (c :: word) <+: c :: word := by
      rw [trim, trimStart, List.dropWhile_cons_of_neg (Bool.not_eq_true _ ▸ hc), trimEnd,
        dropWhileEnd, ← List.reverse_suffix, List.reverse_reverse]
      exact List.dropWhile_suffix isBlank
    exact hend.trans (List.prefix_append _ _)

theorem trimmed_ofList (h : trim cs = cs) : trimmed (String.ofList cs) = String.ofList cs := by
  rw [trimmed, String.toList_ofList, h]

theorem trim_toList {s : String} (h : trimmed s = s) : trim s.toList = s.toList := by
  have hlist := congrArg String.toList h
  rwa [trimmed, String.toList_ofList] at hlist

end Stencil.Text
