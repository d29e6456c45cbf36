import Mathlib.Data.List.Basic
import Stencil.Proofs.Text.Cutting
import Stencil.Report.Excerpt

/-!
# The place that a warning names

A warning names the row and the column in which its label starts (`Locates`), and no other place
(`locates_unique`). It names one exactly if the label starts and ends in the text. If only line
feeds end rows, the row of a place is the number of line feeds before it and the column is the
number of characters behind the last of them (`placeAt?_append`); different places have different
rows or columns (`placeAt?_inj`).
-/

namespace Stencil.Report

variable {before after cs row : List Char} {contents earlier later : List (List Char)} {c : Char}
  {source report title filename : String} {line column line' column' j k n : Nat}

/-! ## Rows of a text -/

theorem splitRows_feed (cs : List Char) : splitRows ('\n' :: cs) = ['\n'] :: splitRows cs := by
  rw [splitRows]
  · exact if_pos rfl
  · intro _ h
    cases h

theorem splitRows_cons (hc : breaksRow c = false) (cs : List Char) : splitRows (c :: cs) =
    match splitRows cs with
    | row :: rest => (c :: row) :: rest
    | [] => [[c]] := by
  rw [splitRows]
  · exact if_neg (Bool.not_eq_true _ ▸ hc)
  · rintro _ rfl
    cases hc

theorem flatten_splitRows (cs : List Char) : (splitRows cs).flatten = cs := by
  fun_induction splitRows cs with
  | case1 => rfl
  | case2 cs ih => rw [List.flatten_cons, ih]; rfl
  | case3 c cs _ _ ih => rw [List.flatten_cons, ih]; rfl
  | case4 c cs _ _ row rest hrows ih =>
    rw [hrows, List.flatten_cons] at ih
    rw [List.flatten_cons, List.cons_append, ih]
  | case5 c cs _ _ hrows ih =>
    rw [hrows] at ih
    rw [← ih]
    rfl

/-- Only line feeds end rows. -/
def FeedsOnly (cs : List Char) : Prop := ∀ c ∈ cs, breaksRow c = true → c = '\n'

theorem ne_nil_of_mem_splitRows (h : row ∈ splitRows cs) : row ≠ [] := by
  fun_induction splitRows cs with
  | case1 => cases h
  | case2 cs ih =>
    rcases List.mem_cons.mp h with rfl | h
    · exact List.cons_ne_nil _ _
    · exact ih h
  | case3 c cs _ _ ih =>
    rcases List.mem_cons.mp h with rfl | h
    · exact List.cons_ne_nil _ _
    · exact ih h
  | case4 c cs _ _ first rest hrows ih =>
    rcases List.mem_cons.mp h with rfl | h
    · exact List.cons_ne_nil _ _
    · exact ih (hrows ▸ List.mem_cons_of_mem _ h)
  | case5 c cs _ _ hrows ih =>
    rw [List.mem_singleton.mp h]
    exact List.cons_ne_nil _ _

/-- A place in a text is not behind the line feed that ends it. -/
def Inside (before after : List Char) : Prop := after ≠ [] ∨ ∃ c ∈ before.getLast?, c ≠ '\n'

theorem Inside.tail (h : Inside (c :: before) after) (hne : before ++ after ≠ []) :
    Inside before after := by
  cases before with
  | nil => exact .inl hne
  | cons d before => rwa [Inside, List.getLast?_cons_cons] at h

/-- The rows of a text, cut at a place: those before it each end in their only line feed, and the
one that it is in has none in front of it. -/
theorem exists_row_of_append (hfeeds : FeedsOnly (before ++ after)) (h : Inside before after) :
    ∃ earlier front rest later, splitRows (before ++ after) = earlier ++ (front ++ rest) :: later ∧
      before = earlier.flatten ++ front ∧ '\n' ∉ front ∧ (rest = [] → later = []) ∧
      ∀ row ∈ earlier, ∃ body, row = body ++ ['\n'] ∧ '\n' ∉ body := by
  induction before with
  | nil =>
    have hafter : after ≠ [] := h.resolve_right fun ⟨_, hc, _⟩ => nomatch hc
    cases hrows : splitRows after with
    | nil =>
      have hnil := flatten_splitRows after
      rw [hrows] at hnil
      exact absurd hnil.symm hafter
    | cons row later =>
      have hrow : row ≠ [] := ne_nil_of_mem_splitRows (hrows ▸ List.mem_cons_self)
      exact ⟨[], [], row, later, hrows, rfl, List.not_mem_nil, fun h => absurd h hrow,
        fun _ h => nomatch h⟩
  | cons c before ih =>
    obtain ⟨hbreaks, hothers⟩ := List.forall_mem_cons.mp hfeeds
    by_cases hnil : before ++ after = []
    · -- the place is behind the only character, which is no line feed
      obtain ⟨rfl, rfl⟩ := List.append_eq_nil_iff.mp hnil
      obtain ⟨d, hd, hne⟩ := h.resolve_left fun h => h rfl
      obtain rfl := Option.some.inj hd
      have hc : breaksRow c = false := Bool.eq_false_iff.mpr fun hc => hne (hbreaks hc)
      refine ⟨[], [c], [], [], splitRows_cons hc [], rfl, ?_, fun _ => rfl, fun _ h => nomatch h⟩
      exact fun h => hne (List.mem_singleton.mp h).symm
    obtain ⟨earlier, front, rest, later, hrows, rfl, hfront, hrest, hearlier⟩ :=
      ih hothers (h.tail hnil)
    rw [List.cons_append]
    by_cases hc : c = '\n'
    · subst hc
      refine ⟨['\n'] :: earlier, front, rest, later, ?_, rfl, hfront, hrest, ?_⟩
      · rw [splitRows_feed, hrows]
        rfl
      · exact List.forall_mem_cons.mpr ⟨⟨[], rfl, List.not_mem_nil⟩, hearlier⟩
    · have hbreak : breaksRow c = false := Bool.eq_false_iff.mpr fun h => hc (hbreaks h)
      rw [splitRows_cons hbreak, hrows]
      -- The character belongs to the first row, which is a full one or the one that is cut.
      cases earlier with
      | nil =>
        refine ⟨[], c :: front, rest, later, rfl, rfl, ?_, hrest, hearlier⟩
        exact List.not_mem_cons_of_ne_of_not_mem (Ne.symm hc) hfront
      | cons row earlier =>
        obtain ⟨⟨body, rfl, hbody⟩, hfull⟩ := List.forall_mem_cons.mp hearlier
        refine ⟨(c :: body ++ ['\n']) :: earlier, front, rest, later, rfl, rfl, hfront, hrest, ?_⟩
        refine List.forall_mem_cons.mpr ⟨⟨c :: body, rfl, ?_⟩, hfull⟩
        exact List.not_mem_cons_of_ne_of_not_mem (Ne.symm hc) hbody

/-! ## Lines and columns -/

/-- The line, counted from one, of the place behind a text. -/
def lineNumber (before : List Char) : Nat := before.count '\n' + 1

/-- The column, counted from one, of the place behind a text. -/
def columnNumber (before : List Char) : Nat := (before.reverse.takeWhile (· != '\n')).length + 1

/-- Behind rows that each end in their only line feed, their number is that of the line feeds, and
the last line starts with what follows them. -/
theorem lineNumber_append {front : List Char} (hfront : '\n' ∉ front)
    (hearlier : ∀ row ∈ earlier, ∃ body, row = body ++ ['\n'] ∧ '\n' ∉ body) :
    lineNumber (earlier.flatten ++ front) = earlier.length + 1 ∧
      columnNumber (earlier.flatten ++ front) = front.length + 1 := by
  constructor
  · rw [lineNumber, List.count_append, List.count_eq_zero.mpr hfront, Nat.add_zero]
    congr 1
    induction earlier with
    | nil => rfl
    | cons row earlier ih =>
      obtain ⟨⟨body, rfl, hbody⟩, hfull⟩ := List.forall_mem_cons.mp hearlier
      rw [List.flatten_cons, List.count_append, List.count_append, List.count_eq_zero.mpr hbody,
        ih hfull, List.length_cons, List.count_singleton_self]
      omega
  · have hkept : ∀ c ∈ front.reverse, (c != '\n') = true := by
      intro c hc
      rw [bne_iff_ne]
      rintro rfl
      exact hfront (List.mem_reverse.mp hc)
    rw [columnNumber, List.reverse_append, List.takeWhile_append_of_pos hkept, List.length_append,
      List.length_reverse]
    rcases List.eq_nil_or_concat' earlier with rfl | ⟨others, row, rfl⟩
    · rfl
    · obtain ⟨body, rfl, -⟩ := hearlier row (by simp)
      simp

/-! ## Rows with their offsets -/

theorem placeRows_append (n : Nat) (contents more : List (List Char)) :
    placeRows n (contents ++ more) =
      placeRows n contents ++ placeRows (n + contents.flatten.length) more := by
  induction contents generalizing n with
  | nil => rfl
  | cons row contents ih =>
    rw [List.cons_append, placeRows, ih, placeRows, List.flatten_cons, List.length_append,
      Nat.add_assoc]
    rfl

theorem length_placeRows (n : Nat) (contents : List (List Char)) :
    (placeRows n contents).length = contents.length := by
  induction contents generalizing n with
  | nil => rfl
  | cons row contents ih => rw [placeRows, List.length_cons, ih, List.length_cons]

theorem offset_le_of_mem_placeRows {r : Row} (h : r ∈ placeRows n contents) :
    r.offset ≤ n + contents.flatten.length := by
  induction contents generalizing n with
  | nil => cases h
  | cons row contents ih =>
    rw [List.flatten_cons, List.length_append]
    rcases List.mem_cons.mp h with rfl | h
    · exact Nat.le_add_right _ _
    · exact Nat.add_assoc .. ▸ ih h

/-- The rows of a text; only the empty one has a row without characters. -/
theorem exists_rowsOf (source : String) : ∃ contents ≠ [], rowsOf source = placeRows 0 contents ∧
    contents.flatten = source.toList ∧
    (source.toList ≠ [] → contents = splitRows source.toList) := by
  have hflatten := flatten_splitRows source.toList
  unfold rowsOf
  split
  · next hrows =>
    rw [hrows] at hflatten
    exact ⟨[[]], List.cons_ne_nil _ _, rfl, hflatten, fun h => absurd hflatten.symm h⟩
  · next hrows => exact ⟨_, hrows, rfl, hflatten, fun _ => rfl⟩

/-- The last row ends where the text ends. -/
theorem getLast?_placeRows (h : contents ≠ []) :
    (placeRows 0 contents).getLast?.map Row.stop = some contents.flatten.length := by
  obtain ⟨others, row, rfl⟩ := (List.eq_nil_or_concat' contents).resolve_left h
  rw [placeRows_append, placeRows, placeRows, List.getLast?_concat, List.flatten_append]
  simp [Row.stop, Row.length]

/-- **Every place up to the end of the text is in a row.** -/
theorem isSome_rowAt?_iff : (rowAt? (rowsOf source) k).isSome ↔ k ≤ source.length := by
  obtain ⟨contents, hne, hrows, hflatten, -⟩ := exists_rowsOf source
  rw [hrows, rowAt?, getLast?_placeRows hne, hflatten, String.length_toList, Option.any_some]
  split
  · next h => exact iff_of_true rfl (of_decide_eq_true h)
  · next h => exact iff_of_false Bool.false_ne_true fun hk => h (decide_eq_true hk)

/-- The row and the column of a place, both counted from one. -/
def placeAt? (rows : List Row) (k : Nat) : Option (Nat × Nat) :=
  (rowAt? rows k).map fun index => (index + 1, k - ((rows[index]?.map Row.offset).getD 0) + 1)

/-- The last of the first items of a kind. -/
theorem exists_getElem?_takeWhile {α : Type} {p : α → Bool} {xs : List α}
    (h : xs.takeWhile p ≠ []) :
    ∃ x, xs[(xs.takeWhile p).length - 1]? = some x ∧ p x = true := by
  have hlast := List.getLast?_eq_some_getLast h
  refine ⟨(xs.takeWhile p).getLast h, ?_, List.mem_takeWhile_imp (List.getLast_mem h)⟩
  have hlt : (xs.takeWhile p).length - 1 < (xs.takeWhile p).length :=
    Nat.sub_one_lt (List.length_eq_zero_iff.not.mpr h)
  rw [← hlast, List.getLast?_eq_getElem?, List.getElem?_eq_getElem hlt,
    (List.takeWhile_prefix p).getElem hlt]
  exact List.getElem?_eq_getElem _

/-- A place is not before the row that it is in. -/
theorem exists_offset_le_of_rowAt? {index : Nat} (h : rowAt? (rowsOf source) k = some index) :
    ∃ r, (rowsOf source)[index]? = some r ∧ r.offset ≤ k := by
  obtain ⟨contents, hne, hrows, -, -⟩ := exists_rowsOf source
  obtain ⟨content, contents, rfl⟩ := List.exists_cons_of_ne_nil hne
  have hfirst : (rowsOf source).takeWhile (·.offset ≤ k) ≠ [] := by
    rw [hrows, placeRows, List.takeWhile_cons_of_pos (by simp)]
    exact List.cons_ne_nil _ _
  rw [rowAt?] at h
  split at h
  · obtain rfl := Option.some.inj h
    obtain ⟨r, hr, hle⟩ := exists_getElem?_takeWhile hfirst
    exact ⟨r, hr, of_decide_eq_true hle⟩
  · cases h

/-- **Different places have different rows or columns.** -/
theorem placeAt?_inj {place : Nat × Nat} (hj : placeAt? (rowsOf source) j = some place)
    (hk : placeAt? (rowsOf source) k = some place) : j = k := by
  obtain ⟨index, hindex, rfl⟩ := Option.map_eq_some_iff.mp hj
  obtain ⟨index', hindex', heq⟩ := Option.map_eq_some_iff.mp hk
  obtain ⟨hrow, hcolumn⟩ := Prod.mk.inj heq
  obtain rfl := Nat.succ.inj hrow
  obtain ⟨r, hr, hle⟩ := exists_offset_le_of_rowAt? hindex
  obtain ⟨r', hr', hle'⟩ := exists_offset_le_of_rowAt? hindex'
  obtain rfl := Option.some.inj (hr.symm.trans hr')
  rw [hr, Option.map_some, Option.getD_some] at hcolumn
  omega

theorem placeRows_cut (earlier : List (List Char)) (row : List Char) (later : List (List Char)) :
    placeRows 0 (earlier ++ row :: later) = placeRows 0 earlier ++
      ⟨earlier.flatten.length, row⟩ ::
        placeRows (earlier.flatten.length + row.length) later := by
  rw [placeRows_append, Nat.zero_add]
  rfl

section Cut

variable (hlow : earlier.flatten.length ≤ k) (hhigh : k ≤ earlier.flatten.length + row.length)
  (hlater : k = earlier.flatten.length + row.length → later = [])
include hlow hhigh hlater

/-- The row of a place is the last one that does not start behind it. -/
theorem takeWhile_placeRows :
    (placeRows 0 (earlier ++ row :: later)).takeWhile (·.offset ≤ k) =
      placeRows 0 earlier ++ [⟨earlier.flatten.length, row⟩] := by
  have hbehind : (placeRows (earlier.flatten.length + row.length) later).takeWhile
      (·.offset ≤ k) = [] := by
    cases later with
    | nil => rfl
    | cons next later =>
      have hk : k < earlier.flatten.length + row.length :=
        Nat.lt_of_le_of_ne hhigh fun hk => nomatch hlater hk
      exact List.takeWhile_cons_of_neg fun h => Nat.not_le.mpr hk (of_decide_eq_true h)
  rw [placeRows_cut, List.takeWhile_append_of_pos, List.takeWhile_cons,
    if_pos (decide_eq_true hlow), hbehind]
  intro r hr
  have hle := offset_le_of_mem_placeRows hr
  exact decide_eq_true (by omega)

theorem placeAt?_placeRows : placeAt? (placeRows 0 (earlier ++ row :: later)) k =
    some (earlier.length + 1, k - earlier.flatten.length + 1) := by
  have htotal : k ≤ (earlier ++ row :: later).flatten.length := by
    rw [List.flatten_append, List.flatten_cons, List.length_append, List.length_append]
    omega
  have hne : earlier ++ row :: later ≠ [] := by simp
  have hindex : rowAt? (placeRows 0 (earlier ++ row :: later)) k = some earlier.length := by
    rw [rowAt?, getLast?_placeRows hne, Option.any_some, if_pos (decide_eq_true htotal),
      takeWhile_placeRows hlow hhigh hlater, List.length_append, length_placeRows]
    rfl
  have hrow : (placeRows 0 (earlier ++ row :: later))[earlier.length]? =
      some ⟨earlier.flatten.length, row⟩ := by
    rw [placeRows_cut, List.getElem?_append_right (Nat.le_of_eq (length_placeRows ..)),
      length_placeRows, Nat.sub_self]
    rfl
  rw [placeAt?, hindex, Option.map_some, hrow]
  rfl

end Cut

/-- **The row and the column of a place are those of the text before it**, if only line feeds end
rows. -/
theorem placeAt?_append (hsource : source.toList = before ++ after)
    (hfeeds : FeedsOnly source.toList) (h : Inside before after) :
    placeAt? (rowsOf source) before.length = some (lineNumber before, columnNumber before) := by
  obtain ⟨contents, -, hrows, -, hcontents⟩ := exists_rowsOf source
  have hne : source.toList ≠ [] := by
    rw [hsource]
    rcases h with h | ⟨c, hc, -⟩
    · exact List.append_ne_nil_of_right_ne_nil _ h
    · exact List.append_ne_nil_of_left_ne_nil (List.ne_nil_of_mem (List.mem_of_getLast? hc)) _
  obtain ⟨earlier, front, rest, later, hsplit, rfl, hfront, hrest, hearlier⟩ :=
    exists_row_of_append (hsource ▸ hfeeds) h
  obtain ⟨hline, hcolumn⟩ := lineNumber_append hfront hearlier
  rw [hrows, hcontents hne, hsource, hsplit, hline, hcolumn, placeAt?_placeRows]
  · rw [List.length_append, Nat.add_sub_cancel_left]
  · exact List.length_append ▸ Nat.le_add_right _ _
  · simp only [List.length_append]
    omega
  · intro hlength
    simp only [List.length_append] at hlength
    exact hrest (List.length_eq_zero_iff.mp (by omega))

/-! ## What a warning says -/

/-- The line of a warning that names a place; `width` is that of the row numbers. -/
def placeLine (width : Nat) (filename : String) (line column : Nat) : String :=
  blanks (width + 2) ++ Ink.paint .frame "╭" ++ Ink.paint .frame "─" ++ Ink.paint .frame "[" ++
    s!"{filename}:{line}:{column}" ++ Ink.paint .frame "]"

/-- A warning with this title names a place in a file, in its second line. -/
def Locates (report title filename : String) (line column : Nat) : Prop :=
  ∃ width rest, report = Ink.paint .marked "Warning:" ++ " " ++ title ++ "\n" ++
    placeLine width filename line column ++ "\n" ++ rest

/-- A number is written in digits. -/
theorem isDigit_of_mem_toString {c : Char} (h : c ∈ (toString n).toList) : c.isDigit = true := by
  rw [Nat.toString_eq_ofList_toDigits, String.toList_ofList] at h
  exact Nat.isDigit_of_mem_toDigits (by decide) (by decide) h

/-- Different numbers are written differently. -/
theorem eq_of_toList_toString_eq (h : (toString j).toList = (toString k).toList) : j = k := by
  rw [Nat.toString_eq_ofList_toDigits, Nat.toString_eq_ofList_toDigits, String.toList_ofList,
    String.toList_ofList] at h
  rw [← Nat.ofDigitChars_ten_toDigits (n := j), h, Nat.ofDigitChars_ten_toDigits]

theorem exists_toList_paint (ink : Ink) (text : String) :
    ∃ rest, (ink.paint text).toList = '\x1b' :: rest := by
  refine ⟨'[' :: (ink.code ++ "m" ++ text ++ "\x1b[0m").toList, ?_⟩
  simp only [Ink.paint, String.toList_append, List.append_assoc]
  rfl

/-- The place stands behind blanks and a colour, and a colon stands between its numbers. -/
theorem exists_toList_placeLine (filename : String) : ∃ frame closing, ∀ width line column,
    (placeLine width filename line column).toList = List.replicate (width + 2) ' ' ++ '\x1b' ::
      (frame ++ ((toString line).toList ++ ':' ::
        ((toString column).toList ++ '\x1b' :: closing))) := by
  obtain ⟨corner, hcorner⟩ := exists_toList_paint .frame "╭"
  obtain ⟨closing, hclosing⟩ := exists_toList_paint .frame "]"
  refine ⟨corner ++ (Ink.paint .frame "─").toList ++ (Ink.paint .frame "[").toList ++
    filename.toList ++ [':'], closing, ?_⟩
  intro width line column
  have hcolon : (toString ":").toList = [':'] := rfl
  simp only [placeLine, blanks, String.toList_append, String.toList_ofList, hcorner, hclosing,
    hcolon, List.append_assoc, List.cons_append, List.nil_append]
  rfl

/-- **A warning names one place at most.** -/
theorem locates_unique (h : Locates report title filename line column)
    (h' : Locates report title filename line' column') : line = line' ∧ column = column' := by
  obtain ⟨width, rest, rfl⟩ := h
  obtain ⟨width', rest', h⟩ := h'
  obtain ⟨frame, closing, hplace⟩ := exists_toList_placeLine filename
  replace h := congrArg String.toList h
  simp only [String.toList_append, hplace, List.append_assoc, List.cons_append] at h
  simp only [List.append_cancel_left_eq] at h
  have hblank : ∀ count, ∀ c ∈ List.replicate count ' ', (c == ' ') = true := by
    intro count c hc
    rw [List.eq_of_mem_replicate hc]
    rfl
  obtain ⟨-, h⟩ := Text.append_cons_inj (hblank _) (hblank _) (by decide) (by decide) h
  obtain ⟨hline, h⟩ := Text.append_cons_inj (fun _ => isDigit_of_mem_toString)
    (fun _ => isDigit_of_mem_toString) (by decide) (by decide) (List.append_cancel_left h)
  obtain ⟨hcolumn, -⟩ := Text.append_cons_inj (fun _ => isDigit_of_mem_toString)
    (fun _ => isDigit_of_mem_toString) (by decide) (by decide) h
  exact ⟨eq_of_toList_toString_eq hline, eq_of_toList_toString_eq hcolumn⟩

/-- A label has rows if it starts and ends in the text. -/
theorem exists_rows?_iff {l : Label} : (∃ last, l.rows? (rowsOf source) = some (k, last)) ↔
    rowAt? (rowsOf source) l.start = some k ∧ (l.start < l.stop → l.stop ≤ source.length + 1) := by
  have hlast : (rowAt? (rowsOf source) (l.stop - 1)).isSome ↔ l.stop ≤ source.length + 1 := by
    rw [isSome_rowAt?_iff]
    omega
  rw [Label.rows?, ← hlast]
  cases rowAt? (rowsOf source) l.start with
  | none => simp
  | some first =>
    simp only [bind, Option.bind_some]
    split
    · next hempty => simp [Nat.not_lt.mpr hempty]
    · next hfull =>
      cases rowAt? (rowsOf source) (l.stop - 1) <;> simp [Nat.lt_of_not_le hfull]

/-- An excerpt starts with the place where the label starts. -/
theorem exists_excerpt_of_rows? {l : Label} {first last : Nat}
    (h : l.rows? (rowsOf source) = some (first, last)) (filename : String) :
    ∃ width more, excerpt source filename l = placeLine width filename (first + 1)
      (l.start - ((rowsOf source)[first]?.map Row.offset).getD 0 + 1) :: more := by
  rw [excerpt]
  dsimp only
  rw [h]
  exact ⟨_, _, rfl⟩

/-- **A warning names the place where its label starts**, if the label starts and ends in the
text. -/
theorem locates_warning_iff (source filename title : String) (l : Label) :
    Locates (warning source filename title l) title filename line column ↔
      placeAt? (rowsOf source) l.start = some (line, column) ∧
        (l.start < l.stop → l.stop ≤ source.length + 1) := by
  have hnames : ∀ first last, l.rows? (rowsOf source) = some (first, last) →
      Locates (warning source filename title l) title filename (first + 1)
        (l.start - ((rowsOf source)[first]?.map Row.offset).getD 0 + 1) := by
    intro first last h
    obtain ⟨width, more, hexcerpt⟩ := exists_excerpt_of_rows? h filename
    refine ⟨width, String.join (more.map (· ++ "\n")), ?_⟩
    rw [warning, hexcerpt, List.map_cons, List.map_cons, String.join_cons, String.join_cons]
    simp only [String.append_assoc]
  constructor
  · intro h
    cases hrows : l.rows? (rowsOf source) with
    | none =>
      -- There is nothing behind the title.
      obtain ⟨width, rest, h⟩ := h
      rw [warning, excerpt] at h
      dsimp only at h
      rw [hrows] at h
      obtain ⟨frame, closing, hplace⟩ := exists_toList_placeLine filename
      replace h := congrArg (fun s => s.toList.length) h
      simp [hplace] at h
    | some rows =>
      obtain ⟨first, last⟩ := rows
      obtain ⟨hfirst, hlast⟩ := exists_rows?_iff.mp ⟨last, hrows⟩
      obtain ⟨rfl, rfl⟩ := locates_unique h (hnames first last hrows)
      exact ⟨by rw [placeAt?, hfirst]; rfl, hlast⟩
  · rintro ⟨hplace, hlast⟩
    obtain ⟨first, hfirst, heq⟩ := Option.map_eq_some_iff.mp hplace
    obtain ⟨rfl, rfl⟩ := Prod.mk.inj heq
    obtain ⟨last, hrows⟩ := exists_rows?_iff.mpr ⟨hfirst, hlast⟩
    exact hnames first last hrows

end Stencil.Report
