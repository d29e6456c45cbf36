import Mathlib.Data.List.DropRight
import Stencil.Proofs.Script.Kept
import Stencil.Proofs.Script.Positions
import Stencil.Proofs.Text.Cutting

/-!
# Lines without effect

Most lines of a script have no effect on what is rendered. `pruned` makes them blank: it leaves the
alias lines, the first component binding, the line that declares the first loop, the rules in the
body of this loop and its end line. The text above the markup falls into the same lines again, so
what is kept is read as before (`filter_directives_pruned`). Nor does it matter where an alias line
stands, as long as the lines of one alias keep their order, nor how many blank lines there are
(`Rearranged`).
-/

namespace Stencil.Script
open Text

variable {source source' : String} {cs body rest raw content : List Char}
  {raws : List (List Char)} {g : Progress} {name : String}

/-! ## Lines -/

/-- The lines above the markup, each with its line end. -/
def rawLines (source : String) : List (List Char) :=
  splitLines (source.toList.takeWhile (· != '<'))

/-- A line without its end. -/
def contentOf (raw : List Char) : List Char := dropWhileEnd endsLine raw

/-- The end of a line. -/
def endingOf (raw : List Char) : List Char := (raw.reverse.takeWhile endsLine).reverse

/-- The lines above the markup, without their ends. -/
def contents (source : String) : List (List Char) := (rawLines source).map contentOf

/-- The directives of a source, as if each line stood at its start. -/
def directives (source : String) : List Directive := (contents source).map (directiveOf 0)

theorem contentOf_append_endingOf (raw : List Char) : contentOf raw ++ endingOf raw = raw := by
  rw [contentOf, dropWhileEnd, endingOf, ← List.reverse_append, List.takeWhile_append_dropWhile,
    List.reverse_reverse]

theorem endingOf_suffix (raw : List Char) : endingOf raw <:+ raw :=
  ⟨contentOf raw, contentOf_append_endingOf raw⟩

theorem endingOf_concat_newline (body : List Char) :
    endingOf (body ++ ['\n']) = endingOf body ++ ['\n'] := by
  have hends : endsLine '\n' = true := rfl
  rw [endingOf, List.reverse_append, List.reverse_singleton, List.singleton_append,
    List.takeWhile_cons_of_pos hends, List.reverse_cons, endingOf]

/-- A line end has no content. -/
theorem contentOf_endingOf (raw : List Char) : contentOf (endingOf raw) = [] := by
  have hall : ∀ c ∈ raw.reverse.takeWhile endsLine, endsLine c = true :=
    fun c hc => List.mem_takeWhile_imp hc
  rw [contentOf, dropWhileEnd, endingOf, List.reverse_reverse, List.dropWhile_eq_nil_iff.mpr hall,
    List.reverse_nil]

theorem map_bare_readLines (position : Nat) (raws : List (List Char)) :
    ((readLines position raws).map (·.directive)).map (·.bare) =
      (raws.map fun raw => directiveOf 0 (contentOf raw)).map (·.bare) := by
  induction raws generalizing position with
  | nil => rfl
  | cons raw rest ih =>
    rw [readLines, List.map_cons, List.map_cons, List.map_cons, List.map_cons, ih,
      bare_directiveOf]
    rfl

theorem map_bare_directives (source : String) :
    ((read source).lines.map (·.directive)).map (·.bare) = (directives source).map (·.bare) := by
  rw [read, map_bare_readLines, directives, contents, List.map_map, List.map_map, List.map_map]
  rfl

/-- The plan of a script can be read off its directives. -/
theorem plan?_read (source : String) : (read source).plan? = planOf (directives source) := by
  rw [plan?_eq, ← planOf_map_bare, map_bare_directives, planOf_map_bare]

theorem get?_aliases_read (source : String) (name : String) :
    Keyed.get? (read source).aliases name =
      ((directives source).filterMap (·.alias? name)).getLast? := by
  rw [aliases_eq, ← aliasesOf_map_bare, map_bare_directives, aliasesOf_map_bare, get?_aliasesOf]

/-! ## Cutting into lines -/

theorem splitLines_cons {c : Char} (hc : c ≠ '\n') (cs : List Char) :
    splitLines (c :: cs) = (c :: (splitLines cs).headD []) :: (splitLines cs).tail := by
  cases h : splitLines cs <;> simp [splitLines, h]

/-- A line goes on up to its first line feed. -/
theorem splitLines_append (hbody : '\n' ∉ body) (rest : List Char) :
    splitLines (body ++ '\n' :: rest) = (body ++ ['\n']) :: splitLines rest := by
  induction body with
  | nil => rfl
  | cons c body ih =>
    rw [List.mem_cons, not_or] at hbody
    rw [List.cons_append, splitLines_cons (Ne.symm hbody.1), ih hbody.2]
    rfl

theorem splitLines_of_not_mem (hbody : '\n' ∉ body) (hne : body ≠ []) :
    splitLines body = [body] := by
  induction body with
  | nil => exact absurd rfl hne
  | cons c body ih =>
    rw [List.mem_cons, not_or] at hbody
    rw [splitLines_cons (Ne.symm hbody.1)]
    by_cases hnil : body = []
    · subst hnil
      rfl
    · rw [ih hbody.2 hnil]
      rfl

/-- A line feed can only be the last character of a line. -/
theorem not_mem_dropLast_of_mem_splitLines (h : raw ∈ splitLines cs) : '\n' ∉ raw.dropLast := by
  fun_induction splitLines cs generalizing raw with
  | case1 => cases h
  | case2 cs ih =>
    rcases List.mem_cons.mp h with rfl | h
    · exact List.not_mem_nil
    · exact ih h
  | case3 c cs hc line rest hrest ih =>
    rw [hrest] at ih
    rcases List.mem_cons.mp h with rfl | h
    · have hline := ih List.mem_cons_self
      cases line with
      | nil => exact List.not_mem_nil
      | cons c' line =>
        rw [List.dropLast_cons_cons, List.mem_cons, not_or]
        exact ⟨fun he => hc he.symm, hline⟩
    · exact ih (List.mem_cons_of_mem _ h)
  | case4 c cs hc hrest ih =>
    obtain rfl := List.mem_singleton.mp h
    exact List.not_mem_nil

/-- Lines that are joined are cut apart again. An empty one can only be the last one; it is lost. -/
theorem splitLines_flatten (hends : raws.Pairwise fun raw _ => ∃ body, raw = body ++ ['\n'])
    (hone : ∀ raw ∈ raws, '\n' ∉ raw.dropLast) :
    splitLines raws.flatten = raws.filter fun raw => !raw.isEmpty := by
  induction raws with
  | nil => rfl
  | cons raw raws ih =>
    obtain ⟨hraw, hrest⟩ := List.pairwise_cons.mp hends
    obtain ⟨hlast, hones⟩ := List.forall_mem_cons.mp hone
    by_cases hline : ∃ body, raw = body ++ ['\n']
    · obtain ⟨body, rfl⟩ := hline
      rw [List.dropLast_concat] at hlast
      rw [List.flatten_cons, List.append_assoc, List.singleton_append, splitLines_append hlast,
        ih hrest hones, List.filter_cons_of_pos (by simp)]
    · -- only the last line lacks its end
      obtain rfl : raws = [] := List.eq_nil_iff_forall_not_mem.mpr fun next h => hline (hraw next h)
      rw [List.flatten_cons, List.flatten_nil, List.append_nil]
      rcases List.eq_nil_or_concat raw with rfl | ⟨init, c, hconcat⟩
      · rfl
      · rw [List.concat_eq_append] at hconcat
        subst hconcat
        rw [List.dropLast_concat] at hlast
        have hc : c ≠ '\n' := fun h => hline ⟨init, by rw [h]⟩
        rw [splitLines_of_not_mem (by simp [hlast, Ne.symm hc]) (by simp),
          List.filter_cons_of_pos (by simp), List.filter_nil]

/-! ## Blanking -/

/-- The lines with those blanked that have no effect; their line ends stay. -/
def blankFrom (g : Progress) : List (List Char) → List (List Char)
  | [] => []
  | raw :: raws =>
    let d := directiveOf 0 (contentOf raw)
    if g.keeps d then raw :: blankFrom (g.after d) raws else endingOf raw :: blankFrom g raws

/-- The source in which nothing is left above the markup but what has an effect. -/
def pruned (source : String) : String :=
  String.ofList (blankFrom .start (rawLines source)).flatten ++ (read source).skeleton

theorem blankFrom_cons (g : Progress) (raw : List Char) (raws : List (List Char)) :
    ∃ g' line, blankFrom g (raw :: raws) = line :: blankFrom g' raws
      ∧ (line = raw ∨ line = endingOf raw) := by
  rw [blankFrom]
  split
  · exact ⟨_, _, rfl, .inl rfl⟩
  · exact ⟨_, _, rfl, .inr rfl⟩

theorem subset_flatten_blankFrom (g : Progress) (raws : List (List Char)) :
    (blankFrom g raws).flatten ⊆ raws.flatten := by
  induction raws generalizing g with
  | nil => exact List.Subset.refl _
  | cons raw raws ih =>
    obtain ⟨g', line, hcons, hline⟩ := blankFrom_cons g raw raws
    have hsub : line ⊆ raw := by
      rcases hline with rfl | rfl
      · exact List.Subset.refl _
      · exact (endingOf_suffix raw).subset
    rw [hcons, List.flatten_cons, List.flatten_cons]
    exact List.append_subset.mpr ⟨List.subset_append_of_subset_left _ hsub,
      List.subset_append_of_subset_right _ (ih g')⟩

theorem exists_mem_of_mem_blankFrom {line : List Char} (h : line ∈ blankFrom g raws) :
    ∃ raw ∈ raws, line = raw ∨ line = endingOf raw := by
  induction raws generalizing g with
  | nil => cases h
  | cons raw raws ih =>
    obtain ⟨g', first, hcons, hfirst⟩ := blankFrom_cons g raw raws
    rw [hcons] at h
    rcases List.mem_cons.mp h with rfl | h
    · exact ⟨raw, List.mem_cons_self, hfirst⟩
    · obtain ⟨raw', hmem, hline⟩ := ih h
      exact ⟨raw', List.mem_cons_of_mem _ hmem, hline⟩

/-- Blanking keeps the line ends. -/
theorem pairwise_blankFrom (hends : raws.Pairwise fun raw _ => ∃ body, raw = body ++ ['\n']) :
    (blankFrom g raws).Pairwise fun line _ => ∃ body, line = body ++ ['\n'] := by
  induction raws generalizing g with
  | nil => exact .nil
  | cons raw raws ih =>
    obtain ⟨hraw, hends⟩ := List.pairwise_cons.mp hends
    obtain ⟨g', first, hcons, hfirst⟩ := blankFrom_cons g raw raws
    rw [hcons]
    refine .cons (fun line hline => ?_) (ih hends)
    obtain ⟨next, hnext, -⟩ := exists_mem_of_mem_blankFrom hline
    obtain ⟨body, rfl⟩ := hraw next hnext
    rcases hfirst with rfl | rfl
    · exact ⟨body, rfl⟩
    · exact ⟨endingOf body, endingOf_concat_newline body⟩

theorem not_mem_dropLast_of_suffix {c : Char} {s : List Char} (hs : s <:+ raw)
    (h : c ∉ raw.dropLast) : c ∉ s.dropLast := by
  obtain ⟨front, rfl⟩ := hs
  by_cases hnil : s = []
  · subst hnil
    exact List.not_mem_nil
  · rw [List.dropLast_append_of_ne_nil hnil, List.mem_append, not_or] at h
    exact h.2

theorem takeWhile_append_dropWhile_of_all {p : Char → Bool} (hbody : ∀ c ∈ body, p c = true)
    (cs : List Char) : (body ++ cs.dropWhile p).takeWhile p = body ∧
      (body ++ cs.dropWhile p).dropWhile p = cs.dropWhile p := by
  have hnone : (cs.dropWhile p).takeWhile p = [] := by
    induction cs with
    | nil => rfl
    | cons c cs ih =>
      cases hc : p c with
      | true => rw [List.dropWhile_cons_of_pos hc, ih]
      | false =>
        rw [List.dropWhile_cons_of_neg (by simp [hc]), List.takeWhile_cons_of_neg (by simp [hc])]
  rw [List.takeWhile_append_of_pos hbody, List.dropWhile_append_of_pos hbody, hnone,
    List.append_nil, List.dropWhile_idempotent]
  exact ⟨rfl, rfl⟩

/-- The pruned source falls into the pruned lines, and the skeleton stays. -/
theorem rawLines_pruned (source : String) :
    rawLines (pruned source) =
        (blankFrom .start (rawLines source)).filter (fun raw => !raw.isEmpty) ∧
      (read (pruned source)).skeleton = (read source).skeleton := by
  have hfree : ∀ c ∈ (blankFrom .start (rawLines source)).flatten, (c != '<') = true := by
    intro c hc
    have hmem := subset_flatten_blankFrom _ _ hc
    rw [rawLines, flatten_splitLines] at hmem
    exact List.mem_takeWhile_imp (p := (· != '<')) hmem
  have htext : (pruned source).toList = (blankFrom .start (rawLines source)).flatten ++
      source.toList.dropWhile (· != '<') := by
    rw [pruned, String.toList_append, String.toList_ofList, read, String.toList_ofList]
  obtain ⟨hregion, hskeleton⟩ := takeWhile_append_dropWhile_of_all hfree source.toList
  constructor
  · rw [rawLines, htext, hregion]
    refine splitLines_flatten (pairwise_blankFrom (pairwise_splitLines _)) fun line hline => ?_
    obtain ⟨raw, hraw, hor⟩ := exists_mem_of_mem_blankFrom hline
    have hnot := not_mem_dropLast_of_mem_splitLines hraw
    rcases hor with rfl | rfl
    · exact hnot
    · exact not_mem_dropLast_of_suffix (endingOf_suffix raw) hnot
  · rw [read, htext, hskeleton, read]

/-! ## What is read from it -/

/-- Whether a directive says anything. -/
def Directive.speaks : Directive → Bool
  | .verbatim => false
  | _ => true

theorem speaks_of_keeps {d : Directive} (h : g.keeps d = true) : d.speaks = true := by
  cases d <;> first | rfl | cases h

theorem directives_eq (source : String) :
    directives source = (rawLines source).map fun raw => directiveOf 0 (contentOf raw) := by
  rw [directives, contents, List.map_map]
  rfl

/-- A line without characters says nothing. -/
theorem filter_speaks_filter (raws : List (List Char)) :
    ((raws.filter fun raw => !raw.isEmpty).map fun raw => directiveOf 0 (contentOf raw)).filter
      (·.speaks) = (raws.map fun raw => directiveOf 0 (contentOf raw)).filter (·.speaks) := by
  induction raws with
  | nil => rfl
  | cons raw raws ih =>
    cases raw with
    | nil => exact ih
    | cons c raw =>
      rw [List.filter_cons_of_pos rfl, List.map_cons, List.map_cons, List.filter_cons,
        List.filter_cons, ih]

/-- A line that is blanked says nothing, the others are kept. -/
theorem filter_speaks_blankFrom (g : Progress) (raws : List (List Char)) :
    ((blankFrom g raws).map fun raw => directiveOf 0 (contentOf raw)).filter (·.speaks) =
      keptFrom g (raws.map fun raw => directiveOf 0 (contentOf raw)) := by
  induction raws generalizing g with
  | nil => rfl
  | cons raw raws ih =>
    rw [blankFrom, List.map_cons]
    cases hkeeps : g.keeps (directiveOf 0 (contentOf raw)) with
    | true =>
      rw [if_pos rfl, List.map_cons, List.filter_cons_of_pos (speaks_of_keeps hkeeps), ih,
        keptFrom_of_keeps hkeeps]
    | false =>
      have hsilent : (directiveOf 0 (contentOf (endingOf raw))).speaks = false := by
        rw [contentOf_endingOf]
        rfl
      rw [if_neg Bool.false_ne_true, List.map_cons, List.filter_cons_of_neg (by simp [hsilent]),
        ih, keptFrom_of_not_keeps hkeeps]

/-- **Above the markup of the pruned source stand the directives that are kept.** -/
theorem filter_directives_pruned (source : String) :
    (directives (pruned source)).filter (·.speaks) = keptFrom .start (directives source) := by
  rw [directives_eq, directives_eq, (rawLines_pruned source).1, filter_speaks_filter,
    filter_speaks_blankFrom]

theorem planOf_directives_pruned (source : String) :
    planOf (directives (pruned source)) = planOf (directives source) := by
  have hidle : ∀ d : Directive, d.speaks = false → d.isIdle = true := by
    intro d hd
    cases d <;> first | rfl | cases hd
  rw [← planOf_filter hidle, filter_directives_pruned, planOf_keptFrom]

theorem filterMap_alias?_pruned (source : String) (name : String) :
    (directives (pruned source)).filterMap (·.alias? name) =
      (directives source).filterMap (·.alias? name) := by
  have hnone : ∀ d : Directive, d.speaks = false → d.alias? name = none := by
    intro d hd
    cases d <;> first | rfl | cases hd
  rw [← filterMap_alias?_filter hnone, filter_directives_pruned, filterMap_alias?_keptFrom]

/-! ## Moving alias lines -/

/-- The alias that a line defines. -/
def aliasName? (content : List Char) : Option String :=
  match directiveOf 0 content with
  | .aliasLine name _ => some name
  | _ => none

/-- Whether a line is neither blank nor defines an alias. -/
def isOther (content : List Char) : Bool := !content.all isBlank && (aliasName? content).isNone

/-- Two sources that differ in nothing but where the alias lines stand and in blank lines and line
ends. The lines of one alias have the same order in both. -/
structure Rearranged (source source' : String) : Prop where
  skeleton : (read source').skeleton = (read source).skeleton
  others : (contents source').filter isOther = (contents source).filter isOther
  aliases : ∀ name, (contents source').filter (fun content => aliasName? content = some name) =
    (contents source).filter fun content => aliasName? content = some name

theorem isOther_of_not_isIdle (h : (directiveOf 0 content).isIdle = false) :
    isOther content = true := by
  rw [isOther, Bool.and_eq_true]
  constructor
  · cases hblank : content.all isBlank with
    | false => rfl
    | true =>
      have hverbatim : directiveOf 0 content = .verbatim := by
        rw [directiveOf, trim_eq_nil_iff.mpr (List.all_eq_true.mp hblank)]
        rfl
      rw [hverbatim] at h
      cases h
  · rw [aliasName?]
    cases hd : directiveOf 0 content <;> first | rfl | (rw [hd] at h; cases h)

theorem alias?_of_aliasName?_ne (h : aliasName? content ≠ some name) :
    (directiveOf 0 content).alias? name = none := by
  rw [aliasName?] at h
  cases hd : directiveOf 0 content with
  | aliasLine other selector =>
    rw [hd] at h
    rw [Directive.alias?, if_neg fun he => h (congrArg some he)]
  | _ => rfl

theorem Rearranged.planOf_eq (h : Rearranged source source') :
    planOf (directives source') = planOf (directives source) := by
  -- what says something about the loop is on lines that are neither blank nor of an alias
  have hactive : ∀ source : String, (directives source).filter (fun d => !d.isIdle) =
      (((contents source).filter isOther).map (directiveOf 0)).filter fun d => !d.isIdle := by
    intro source
    rw [directives, List.filter_map, List.filter_map, List.filter_filter]
    congr 1
    refine List.filter_congr fun content _ => ?_
    rw [Function.comp_apply]
    cases hidle : (directiveOf 0 content).isIdle with
    | true => rfl
    | false => rw [isOther_of_not_isIdle hidle]; rfl
  have hidle : ∀ d : Directive, (!d.isIdle) = false → d.isIdle = true := fun d hd => by
    simpa using hd
  rw [← planOf_filter hidle, hactive, h.others, ← hactive, planOf_filter hidle]

theorem Rearranged.filterMap_alias?_eq (h : Rearranged source source') (name : String) :
    (directives source').filterMap (·.alias? name) =
      (directives source).filterMap (·.alias? name) := by
  have hactive : ∀ source : String, (directives source).filterMap (·.alias? name) =
      ((contents source).filter fun content => aliasName? content = some name).filterMap
        fun content => (directiveOf 0 content).alias? name := by
    intro source
    rw [directives, List.filterMap_map, List.filterMap_filter]
    refine List.filterMap_congr fun content _ => ?_
    rw [Function.comp_apply]
    by_cases hname : aliasName? content = some name
    · rw [if_pos (by simpa using hname)]
    · rw [if_neg (by simpa using hname), alias?_of_aliasName?_ne hname]
  rw [hactive, h.aliases, ← hactive]

/-! ## What is rendered -/

theorem plan?_eq_none_of_not_declares (h : ∀ l ∈ (read source).lines, ¬ Declares l) :
    (read source).plan? = none := by
  cases hp : (read source).plan? with
  | none => rfl
  | some p =>
    obtain ⟨first, rest, hfirst⟩ := exists_firstLoop hp
    have hmem := (sublist_of_firstLoop hfirst).subset List.mem_cons_self
    obtain ⟨-, -, -, hdeclares⟩ := hfirst
    exact absurd hdeclares (h first hmem)

/-- **Everything outside the first loop is inert.** What is rendered does not change when all lines
are blanked but the aliases, the first component binding, the line that declares the first loop, the
rules in its body and its end, and the aliases are moved about. Without a loop only the skeleton
counts. -/
theorem render_of_rearranged (registry : Registry) (source : String) :
    (∀ source', Rearranged (pruned source) source' →
      render registry source' = render registry source) ∧
    ((∀ l ∈ (read source).lines, ¬ Declares l) →
      render registry source =
        (Document.read (read source).skeleton .html).map Document.write) := by
  refine ⟨fun source' h => ?_, fun h => ?_⟩
  · refine render_congr registry (h.skeleton.trans (rawLines_pruned source).2) ?_ fun name => ?_
    · rw [plan?_read, plan?_read, h.planOf_eq, planOf_directives_pruned]
    · rw [get?_aliases_read, get?_aliases_read, h.filterMap_alias?_eq, filterMap_alias?_pruned]
  · simp only [render, plan?_eq_none_of_not_declares h]

/-- A note, an alias and a stray rule above a loop, and an alias inside it. -/
def scattered : String :=
  "//\n@a = li\n$s = $this->_component['shop']\nb = 1\n@a|before = foreach ($ps as $p)\n@b = i\n" ++
    "@a|id = $p['x']\n<ul><li>"

/-- What has an effect in it, with the aliases below the loop. -/
def gathered : String :=
  "$s = $this->_component['shop']\n@a|before = foreach ($ps as $p)\n@a|id = $p['x']\n\n" ++
    "@b = i\n@a = li\n<ul><li>"

/-- The lines of one name are to be found among the alias lines. -/
theorem filter_aliasName? (name : String) (lines : List (List Char)) :
    lines.filter (fun content => aliasName? content = some name) =
      (lines.filter fun content => (aliasName? content).isSome).filter
        fun content => aliasName? content = some name := by
  rw [List.filter_filter]
  refine List.filter_congr fun content _ => ?_
  cases aliasName? content <;> simp

theorem rearranged_gathered : Rearranged (pruned scattered) gathered := by
  have hpruned : contents (pruned scattered) = ["", "@a = li",
      "$s = $this->_component['shop']", "", "@a|before = foreach ($ps as $p)", "@b = i",
      "@a|id = $p['x']"].map String.toList := by
    rw [contents, (rawLines_pruned scattered).1]
    decide +kernel
  have hgathered : contents gathered = ["$s = $this->_component['shop']",
      "@a|before = foreach ($ps as $p)", "@a|id = $p['x']", "", "@b = i",
      "@a = li"].map String.toList := by decide +kernel
  refine ⟨?_, ?_, fun name => ?_⟩
  · rw [(rawLines_pruned scattered).2]
    decide +kernel
  · rw [hpruned, hgathered]
    decide +kernel
  · have ha : aliasName? "@a = li".toList = some "@a" := by decide +kernel
    have hscattered : (contents (pruned scattered)).filter (fun c => (aliasName? c).isSome) =
        ["@a = li".toList] ++ ["@b = i".toList] := by
      rw [hpruned]
      decide +kernel
    have hmoved : (contents gathered).filter (fun c => (aliasName? c).isSome) =
        ["@b = i".toList] ++ ["@a = li".toList] := by
      rw [hgathered]
      decide +kernel
    rw [filter_aliasName?, hmoved, filter_aliasName? name (contents (pruned scattered)),
      hscattered, List.filter_append, List.filter_append]
    by_cases hname : name = "@a"
    · have hnone : ["@b = i".toList].filter (fun c => aliasName? c = some name) = [] := by
        rw [hname]
        decide +kernel
      rw [hnone, List.nil_append, List.append_nil]
    · have hnone : ["@a = li".toList].filter (fun c => aliasName? c = some name) = [] := by
        rw [List.filter_cons_of_neg, List.filter_nil]
        rw [ha, decide_eq_true_iff, Option.some_inj]
        exact Ne.symm hname
      rw [hnone, List.nil_append, List.append_nil]

/-- The aliases can stand above the loop or below it, and the entries of the list are the same; a
script of aliases renders its markup. -/
theorem render_gathered :
    let registry := Registry.empty.set "shop"
      [[("ps", .array [.object [("x", .string "y")], .object [("x", .string "z")]])]]
    Rearranged (pruned scattered) gathered ∧
      render registry gathered = render registry scattered ∧
      render registry gathered = .ok
        "<html><head></head><body><ul><li id=\"y\"></li><li id=\"z\"></li></ul></body></html>" ∧
      (∀ l ∈ (read "@b = i\n<p>").lines, ¬ Declares l) ∧
      render registry "@b = i\n<p>" = (Document.read "<p>" .html).map Document.write := by
  intro registry
  have hnone : ∀ l ∈ (read "@b = i\n<p>").lines, ¬ Declares l := by
    have hloops : (read "@b = i\n<p>").lines.all (fun l => l.directive.loop?.isNone) = true := by
      decide +kernel
    intro l hl hdeclares
    rw [← isSome_loop?_iff, Option.isSome_iff_ne_none] at hdeclares
    exact hdeclares (Option.isNone_iff_eq_none.mp (List.all_eq_true.mp hloops l hl))
  have hskeleton : (read "@b = i\n<p>").skeleton = "<p>" := by decide +kernel
  exact ⟨rearranged_gathered, (render_of_rearranged registry scattered).1 _ rearranged_gathered,
    by decide +kernel, hnone, hskeleton ▸ (render_of_rearranged registry "@b = i\n<p>").2 hnone⟩

end Stencil.Script
