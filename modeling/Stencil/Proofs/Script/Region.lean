import Stencil.Proofs.Script.Diagnostic
import Stencil.Proofs.Script.Inert
import Stencil.Proofs.Script.Separators

/-!
# The directive region

The text above the markup is covered by the lines of the script: behind each line stand carriage
returns, perhaps none, and a line feed, which only the last line can lack (`Tiles`).

What such a line is cut into needs no further care: names, selectors and expressions are trimmed,
selectors are not empty, and what begins like a variable or a comment is no rule
(`wellFormed_directiveOf`). So there is always something left to be read as the selector of a rule:
what stands behind the anchor of the loop ends as the rule's selector does, and what stands for an
alias is the selector of an alias line (`selectorOf_ne_empty`).
-/

namespace Stencil.Script
open Text

variable {cs body before behind left right : List Char}

/-! ## Lines that cover a region -/

/-- A line without line feeds that does not end in a carriage return. -/
def IsBareLine (line : List Char) : Prop := '\n' ∉ line ∧ line.getLast? ≠ some '\r'

/-- The text that starts at the byte offset `position` is covered by lines at these spans and their
ends. -/
inductive Tiles : Nat → List Char → List Span → Prop where
  | nil {position : Nat} : Tiles position [] []
  | last {position : Nat} {line returns : List Char} (hline : IsBareLine line)
      (hreturns : ∀ c ∈ returns, c = '\r') (hne : line ++ returns ≠ []) :
      Tiles position (line ++ returns) [⟨position, position + byteLength line⟩]
  | cons {position : Nat} {line returns rest : List Char} {spans : List Span}
      (hline : IsBareLine line) (hreturns : ∀ c ∈ returns, c = '\r')
      (hrest : Tiles (position + byteLength (line ++ returns ++ ['\n'])) rest spans) :
      Tiles position (line ++ returns ++ '\n' :: rest)
        (⟨position, position + byteLength line⟩ :: spans)

/-- Behind a line stand carriage returns. -/
theorem exists_returns (hbody : '\n' ∉ body) : ∃ returns, body = contentOf body ++ returns ∧
    (∀ c ∈ returns, c = '\r') ∧ IsBareLine (contentOf body) := by
  have hcut := contentOf_append_endingOf body
  refine ⟨endingOf body, hcut.symm, fun c hc => ?_, fun h => hbody ?_, fun h => ?_⟩
  · have hends : endsLine c = true := List.mem_takeWhile_imp (List.mem_reverse.mp hc)
    have hne : c ≠ '\n' := by
      rintro rfl
      exact hbody ((endingOf_suffix body).subset hc)
    simpa [endsLine, hne] using hends
  · rw [← hcut]
    exact List.mem_append_left _ h
  · exact Bool.false_ne_true (getLast?_dropWhileEnd h).symm

/-- Induction over a text line by line. -/
@[elab_as_elim]
theorem lineInduction {motive : List Char → Prop} (nil : motive [])
    (last : ∀ body, '\n' ∉ body → body ≠ [] → motive body)
    (cons : ∀ body rest, '\n' ∉ body → motive rest → motive (body ++ '\n' :: rest))
    (cs : List Char) : motive cs := by
  induction hn : cs.length using Nat.strongRecOn generalizing cs with
  | ind n ih =>
    subst hn
    by_cases hfeed : '\n' ∈ cs
    · obtain ⟨body, rest, rfl, hbody⟩ := List.eq_append_cons_of_mem hfeed
      refine cons body rest hbody (ih rest.length ?_ rest rfl)
      simp only [List.length_append, List.length_cons]
      omega
    · by_cases hne : cs = []
      · exact hne ▸ nil
      · exact last cs hfeed hne

/-- **The lines of a text cover it.** -/
theorem tiles_readLines (position : Nat) (cs : List Char) :
    Tiles position cs ((readLines position (splitLines cs)).map (·.span)) := by
  induction cs using lineInduction generalizing position with
  | nil => exact .nil
  | last body hbody hne =>
    obtain ⟨returns, hcut, hreturns, hbare⟩ := exists_returns hbody
    have htiles : Tiles position (contentOf body ++ returns) _ :=
      .last hbare hreturns (hcut ▸ hne)
    rw [← hcut] at htiles
    rw [splitLines_of_not_mem hbody hne]
    exact htiles
  | cons body rest hbody ih =>
    obtain ⟨returns, hcut, hreturns, hbare⟩ := exists_returns hbody
    have hcontent : dropWhileEnd endsLine (body ++ ['\n']) = contentOf body :=
      dropWhileEnd_concat rfl body
    have hrest := ih (position + byteLength (body ++ ['\n']))
    rw [hcut] at hrest
    have htiles := Tiles.cons hbare hreturns hrest
    rw [← hcut] at htiles
    rw [splitLines_append hbody, readLines, List.map_cons, hcontent]
    exact htiles

/-- The markup is empty or starts with its first bracket. -/
theorem skeleton_read (source : String) : (read source).skeleton = "" ∨
    ∃ rest, (read source).skeleton.toList = '<' :: rest := by
  have hskeleton : (read source).skeleton.toList = source.toList.dropWhile (· != '<') :=
    String.toList_ofList
  rw [← String.toList_eq_nil_iff, hskeleton]
  have hhead := List.head?_dropWhile_not (· != '<') source.toList
  cases hrest : source.toList.dropWhile (· != '<') with
  | nil => exact .inl rfl
  | cons c rest =>
    rw [hrest] at hhead
    obtain rfl : c = '<' := by simpa using hhead
    exact .inr ⟨rest, rfl⟩

/-- A script is a region without brackets and the markup behind it. -/
theorem exists_region (source : String) : ∃ region,
    source.toList = region ++ (read source).skeleton.toList ∧ '<' ∉ region ∧
      Tiles 0 region ((read source).lines.map (·.span)) := by
  refine ⟨source.toList.takeWhile (· != '<'), ?_, fun h => ?_, tiles_readLines 0 _⟩
  · rw [read, String.toList_ofList, List.takeWhile_append_dropWhile]
  · simpa using List.mem_takeWhile_imp h

/-! ## Well-formed directives -/

/-- The attribute that an action sets has a name, and a trimmed one. -/
def Action.WellFormed (action : Action) : Prop :=
  ∀ name, action = .setAttribute name → name ≠ "" ∧ trimmed name = name ∧ name ≠ "innerText"

/-- A rule has a selector that begins neither like a variable nor like a comment, and all its parts
are trimmed. -/
structure Rule.WellFormed (r : Rule) : Prop where
  selector_ne : r.selector ≠ ""
  selector_trimmed : trimmed r.selector = r.selector
  not_variable : ¬ ['$'] <+: r.selector.toList
  not_comment : ¬ ['/', '/'] <+: r.selector.toList
  action : r.action.WellFormed
  expression_trimmed : trimmed r.expression = r.expression

/-- An alias has a name and a trimmed selector; a rule is well formed. -/
def Directive.WellFormed : Directive → Prop
  | .aliasLine name selector =>
    IsAliasToken name.toList ∧ selector ≠ "" ∧ trimmed selector = selector
  | .ruleLine r => r.WellFormed
  | _ => True

theorem ofList_ne_empty (h : cs ≠ []) : String.ofList cs ≠ "" := by
  rwa [Ne, ← String.toList_eq_nil_iff, String.toList_ofList]

theorem wellFormed_content : Action.WellFormed .content := by
  intro target h
  cases h

theorem wellFormed_ofName (name : List Char) : (Action.ofName name).WellFormed := by
  intro target h
  rw [Action.ofName] at h
  split at h
  · cases h
  · next hname =>
    obtain ⟨hne, hinner⟩ := not_or.mp hname
    obtain rfl := Action.setAttribute.inj h
    exact ⟨hne, trimmed_ofList (trim_trim name), hinner⟩

/-- A cut leaves out the needle alone. -/
theorem eq_of_splitFrom? {needle : Char} {n : Nesting}
    (h : splitFrom? needle n cs = some (before, behind)) : cs = before ++ needle :: behind := by
  induction cs generalizing n before with
  | nil => cases h
  | cons c cs ih =>
    rw [splitFrom?] at h
    split at h
    · next hc =>
      obtain ⟨rfl, rfl⟩ := Prod.mk.inj (Option.some.inj h)
      rw [hc.1, List.nil_append]
    · obtain ⟨⟨front, rest⟩, hcut, he⟩ := Option.map_eq_some_iff.mp h
      obtain ⟨rfl, rfl⟩ := Prod.mk.inj he
      rw [ih hcut, List.cons_append]

theorem prefix_of_splitTop? {needle : Char} (h : splitTop? needle cs = some (before, behind)) :
    before <+: cs :=
  ⟨needle :: behind, (eq_of_splitFrom? h).symm⟩

/-- The selector of a rule is a front part of what stands before the equals sign. -/
theorem wellFormed_rule {selector : List Char} {action : Action} (hfront : selector <+: left)
    (hne : selector ≠ []) (htrim : trim selector = selector) (hvariable : ¬ ['$'] <+: left)
    (hcomment : ¬ ['/', '/'] <+: left) (haction : action.WellFormed) (hright : trim right = right) :
    Rule.WellFormed ⟨String.ofList selector, action, String.ofList right⟩ where
  selector_ne := ofList_ne_empty hne
  selector_trimmed := trimmed_ofList htrim
  not_variable h := hvariable ((String.toList_ofList ▸ h).trans hfront)
  not_comment h := hcomment ((String.toList_ofList ▸ h).trans hfront)
  action := haction
  expression_trimmed := trimmed_ofList hright

theorem wellFormed_assignment (hleft : trim left = left) (hright : trim right = right)
    (hcomment : ¬ ['/', '/'] <+: left) : (assignment left right).WellFormed := by
  unfold assignment
  split
  · trivial
  · next hstart =>
    simp only [Bool.or_eq_true, not_or, List.isEmpty_iff, beq_iff_eq] at hstart
    obtain ⟨hne, hhead⟩ := hstart
    have hvariable : ¬ ['$'] <+: left := by
      rintro ⟨rest, rfl⟩
      exact hhead rfl
    split
    · next hname =>
      split
      · trivial
      · next hempty =>
        refine ⟨?_, ofList_ne_empty (by simpa using hempty), trimmed_ofList hright⟩
        rwa [String.toList_ofList, ← isAliasName_iff]
    · -- The selector ends at the bar, if there is one.
      cases hcut : splitTop? '|' left with
      | none =>
        simp only [List.isEmpty_iff, if_neg hne]
        exact wellFormed_rule List.prefix_rfl hne hleft hvariable hcomment wellFormed_content hright
      | some cut =>
        obtain ⟨before, name⟩ := cut
        dsimp only
        split
        · trivial
        · next hsome =>
          exact wellFormed_rule (trim_prefix_of_trim hleft (prefix_of_splitTop? hcut))
            (by simpa using hsome) (trim_trim before) hvariable hcomment (wellFormed_ofName name)
            hright

/-- **Every line is a well-formed directive.** -/
theorem wellFormed_directiveOf (position : Nat) (line : List Char) :
    (directiveOf position line).WellFormed := by
  unfold directiveOf
  dsimp only
  split
  · trivial
  · next hline =>
    simp only [Bool.or_eq_true, not_or, startsWith_iff] at hline
    split
    · trivial
    · unfold plainDirective
      split
      · trivial
      · split
        · trivial
        · split
          · next left right hcut =>
            refine wellFormed_assignment (trim_trim left) (trim_trim right) fun h => hline.2 ?_
            exact h.trans (trim_prefix_of_trim (trim_trim line) (prefix_of_splitTop? hcut))
          · trivial

/-! ## Selectors of rules -/

theorem ofText_ne_empty {text : String} (h : trim text.toList ≠ []) :
    Selector.ofText text ≠ .error .empty := by
  have htext : (trimmed text).isEmpty = false := by
    rw [Bool.eq_false_iff, Ne, String.isEmpty_iff]
    exact ofList_ne_empty h
  rw [Selector.ofText, htext, if_neg Bool.false_ne_true]
  intro he
  split at he <;> cases he

/-- The end of a trimmed text is not blank. -/
theorem trim_ne_nil_of_suffix {rest : List Char} (htrim : trim cs = cs) (h : rest <:+ cs)
    (hne : rest ≠ []) : trim rest ≠ [] := by
  obtain ⟨front, rfl⟩ := h
  have hlast : (front ++ rest).getLast? = some (rest.getLast hne) := by
    rw [List.getLast?_append, List.getLast?_eq_some_getLast hne, Option.some_or]
  have hblank := isBlank_getLast?_of_trim htrim hlast
  intro hnil
  have hall := trim_eq_nil_iff.mp hnil _ (List.getLast_mem hne)
  exact Bool.false_ne_true (hblank.symm.trans hall)

variable {p : Plan} {aliases : Aliases} {r : Rule}

/-- The text that the selector of a rule is read from is not blank, if no alias stands for a blank
one. -/
theorem selectorOf_ne_empty (hr : r.WellFormed) (haliases : ∀ name selector,
      Keyed.get? aliases name = some selector → selector ≠ "" ∧ trimmed selector = selector) :
    p.selectorOf aliases r ≠ .error .empty := by
  have htrim := trim_toList hr.selector_trimmed
  have hne : r.selector.toList ≠ [] := by
    rw [Ne, String.toList_eq_nil_iff]
    exact hr.selector_ne
  rw [Plan.selectorOf, htrim]
  split
  · next rest hscoped =>
    -- Behind the anchor stand a blank and the end of the selector, which is none.
    split at hscoped
    · cases hscoped
    · obtain ⟨hdrop, hblank⟩ := Option.filter_eq_some_iff.mp hscoped
      refine ofText_ne_empty ?_
      rw [String.toList_ofList]
      refine trim_ne_nil_of_suffix htrim (suffix_of_dropStem? hdrop) ?_
      rintro rfl
      cases hblank
  · refine ofText_ne_empty ?_
    rw [Aliases.resolve]
    cases hget : Keyed.get? aliases (trimmed (String.ofList r.selector.toList)) with
    | none =>
      rw [Option.getD_none, trimmed_ofList htrim, String.toList_ofList, htrim]
      exact hne
    | some selector =>
      obtain ⟨hselector, htrimmed⟩ := haliases _ selector hget
      rw [Option.getD_some, trim_toList htrimmed, Ne, String.toList_eq_nil_iff]
      exact hselector

theorem wellFormed_of_mem_lines {source : String} {l : Line} (hl : l ∈ (read source).lines) :
    l.directive.WellFormed := by
  obtain ⟨line, -, -, hline⟩ := exists_of_mem_lines hl
  rw [hline]
  exact wellFormed_directiveOf _ line

/-- An alias of a script stands for the selector of one of its lines. -/
theorem exists_mem_of_get?_aliases {s : Template} {name selector : String}
    (h : Keyed.get? s.aliases name = some selector) :
    ∃ l ∈ s.lines, l.directive = .aliasLine name selector := by
  rw [aliases_eq, get?_aliasesOf] at h
  obtain ⟨d, hd, halias⟩ := List.mem_filterMap.mp (List.mem_of_getLast? h)
  obtain ⟨l, hl, rfl⟩ := List.mem_map.mp hd
  refine ⟨l, hl, ?_⟩
  cases hdirective : l.directive with
  | aliasLine other selector' =>
    rw [hdirective, Directive.alias?] at halias
    split at halias
    · next he => rw [he, Option.some.inj halias]
    · cases halias
  | _ =>
    rw [hdirective] at halias
    cases halias

/-- A rule in the body of a plan is that of one of the lines. -/
theorem exists_mem_of_mem_body {s : Template} (hp : s.plan? = some p) (hr : r ∈ p.body) :
    ∃ l ∈ s.lines, l.directive = .ruleLine r := by
  obtain ⟨first, rest, hfirst⟩ := exists_firstLoop hp
  obtain ⟨l, hl, hrule⟩ := (mem_body_iff hfirst hp).mp hr
  have hrest : l ∈ rest := (List.takeWhile_sublist _).subset hl
  exact ⟨l, (sublist_of_firstLoop hfirst).subset (List.mem_cons_of_mem _ hrest), hrule⟩

/-- **A script is a region that its lines cover and the markup behind it.** The lines stand in order
and apart, between characters of the text; all are well formed; and no rule in the body of the loop
is left without a selector. -/
theorem region_exact (source : String) :
    let s := read source
    (∃ region, source.toList = region ++ s.skeleton.toList ∧ '<' ∉ region ∧
      Tiles 0 region (s.lines.map (·.span))) ∧
    (s.skeleton = "" ∨ ∃ rest, s.skeleton.toList = '<' :: rest) ∧
    (∀ l ∈ s.lines, (⟨l.span.start⟩ : String.Pos.Raw).IsValid source ∧
      (⟨l.span.stop⟩ : String.Pos.Raw).IsValid source ∧ l.span.start ≤ l.span.stop) ∧
    (s.lines.Pairwise fun a b => a.span.stop < b.span.start) ∧
    (∀ l ∈ s.lines, l.directive.WellFormed) ∧
    ∀ p, s.plan? = some p → ∀ r ∈ p.body, p.selectorOf s.aliases r ≠ .error .empty := by
  intro s
  refine ⟨exists_region source, skeleton_read source, fun l hl => ?_, pairwise_lines source,
    fun l hl => wellFormed_of_mem_lines hl, fun p hp r hr => ?_⟩
  · obtain ⟨line, hstands, -, -⟩ := exists_of_mem_lines hl
    exact ⟨isValid_iff_boundary.mpr hstands.boundary_start,
      isValid_iff_boundary.mpr hstands.boundary_stop, hstands.le⟩
  · obtain ⟨l, hl, hrule⟩ := exists_mem_of_mem_body hp hr
    have hwell := wellFormed_of_mem_lines hl
    rw [hrule] at hwell
    refine selectorOf_ne_empty hwell fun name selector hget => ?_
    obtain ⟨l, hl, halias⟩ := exists_mem_of_get?_aliases hget
    have hwell := wellFormed_of_mem_lines hl
    rw [halias] at hwell
    exact hwell.2

/-- Spans leave out line ends; a carriage return alone ends no line. -/
example : (read "a = b\r\r\n\nc\rd = e\n<p>").lines.map (·.span) =
    [⟨0, 5⟩, ⟨8, 8⟩, ⟨9, 16⟩] := by
  decide +kernel

end Stencil.Script
