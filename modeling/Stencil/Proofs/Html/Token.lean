import Stencil.Html.Token
import Stencil.Proofs.Text.Cutting

/-!
# Tokens are cut off the text

Every reader of a piece of HTML gives back an end of the text that it was given. So what a later
piece is made of stands in the text that the first one was cut off from, and the name of every
attribute of a tag is a part of that text, in lower case. References do not matter: they are
replaced in values and in text alone.
-/

namespace Stencil.Html

variable {text cs rest : List Char} {tag : Tag}

/-! ## Line ends -/

/-- Making line ends equal leaves a front without line ends as it was. -/
theorem prefix_of_prefix_lines {w : List Char} (hw : '\n' ∉ w)
    (h : w <+: normalizeInput.lines cs) : w <+: cs := by
  induction w generalizing cs with
  | nil => exact List.nil_prefix
  | cons d w ih =>
    rw [List.mem_cons, not_or] at hw
    unfold normalizeInput.lines at h
    split at h
    · cases List.prefix_nil.mp h
    · exact absurd (List.cons_prefix_cons.mp h).1.symm hw.1
    · exact absurd (List.cons_prefix_cons.mp h).1.symm hw.1
    · obtain ⟨rfl, hrest⟩ := List.cons_prefix_cons.mp h
      exact List.cons_prefix_cons.mpr ⟨rfl, ih hw.2 hrest⟩

theorem infix_of_infix_lines {w : List Char} (hw : '\n' ∉ w)
    (h : w <:+: normalizeInput.lines cs) : w <:+: cs := by
  fun_induction normalizeInput.lines cs with
  | case1 => exact h
  | case2 rest ih =>
    obtain hstart | hinside := List.infix_cons_iff.mp h
    · have hfront : w <+: '\r' :: '\n' :: rest :=
        prefix_of_prefix_lines hw (normalizeInput.lines.eq_2 rest ▸ hstart)
      exact hfront.isInfix
    · exact (ih hinside).trans (List.infix_cons (List.infix_cons List.infix_rfl))
  | case3 rest hrest ih =>
    obtain hstart | hinside := List.infix_cons_iff.mp h
    · have hfront : w <+: '\r' :: rest :=
        prefix_of_prefix_lines hw (normalizeInput.lines.eq_3 rest hrest ▸ hstart)
      exact hfront.isInfix
    · exact (ih hinside).trans (List.infix_cons List.infix_rfl)
  | case4 c rest hfeed hreturn ih =>
    obtain hstart | hinside := List.infix_cons_iff.mp h
    · have hfront : w <+: c :: rest :=
        prefix_of_prefix_lines hw (normalizeInput.lines.eq_4 c rest hfeed hreturn ▸ hstart)
      exact hfront.isInfix
    · exact (ih hinside).trans (List.infix_cons List.infix_rfl)

/-- A part of the normalized text that holds no line end is a part of the text as it was given. -/
theorem infix_of_infix_normalizeInput {w : List Char} (hw : '\n' ∉ w)
    (h : w <:+: normalizeInput cs) : w <:+: cs := by
  unfold normalizeInput at h
  split at h
  · split at h
    · exact (infix_of_infix_lines hw h).trans (List.infix_cons List.infix_rfl)
    · exact infix_of_infix_lines hw h
  · exact h

/-! ## Character references -/

theorem dropSemicolon_suffix (cs : List Char) : dropSemicolon cs <:+ cs := by
  unfold dropSemicolon
  split
  · exact List.suffix_cons _ _
  · exact List.suffix_rfl

theorem suffix_of_numericReference? {chars : List Char}
    (h : numericReference? cs = some (chars, rest)) : rest <:+ cs := by
  unfold numericReference? at h
  extract_lets hex body digit digits n at h
  have hbody : body <:+ cs := by
    show (if hex then cs.drop 1 else cs) <:+ cs
    split
    · exact List.drop_suffix 1 cs
    · exact List.suffix_rfl
  split at h
  · cases h
  · obtain ⟨-, rfl⟩ := Prod.mk.inj (Option.some.inj h)
    exact (dropSemicolon_suffix _).trans ((List.dropWhile_suffix digit).trans hbody)

namespace NamedCharacter

theorem suffix_of_match? {n : NamedCharacter} {closed : Bool}
    (h : n.match? cs = some (closed, rest)) : rest <:+ cs := by
  unfold match? at h
  split at h
  · next after hstem =>
    obtain ⟨-, rfl⟩ := Prod.mk.inj (Option.some.inj h)
    exact (List.suffix_cons _ _).trans (Text.suffix_of_dropStem? hstem)
  · next hstem =>
    split at h
    · obtain ⟨-, rfl⟩ := Prod.mk.inj (Option.some.inj h)
      exact Text.suffix_of_dropStem? hstem
    · cases h
  · cases h

/-- A match leaves an end of the text, whichever name it is of. -/
theorem suffix_of_step {best : Option (Nat × List Char × Bool × List Char)} {n : NamedCharacter}
    (hbest : ∀ x ∈ best, x.2.2.2 <:+ cs) : ∀ x ∈ longest?.step cs best n, x.2.2.2 <:+ cs := by
  intro x hx
  unfold longest?.step at hx
  split at hx
  · exact hbest x hx
  · next hmatch =>
    have hrest := suffix_of_match? hmatch
    extract_lets size at hx
    split at hx
    · split at hx
      · obtain rfl := Option.mem_some.mp hx
        exact hrest
      · exact hbest x hx
    · obtain rfl := Option.mem_some.mp hx
      exact hrest

theorem suffix_of_foldl_step {names : List NamedCharacter}
    {best : Option (Nat × List Char × Bool × List Char)}
    (hbest : ∀ x ∈ best, x.2.2.2 <:+ cs) :
    ∀ x ∈ names.foldl (longest?.step cs) best, x.2.2.2 <:+ cs := by
  induction names generalizing best with
  | nil => exact hbest
  | cons n names ih => exact ih (suffix_of_step hbest)

theorem suffix_of_longest? {chars : List Char} {closed : Bool}
    (h : longest? cs = some (chars, closed, rest)) : rest <:+ cs := by
  obtain ⟨x, hx, he⟩ := Option.map_eq_some_iff.mp h
  have hnone : ∀ y ∈ (none : Option (Nat × List Char × Bool × List Char)), y.2.2.2 <:+ cs := by
    intro y hy
    cases hy
  have hsuffix := suffix_of_foldl_step hnone x hx
  rwa [he] at hsuffix

end NamedCharacter

theorem reference_suffix (inAttribute : Bool) (cs : List Char) :
    (reference inAttribute cs).2 <:+ cs := by
  unfold reference
  split
  · next rest =>
    cases h : numericReference? rest with
    | none => exact List.suffix_rfl
    | some r =>
      obtain ⟨chars, after⟩ := r
      exact (suffix_of_numericReference? h).trans (List.suffix_cons _ _)
  · split
    · exact List.suffix_rfl
    · split
      · exact List.suffix_rfl
      · next hlongest =>
        extract_lets joined
        split
        · exact List.suffix_rfl
        · exact NamedCharacter.suffix_of_longest? hlongest
  · exact List.suffix_rfl

/-! ## Tags -/

/-- The name stands in the text: it is a part of the text as names are kept. -/
def Written (text : List Char) (name : String) : Prop := ∃ w, w <:+: text ∧ name = nameText w

theorem noNul_of_ne_replacement {c : Char} (h : noNul c ≠ replacement) : noNul c = c := by
  unfold noNul at h ⊢
  split at h
  · exact absurd rfl h
  · next hc => exact if_neg hc

/-- The start of a name that stands in the text is a part of the text in lower case. -/
theorem exists_infix_of_written {name : String} {stem : List Char} (hstem : replacement ∉ stem)
    (h : Written text name) (hname : stem <+: name.toList) :
    ∃ w, w <:+: text ∧ w.map Text.lowerChar = stem := by
  obtain ⟨w, hw, rfl⟩ := h
  rw [nameText, String.toList_ofList, List.prefix_iff_eq_take, ← List.map_take] at hname
  have hfront : w.take stem.length <+: w := List.take_prefix _ w
  refine ⟨w.take stem.length, hfront.isInfix.trans hw, ?_⟩
  calc (w.take stem.length).map Text.lowerChar
      = (w.take stem.length).map fun c => noNul (Text.lowerChar c) := by
        apply List.map_congr_left
        intro c hc
        refine (noNul_of_ne_replacement ?_).symm
        intro hnul
        apply hstem
        rw [hname]
        exact List.mem_map.mpr ⟨c, hc, hnul⟩
    _ = stem := hname.symm

/-- The names of all attributes of the tag stand in the text. -/
def Tag.WrittenIn (text : List Char) (tag : Tag) : Prop :=
  ∀ a ∈ tag.attributes, Written text a.1

/-- The names of all attributes of the token stand in the text. -/
def Token.WrittenIn (text : List Char) (token : Token) : Prop :=
  ∀ tag, token = .startTag tag → tag.WrittenIn text

theorem attributeValue_suffix (ends : Char → Bool) (fuel : Nat) (soFar cs : List Char) :
    (attributeValue ends fuel soFar cs).2 <:+ cs := by
  induction fuel generalizing soFar cs with
  | zero => exact List.suffix_rfl
  | succ fuel ih =>
    cases cs with
    | nil => exact List.suffix_rfl
    | cons c cs =>
      rw [attributeValue]
      split
      · exact List.suffix_rfl
      · split
        · exact (ih _ _).trans ((reference_suffix true cs).trans (List.suffix_cons c cs))
        · exact (ih _ _).trans (List.suffix_cons c cs)

/-- What stands behind the character that ends a value. -/
theorem suffix_of_attributeValue {ends : Char → Bool} {fuel : Nat} {soFar value : List Char}
    {c : Char} (h : attributeValue ends fuel soFar cs = (value, c :: rest)) : rest <:+ cs := by
  have hsuffix := attributeValue_suffix ends fuel soFar cs
  rw [h] at hsuffix
  exact (List.suffix_cons c rest).trans hsuffix

theorem suffix_of_valueAfterEquals {value : List Char}
    (h : valueAfterEquals cs = some (value, rest)) : rest <:+ cs := by
  unfold valueAfterEquals at h
  dsimp only at h
  split at h
  · next heq =>
    split at h
    · cases h
    · next hv =>
      obtain ⟨-, rfl⟩ := Prod.mk.inj (Option.some.inj h)
      exact (suffix_of_attributeValue hv).trans (Text.suffix_of_dropWhile_eq_cons heq)
  · next heq =>
    split at h
    · cases h
    · next hv =>
      obtain ⟨-, rfl⟩ := Prod.mk.inj (Option.some.inj h)
      exact (suffix_of_attributeValue hv).trans (Text.suffix_of_dropWhile_eq_cons heq)
  · obtain rfl := congrArg Prod.snd (Option.some.inj h)
    exact (attributeValue_suffix _ _ _ _).trans (List.dropWhile_suffix _)

theorem written_addAttribute {soFar : List (String × String)} {name value : String}
    (h : ∀ a ∈ soFar, Written text a.1) (hname : Written text name) :
    ∀ a ∈ addAttribute soFar name value, Written text a.1 := by
  unfold addAttribute
  split
  · exact h
  · exact List.forall_mem_cons.mpr ⟨hname, h⟩

theorem written_of_tagEnd {fuel : Nat} {soFar attributes : List (String × String)}
    {selfClosing : Bool} (h : tagEnd fuel soFar cs = some (attributes, selfClosing, rest))
    (hcs : cs <:+ text) (hsoFar : ∀ a ∈ soFar, Written text a.1) :
    (∀ a ∈ attributes, Written text a.1) ∧ rest <:+ text := by
  induction fuel generalizing soFar cs with
  | zero => cases h
  | succ fuel ih =>
    unfold tagEnd at h
    split at h
    · cases h
    · next heq =>
      obtain ⟨rfl, -, rfl⟩ : soFar.reverse = attributes ∧ false = selfClosing ∧ _ = rest := by
        simpa using h
      exact ⟨fun a ha => hsoFar a (List.mem_reverse.mp ha),
        (Text.suffix_of_dropWhile_eq_cons heq).trans hcs⟩
    · next heq =>
      have hslash := (Text.suffix_of_dropWhile_eq_cons heq).trans hcs
      split at h
      · obtain ⟨rfl, -, rfl⟩ : soFar.reverse = attributes ∧ true = selfClosing ∧ _ = rest := by
          simpa using h
        exact ⟨fun a ha => hsoFar a (List.mem_reverse.mp ha),
          (List.suffix_cons _ _).trans hslash⟩
      · exact ih h hslash hsoFar
    · next c left _ _ heq =>
      have hleft : c :: left <:+ text := (heq ▸ List.dropWhile_suffix _).trans hcs
      -- The name is the front of what is left, which is an end of the text.
      have hfront : (left.takeWhile fun d => !endsAttributeName d) <+: left :=
        List.takeWhile_prefix _
      have hname : Written text (nameText (c :: left.takeWhile fun d => !endsAttributeName d)) :=
        ⟨_, ((List.prefix_cons_inj c).mpr hfront).isInfix.trans hleft.isInfix, rfl⟩
      have hafter : (left.dropWhile fun d => !endsAttributeName d).dropWhile Text.isMarkupBlank
          <:+ text :=
        (List.dropWhile_suffix _).trans ((List.dropWhile_suffix _).trans
          ((List.suffix_cons c left).trans hleft))
      dsimp only at h
      split at h
      · next heq =>
        have hvalue := (List.suffix_cons _ _).trans (heq ▸ hafter)
        split at h
        · cases h
        · next hv =>
          exact ih h ((suffix_of_valueAfterEquals hv).trans hvalue)
            (written_addAttribute hsoFar hname)
      · exact ih h hafter (written_addAttribute hsoFar hname)

theorem written_of_tagBody (h : tagBody cs = some (tag, rest)) (hcs : cs <:+ text) :
    tag.WrittenIn text ∧ rest <:+ text := by
  obtain ⟨⟨attributes, selfClosing, after⟩, hend, he⟩ := Option.map_eq_some_iff.mp h
  obtain ⟨rfl, rfl⟩ := Prod.mk.inj he
  exact written_of_tagEnd hend ((List.dropWhile_suffix _).trans hcs) fun _ ha => nomatch ha

/-! ## Pieces of a text -/

/-- A piece is cut off the text: what its tokens hold stands in the text, and the rest is an end of
it. -/
structure CutOff (text : List Char) (tokens : List Token) (rest : List Char) : Prop where
  written : ∀ token ∈ tokens, token.WrittenIn text
  rest : rest <:+ text

theorem Written.mono {name : String} (h : Written cs name) (hcs : cs <:+ text) :
    Written text name := by
  obtain ⟨w, hw, he⟩ := h
  exact ⟨w, hw.trans hcs.isInfix, he⟩

theorem CutOff.mono {tokens : List Token} (h : CutOff cs tokens rest) (hcs : cs <:+ text) :
    CutOff text tokens rest :=
  ⟨fun token ht tag he a ha => (h.written token ht tag he a ha).mono hcs, h.rest.trans hcs⟩

/-- A piece without a start tag. -/
theorem cutOff_of_ne_startTag {tokens : List Token} (h : ∀ tag, .startTag tag ∉ tokens)
    (hrest : rest <:+ text) : CutOff text tokens rest := by
  refine ⟨?_, hrest⟩
  rintro token ht tag rfl
  exact absurd ht (h tag)

theorem cutOff_startTag (h : tagBody cs = some (tag, rest)) :
    CutOff cs [.startTag tag] rest := by
  obtain ⟨htag, hrest⟩ := written_of_tagBody h List.suffix_rfl
  refine ⟨?_, hrest⟩
  intro token ht other he
  rw [List.mem_singleton] at ht
  obtain rfl := Token.startTag.inj (ht.symm.trans he)
  exact htag

theorem cutOff_endTag (h : tagBody cs = some (tag, rest)) :
    CutOff cs [.endTag tag.name] rest :=
  cutOff_of_ne_startTag (by simp) (written_of_tagBody h List.suffix_rfl).2

/-! ## Comments and declarations -/

theorem untilBracket_suffix (cs : List Char) : (untilBracket cs).2 <:+ cs :=
  (List.drop_suffix 1 _).trans (List.dropWhile_suffix _)

theorem cutOff_bogusComment (cs : List Char) :
    CutOff cs [(bogusComment cs).1] (bogusComment cs).2 :=
  cutOff_of_ne_startTag (by simp [bogusComment]) (untilBracket_suffix cs)

theorem commentBody_suffix (soFar cs : List Char) : (commentBody soFar cs).2 <:+ cs := by
  fun_induction commentBody soFar cs with
  | case1 soFar cut => exact List.suffix_rfl
  | case2 soFar rest => exact ⟨['-', '-', '>'], rfl⟩
  | case3 soFar rest => exact ⟨['-', '-', '!', '>'], rfl⟩
  | case4 soFar c cs _ _ ih => exact ih.trans (List.suffix_cons c cs)

theorem cutOff_comment (cs : List Char) : CutOff cs [(comment cs).1] (comment cs).2 := by
  refine cutOff_of_ne_startTag (by simp [comment]) ?_
  unfold comment
  split
  · next heq =>
    split at heq
    · obtain ⟨-, rfl⟩ := Prod.mk.inj heq
      exact List.suffix_cons _ _
    · obtain ⟨-, rfl⟩ := Prod.mk.inj heq
      exact ⟨['-', '>'], rfl⟩
    · exact congrArg Prod.snd heq ▸ commentBody_suffix [] _

theorem quotedIdentifier_suffix (quote : Char) (cs : List Char) :
    (quotedIdentifier quote cs).2.2 <:+ cs := by
  unfold quotedIdentifier
  dsimp only
  split
  · next heq =>
    dsimp only
    split
    · exact Text.suffix_of_dropWhile_eq_cons heq
    · exact heq ▸ List.dropWhile_suffix _
  · exact List.nil_suffix

/-- A document type declaration that ends at the given rest. -/
theorem cutOff_doctypeToken (d : Doctype) (hrest : rest <:+ text) :
    CutOff text [.doctype d] rest :=
  cutOff_of_ne_startTag (by simp) hrest

theorem cutOff_finishDoctype (d : Doctype) (cs : List Char) :
    CutOff cs [(finishDoctype d cs).1] (finishDoctype d cs).2 :=
  cutOff_doctypeToken d (untilBracket_suffix cs)

theorem cutOff_doctypeTail (d : Doctype) (cs : List Char) :
    CutOff cs [(doctypeTail d cs).1] (doctypeTail d cs).2 := by
  unfold doctypeTail
  split
  · exact cutOff_doctypeToken _ List.nil_suffix
  · exact (cutOff_finishDoctype d _).mono (List.dropWhile_suffix _)

theorem cutOff_systemIdentifier (d : Doctype) (needed : Bool) (cs : List Char) :
    CutOff cs [(systemIdentifier d needed cs).1] (systemIdentifier d needed cs).2 := by
  unfold systemIdentifier
  split
  · exact cutOff_doctypeToken _ List.nil_suffix
  · next c rest heq =>
    have hrest := Text.suffix_of_dropWhile_eq_cons heq
    split
    · have hafter := (quotedIdentifier_suffix c rest).trans hrest
      dsimp only
      split
      · exact (cutOff_doctypeTail _ _).mono hafter
      · exact (cutOff_finishDoctype _ _).mono hafter
    · split
      · exact cutOff_doctypeToken _ hrest
      · exact (cutOff_finishDoctype _ _).mono (heq ▸ List.dropWhile_suffix _)

theorem cutOff_publicIdentifier (d : Doctype) (cs : List Char) :
    CutOff cs [(publicIdentifier d cs).1] (publicIdentifier d cs).2 := by
  unfold publicIdentifier
  split
  · exact cutOff_doctypeToken _ List.nil_suffix
  · next c rest heq =>
    have hrest := Text.suffix_of_dropWhile_eq_cons heq
    split
    · have hafter := (quotedIdentifier_suffix c rest).trans hrest
      dsimp only
      split
      · exact (cutOff_systemIdentifier _ _ _).mono hafter
      · exact (cutOff_finishDoctype _ _).mono hafter
    · exact (cutOff_finishDoctype _ _).mono (heq ▸ List.dropWhile_suffix _)

theorem cutOff_doctype (cs : List Char) : CutOff cs [(doctype cs).1] (doctype cs).2 := by
  unfold doctype
  extract_lets d
  split
  · exact cutOff_doctypeToken _ List.nil_suffix
  · next heq => exact cutOff_doctypeToken _ (Text.suffix_of_dropWhile_eq_cons heq)
  · extract_lets d
    have hbehind : ((cs.dropWhile Text.isMarkupBlank).dropWhile fun c =>
        !(Text.isMarkupBlank c || c == '>')).dropWhile Text.isMarkupBlank <:+ cs :=
      (List.dropWhile_suffix _).trans ((List.dropWhile_suffix _).trans (List.dropWhile_suffix _))
    split
    · exact cutOff_doctypeToken _ List.nil_suffix
    · next heq => exact cutOff_doctypeToken _ ((List.suffix_cons _ _).trans (heq ▸ hbehind))
    · have hdrop := (List.drop_suffix 6 _).trans hbehind
      extract_lets keyword
      split
      · exact (cutOff_publicIdentifier _ _).mono hdrop
      · split
        · exact (cutOff_systemIdentifier _ _ _).mono hdrop
        · exact (cutOff_finishDoctype _ _).mono hbehind

/-- The text of a CDATA section has no tags. -/
theorem startTag_not_mem_sectionTokens (tag : Tag) (soFar cs : List Char) :
    .startTag tag ∉ sectionTokens soFar cs := by
  have hflush (soFar : List Char) : .startTag tag ∉ sectionTokens.flush soFar := by
    unfold sectionTokens.flush
    split
    · exact List.not_mem_nil
    · simp [textToken]
  induction cs generalizing soFar with
  | nil => exact hflush soFar
  | cons c cs ih =>
    rw [sectionTokens]
    split
    · rw [List.mem_append, List.mem_cons, not_or, not_or]
      exact ⟨hflush soFar, nofun, ih []⟩
    · exact ih _

theorem cutOff_declaration (sections : Bool) (cs : List Char) :
    CutOff cs (declaration sections cs).1 (declaration sections cs).2 := by
  unfold declaration
  extract_lets single
  split
  · next hstem => exact (cutOff_comment _).mono (Text.suffix_of_dropStem? hstem)
  · split
    · exact (cutOff_doctype _).mono (List.drop_suffix 7 cs)
    · split
      · next rest hstem =>
        have hrest : rest <:+ cs := by
          split at hstem
          · exact Text.suffix_of_dropStem? hstem
          · cases hstem
        cases hsplit : Text.splitFirst? "]]>".toList rest with
        | none =>
          exact cutOff_of_ne_startTag (fun tag => startTag_not_mem_sectionTokens tag _ _)
            List.nil_suffix
        | some r =>
          exact cutOff_of_ne_startTag (fun tag => startTag_not_mem_sectionTokens tag _ _)
            ((Text.suffix_of_splitFirst? hsplit).trans hrest)
      · exact cutOff_bogusComment cs

/-! ## Text -/

theorem untilEndTag_append (name : String) (cs : List Char) :
    (untilEndTag name cs).1 ++ (untilEndTag name cs).2 = cs := by
  induction cs with
  | nil => rfl
  | cons c cs ih =>
    rw [untilEndTag]
    split
    · rfl
    · exact congrArg (c :: ·) ih

theorem untilScriptEnd_append (place : ScriptPlace) (dashes : Nat) (cs : List Char) :
    (untilScriptEnd place dashes cs).1 ++ (untilScriptEnd place dashes cs).2 = cs := by
  induction cs generalizing place dashes with
  | nil => rw [untilScriptEnd, List.nil_append]
  | cons c cs ih =>
    have hgo (p : ScriptPlace) (n : Nat) :
        c :: ((untilScriptEnd p n cs).1 ++ (untilScriptEnd p n cs).2) = c :: cs :=
      congrArg (c :: ·) (ih p n)
    rw [untilScriptEnd.eq_def]
    dsimp only
    cases place with
    | outside =>
      dsimp only
      split
      · rfl
      · split <;> exact hgo _ _
    | escaped =>
      dsimp only
      split
      · rfl
      · repeat' split
        all_goals exact hgo _ _
    | nested =>
      dsimp only
      repeat' split
      all_goals exact hgo _ _

theorem textRun_suffix (blank : Bool) (fuel : Nat) (soFar cs : List Char) :
    (textRun blank fuel soFar cs).2 <:+ cs := by
  induction fuel generalizing soFar cs with
  | zero => exact List.suffix_rfl
  | succ fuel ih =>
    cases cs with
    | nil => exact List.suffix_rfl
    | cons c cs =>
      rw [textRun]
      split
      · exact List.suffix_rfl
      · have hleft : (if c = '&' then reference false cs else ([c], cs)).2 <:+ c :: cs := by
          split
          · exact (reference_suffix false cs).trans (List.suffix_cons c cs)
          · exact List.suffix_cons c cs
        generalize (if c = '&' then reference false cs else ([c], cs)) = r at hleft ⊢
        dsimp only
        split
        · exact (ih _ _).trans hleft
        · exact List.suffix_rfl

/-- What begins with ordinary text is not left as it is. -/
theorem ordinaryText_suffix {c : Char} {cs : List Char}
    (h : ¬ (c.toNat = 0 ∨ (c = '<' ∧ opensMarkup cs = true))) : (ordinaryText c cs).2 <:+ cs := by
  have hleft : (if c = '&' then reference false cs else ([c], cs)).2 <:+ cs := by
    split
    · exact reference_suffix false cs
    · exact List.suffix_rfl
  have hfirst : (if c = '&' then (reference false cs).1 else [c]) =
      (if c = '&' then reference false cs else ([c], cs)).1 := by
    split <;> rfl
  simp only [ordinaryText, textRun, if_neg h, hfirst, beq_self_eq_true, if_true]
  exact (textRun_suffix _ _ _ _).trans hleft

/-! ## Tokens -/

/-- A piece of ordinary content is cut off the text, and the text is shorter for it. -/
theorem cutOff_ordinaryTokens? {sections : Bool} {tokens : List Token}
    (h : ordinaryTokens? sections cs = some (tokens, rest)) :
    CutOff cs tokens rest ∧ rest.length < cs.length := by
  unfold ordinaryTokens? at h
  split at h
  · cases h
  · next c cs =>
    have htail {cs' : List Char} {r : List Token × List Char} (hr : CutOff cs' r.1 r.2)
        (hcs : cs' <:+ cs) (h : some r = some (tokens, rest)) :
        CutOff (c :: cs) tokens rest ∧ rest.length < (c :: cs).length := by
      obtain rfl := Option.some.inj h
      exact ⟨hr.mono (hcs.trans (List.suffix_cons c cs)),
        Nat.lt_succ_of_le (hr.rest.trans hcs).length_le⟩
    split at h
    · exact htail (cutOff_of_ne_startTag (by simp) List.suffix_rfl) List.suffix_rfl h
    · next hzero =>
      split at h
      · split at h
        · exact htail (cutOff_declaration _ _) (List.suffix_cons _ _) h
        · split at h
          · exact htail (cutOff_of_ne_startTag (by simp) (List.suffix_cons _ _))
              (List.suffix_cons _ _) h
          · split at h
            · obtain ⟨⟨tag, after⟩, hbody, he⟩ := Option.map_eq_some_iff.mp h
              exact htail (cutOff_endTag hbody) (List.suffix_cons _ _) (congrArg some he)
            · exact htail (cutOff_bogusComment _) (List.suffix_cons _ _) h
          · cases h
        · exact htail (cutOff_bogusComment _) List.suffix_rfl h
        · obtain ⟨⟨tag, after⟩, hbody, he⟩ := Option.map_eq_some_iff.mp h
          exact htail (cutOff_startTag hbody) List.suffix_rfl (congrArg some he)
      · next hmarkup =>
        exact htail
          (cutOff_of_ne_startTag (by simp) (ordinaryText_suffix (not_or.mpr ⟨hzero, hmarkup⟩)))
          List.suffix_rfl h

theorem cutOff_closedTokens? {split : List Char × List Char} {decode : List Char → List Char}
    {tokens : List Token} (h : closedTokens? split decode = some (tokens, rest))
    (hsplit : split.1 ++ split.2 = cs) : CutOff cs tokens rest ∧ rest.length < cs.length := by
  subst hsplit
  unfold closedTokens? at h
  split at h
  · next tail =>
    obtain ⟨⟨tag, after⟩, hbody, he⟩ := Option.map_eq_some_iff.mp h
    obtain ⟨rfl, rfl⟩ := Prod.mk.inj he
    have hcut := cutOff_endTag hbody
    refine ⟨hcut.mono ((List.suffix_cons _ _).trans (List.suffix_cons _ _)), ?_⟩
    exact Nat.lt_succ_of_le (Nat.le_succ_of_le hcut.rest.length_le)
  · cases h
  · next body tail _ hbody =>
    obtain ⟨rfl, rfl⟩ := Prod.mk.inj (Option.some.inj h)
    refine ⟨cutOff_of_ne_startTag (by simp [textToken]) (List.suffix_append _ _), ?_⟩
    have hpos : 0 < body.length := List.length_pos_iff.mpr hbody
    rw [List.length_append]
    exact Nat.lt_add_of_pos_left hpos

/-- Whatever is being read, the next piece is cut off the text, and the text is shorter for it. -/
theorem cutOff_next? {content : Content} {sections : Bool} {tokens : List Token}
    (h : Token.next? content sections cs = some (tokens, rest)) :
    CutOff cs tokens rest ∧ rest.length < cs.length := by
  cases content with
  | ordinary => exact cutOff_ordinaryTokens? h
  | references name => exact cutOff_closedTokens? h (untilEndTag_append name cs)
  | raw name => exact cutOff_closedTokens? h (untilEndTag_append name cs)
  | script => exact cutOff_closedTokens? h (untilScriptEnd_append .outside 0 cs)
  | plain =>
    rw [Token.next?] at h
    split at h
    · cases h
    · next hempty =>
      obtain ⟨rfl, rfl⟩ := Prod.mk.inj (Option.some.inj h)
      refine ⟨cutOff_of_ne_startTag (by simp [textToken]) List.nil_suffix, ?_⟩
      exact List.length_pos_iff.mpr (by simpa using hempty)

end Stencil.Html
