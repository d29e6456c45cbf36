import Mathlib.Data.List.DropRight
import Stencil.Proofs.Script.Positions

/-!
# Which lines hold a clause or a binding

A clause and a binding are each spelled by one list of tokens (`Clause.spelling`,
`Binding.spelling`). A line has a clause exactly if its tokens from the first keyword on begin with
the spelling of one, whatever follows, and a binding exactly if the spelling of one stands anywhere
among its tokens; of several the leftmost is read. Each reader is exact in both directions: it takes
the tokens that it asks for, and if they are there it succeeds.
-/

namespace Stencil.Script

variable {ts ws : List Token} {t : Token} {c : Clause} {b : Binding} {name list first : String}

/-! ## Spellings -/

/-- The tokens of a clause. -/
def Clause.spelling (c : Clause) : List Token :=
  [.foreachWord, .openParen, .var c.list, .asWord] ++
    (c.key?.elim [] fun key => [.var key, .fatArrow]) ++ [.var c.item, .closeParen]

/-- The tokens of a binding. -/
def Binding.spelling (b : Binding) : List Token :=
  [.var b.var, .equals, .var "this", .arrow, .word "_component", .openBracket,
    .quoted b.component, .closeBracket]

/-! ## Clauses -/

theorem bind_eq_ok_iff {α β ε : Type} {x : Except ε α} {f : α → Except ε β} {b : β} :
    x >>= f = .ok b ↔ ∃ a, x = .ok a ∧ f a = .ok b := by
  cases x <;> simp [bind, Except.bind]

namespace Remaining

variable {r r' : Remaining}

/-- The tokens that are left, without their places. -/
def words (r : Remaining) : List Token := r.tokens.map Prod.fst

theorem exists_of_words_eq_cons (h : r.words = t :: ws) :
    ∃ span rest, r.tokens = (t, span) :: rest ∧ rest.map Prod.fst = ws := by
  obtain ⟨⟨u, span⟩, rest, htokens, rfl, hrest⟩ := List.map_eq_cons_iff.mp h
  exact ⟨span, rest, htokens, hrest⟩

theorem refuse_ne_ok {α : Type} (expected : List Expected) (a : α) :
    r.refuse expected ≠ .ok a := by
  intro h
  unfold refuse at h
  split at h <;> cases h

theorem words_of_token (h : r.token t = .ok r') : r.words = t :: r'.words := by
  unfold token at h
  split at h
  · next hr =>
    split at h
    · next ht =>
      obtain rfl := Except.ok.inj h
      rw [words, hr, List.map_cons, ht]
      rfl
    · exact absurd h (refuse_ne_ok _ _)
  · exact absurd h (refuse_ne_ok _ _)

theorem exists_token (h : r.words = t :: ws) : ∃ r', r.token t = .ok r' ∧ r'.words = ws := by
  obtain ⟨span, rest, htokens, hrest⟩ := exists_of_words_eq_cons h
  refine ⟨{ r with tokens := rest }, ?_, hrest⟩
  rw [token, htokens]
  exact if_pos rfl

theorem words_of_var (h : r.var = .ok (name, r')) : r.words = .var name :: r'.words := by
  unfold var at h
  split at h
  · next hr =>
    obtain ⟨rfl, rfl⟩ := Prod.mk.inj (Except.ok.inj h)
    rw [words, hr]
    rfl
  · exact absurd h (refuse_ne_ok _ _)

theorem exists_var (h : r.words = .var name :: ws) :
    ∃ r', r.var = .ok (name, r') ∧ r'.words = ws := by
  obtain ⟨span, rest, htokens, hrest⟩ := exists_of_words_eq_cons h
  refine ⟨{ r with tokens := rest }, ?_, hrest⟩
  rw [var, htokens]

/-- Behind the first variable the clause ends, or that variable was the key and another one
follows. -/
theorem clauseEnd_eq_ok_iff : r.clauseEnd list first = .ok c ↔
    (c = ⟨list, none, first⟩ ∧ ∃ rest, r.words = .closeParen :: rest) ∨
      ∃ item, c = ⟨list, some first, item⟩ ∧
        ∃ rest, r.words = .fatArrow :: .var item :: .closeParen :: rest := by
  constructor
  · intro h
    unfold clauseEnd at h
    split at h
    · next rest hr =>
      refine .inl ⟨(Except.ok.inj h).symm, rest.map Prod.fst, ?_⟩
      rw [words, hr]
      rfl
    · next rest hr =>
      obtain ⟨⟨item, r₁⟩, hitem, h⟩ := bind_eq_ok_iff.mp h
      obtain ⟨r₂, hclose, h⟩ := bind_eq_ok_iff.mp h
      refine .inr ⟨item, (Except.ok.inj h).symm, r₂.words, ?_⟩
      rw [← words_of_token hclose, ← words_of_var hitem, words, hr]
      rfl
    · exact absurd h (refuse_ne_ok _ _)
  · rintro (⟨rfl, rest, h⟩ | ⟨item, rfl, rest, h⟩)
    · obtain ⟨span, rest, htokens, -⟩ := exists_of_words_eq_cons h
      rw [clauseEnd, htokens]
    · obtain ⟨span, rest, htokens, hrest⟩ := exists_of_words_eq_cons h
      obtain ⟨r₁, hitem, hr₁⟩ := exists_var (r := { r with tokens := rest }) hrest
      obtain ⟨r₂, hclose, -⟩ := exists_token hr₁
      rw [clauseEnd, htokens]
      exact bind_eq_ok_iff.mpr ⟨_, hitem, bind_eq_ok_iff.mpr ⟨_, hclose, rfl⟩⟩

/-- **A clause is read behind its keyword exactly if its tokens stand there.** -/
theorem clause_eq_ok_iff :
    r.clause = .ok c ↔ ∃ rest, .foreachWord :: r.words = c.spelling ++ rest := by
  constructor
  · intro h
    obtain ⟨r₁, hopen, h⟩ := bind_eq_ok_iff.mp h
    obtain ⟨⟨list, r₂⟩, hlist, h⟩ := bind_eq_ok_iff.mp h
    obtain ⟨r₃, has, h⟩ := bind_eq_ok_iff.mp h
    obtain ⟨⟨first, r₄⟩, hfirst, h⟩ := bind_eq_ok_iff.mp h
    rw [words_of_token hopen, words_of_var hlist, words_of_token has, words_of_var hfirst]
    rcases clauseEnd_eq_ok_iff.mp h with ⟨rfl, rest, hrest⟩ | ⟨item, rfl, rest, hrest⟩
    · exact ⟨rest, by rw [hrest]; rfl⟩
    · exact ⟨rest, by rw [hrest]; rfl⟩
  · rintro ⟨rest, h⟩
    obtain ⟨list, key?, item⟩ := c
    obtain ⟨-, h⟩ := List.cons.inj h
    obtain ⟨r₁, hopen, hr₁⟩ := exists_token h
    obtain ⟨r₂, hlist, hr₂⟩ := exists_var hr₁
    obtain ⟨r₃, has, hr₃⟩ := exists_token hr₂
    -- Whether the next variable is the key or the item shows behind it.
    have hlast : ∃ first r₄, r₃.var = .ok (first, r₄) ∧
        r₄.clauseEnd list first = .ok ⟨list, key?, item⟩ := by
      cases key? with
      | none =>
        obtain ⟨r₄, hitem, hr₄⟩ := exists_var hr₃
        exact ⟨item, r₄, hitem, clauseEnd_eq_ok_iff.mpr (.inl ⟨rfl, rest, hr₄⟩)⟩
      | some key =>
        obtain ⟨r₄, hkey, hr₄⟩ := exists_var hr₃
        exact ⟨key, r₄, hkey, clauseEnd_eq_ok_iff.mpr (.inr ⟨item, rfl, rest, hr₄⟩)⟩
    obtain ⟨first, r₄, hfirst, hend⟩ := hlast
    exact bind_eq_ok_iff.mpr ⟨_, hopen, bind_eq_ok_iff.mpr ⟨_, hlist,
      bind_eq_ok_iff.mpr ⟨_, has, bind_eq_ok_iff.mpr ⟨_, hfirst, hend⟩⟩⟩⟩

end Remaining

/-- The tokens of a line, without their places. -/
def words (line : String) : List Token := (tokens line).map Prod.fst

/-- The tokens of a line from its first keyword on. -/
def loopWords (line : String) : List Token := (words line).dropWhile (· != .foreachWord)

theorem loopWords_eq_nil_iff {line : String} : loopWords line = [] ↔ .foreachWord ∉ words line := by
  rw [loopWords, List.dropWhile_eq_nil_iff]
  constructor
  · intro h hmem
    simpa using h _ hmem
  · intro h t ht
    exact bne_iff_ne.mpr fun he => h (he ▸ ht)

/-- A line without the keyword has no clause; otherwise the clause is read behind the first one. -/
theorem clauseOf_cases (line : String) :
    (loopWords line = [] ∧ clauseOf line = .error (.absent, ⟨0, line.utf8ByteSize⟩)) ∨
      ∃ r : Remaining, loopWords line = .foreachWord :: r.words ∧ clauseOf line = r.clause := by
  have hloop : loopWords line = ((tokens line).dropWhile (·.1 != .foreachWord)).map Prod.fst := by
    rw [loopWords, words, List.dropWhile_map]
    rfl
  unfold clauseOf
  split
  · next h =>
    have hnone : (tokens line).dropWhile (·.1 != .foreachWord) = [] := h
    exact .inl ⟨by rw [hloop, hnone]; rfl, rfl⟩
  · next keyword rest h =>
    have hfound : (tokens line).dropWhile (·.1 != .foreachWord) = keyword :: rest := h
    refine .inr ⟨_, ?_, rfl⟩
    have hkeyword := List.head?_dropWhile_not (·.1 != .foreachWord) (tokens line)
    rw [hfound] at hkeyword
    rw [hloop, hfound, List.map_cons, bne_eq_false_iff_eq.mp hkeyword]
    rfl

theorem clauseOf_eq_ok_iff {line : String} :
    clauseOf line = .ok c ↔ c.spelling <+: loopWords line := by
  rcases clauseOf_cases line with ⟨hnil, hclause⟩ | ⟨r, hwords, hclause⟩
  · rw [hclause, hnil, List.prefix_nil]
    exact iff_of_false (fun h => nomatch h) (List.cons_ne_nil _ _)
  · rw [hclause, hwords, Remaining.clause_eq_ok_iff]
    exact exists_congr fun rest => eq_comm

/-- Behind a keyword every fault is about what stands there. -/
theorem unexpected_of_clause {r : Remaining} {fault : ClauseFault} {span : Span}
    (h : r.clause = .error (fault, span)) :
    ∃ found expected, fault = .unexpected found expected := by
  have hmeets : Meets (fun e => ∃ found expected, e.1 = .unexpected found expected)
      (fun _ => True) r.clause :=
    Remaining.meets_clause ⟨fun _ _ _ => ⟨_, _, rfl⟩, fun _ => ⟨_, _, rfl⟩⟩
  rwa [h] at hmeets

theorem clauseOf_eq_absent_iff {line : String} :
    (∃ span, clauseOf line = .error (.absent, span)) ↔ .foreachWord ∉ words line := by
  rw [← loopWords_eq_nil_iff]
  rcases clauseOf_cases line with ⟨hnil, hclause⟩ | ⟨r, hwords, hclause⟩
  · exact iff_of_true ⟨_, hclause⟩ hnil
  · refine iff_of_false ?_ (hwords ▸ List.cons_ne_nil _ _)
    rintro ⟨span, habsent⟩
    obtain ⟨found, expected, he⟩ := unexpected_of_clause (hclause.symm.trans habsent)
    cases he

theorem clauseOf_eq_unexpected_iff {line : String} :
    (∃ found expected span, clauseOf line = .error (.unexpected found expected, span)) ↔
      .foreachWord ∈ words line ∧ ∀ c : Clause, ¬ c.spelling <+: loopWords line := by
  constructor
  · rintro ⟨found, expected, span, h⟩
    have hmem : ¬ .foreachWord ∉ words line := by
      intro hmem
      obtain ⟨span', habsent⟩ := clauseOf_eq_absent_iff.mpr hmem
      rw [h] at habsent
      cases habsent
    refine ⟨Classical.not_not.mp hmem, ?_⟩
    intro c hc
    rw [clauseOf_eq_ok_iff.mpr hc] at h
    cases h
  · rintro ⟨hmem, hnone⟩
    cases h : clauseOf line with
    | ok c => exact absurd (clauseOf_eq_ok_iff.mp h) (hnone c)
    | error e =>
      obtain ⟨fault, span⟩ := e
      cases fault with
      | absent => exact absurd hmem (clauseOf_eq_absent_iff.mp ⟨span, h⟩)
      | unexpected found expected => exact ⟨found, expected, span, rfl⟩

/-! ## Bindings -/

theorem bindingAt?_eq_some_iff : bindingAt? ts = some b ↔ b.spelling <+: ts := by
  constructor
  · intro h
    unfold bindingAt? at h
    split at h
    · next name this property component rest =>
      split at h
      · next hnames =>
        obtain ⟨rfl, rfl⟩ := hnames
        obtain rfl := Option.some.inj h
        exact ⟨rest, rfl⟩
      · cases h
    · cases h
  · rintro ⟨rest, rfl⟩
    simp [bindingAt?, Binding.spelling]

theorem bindingAt?_eq_none_iff : bindingAt? ts = none ↔ ∀ b : Binding, ¬ b.spelling <+: ts := by
  rw [Option.eq_none_iff_forall_ne_some]
  exact forall_congr' fun b => not_congr bindingAt?_eq_some_iff

/-- **The leftmost binding is found.** -/
theorem firstBinding?_eq_some_iff : firstBinding? ts = some b ↔
    ∃ n, b.spelling <+: ts.drop n ∧ ∀ m < n, ∀ b' : Binding, ¬ b'.spelling <+: ts.drop m := by
  induction ts with
  | nil => simp [firstBinding?, Binding.spelling]
  | cons t ts ih =>
    rw [firstBinding?]
    cases hhead : bindingAt? (t :: ts) with
    | some b₀ =>
      have hb₀ := bindingAt?_eq_some_iff.mp hhead
      rw [Option.some_or, Option.some_inj]
      constructor
      · rintro rfl
        exact ⟨0, hb₀, fun m hm => absurd hm (Nat.not_lt_zero m)⟩
      · rintro ⟨n, hn, hleast⟩
        obtain rfl : n = 0 := Nat.eq_zero_of_not_pos fun hpos => hleast 0 hpos b₀ hb₀
        exact Option.some.inj (hhead.symm.trans (bindingAt?_eq_some_iff.mpr hn))
    | none =>
      have hnone := bindingAt?_eq_none_iff.mp hhead
      rw [Option.none_or, ih]
      constructor
      · rintro ⟨n, hn, hleast⟩
        refine ⟨n + 1, hn, fun m hm => ?_⟩
        cases m with
        | zero => exact hnone
        | succ m => exact hleast m (Nat.lt_of_succ_lt_succ hm)
      · rintro ⟨n, hn, hleast⟩
        cases n with
        | zero => exact absurd hn (hnone b)
        | succ n => exact ⟨n, hn, fun m hm => hleast (m + 1) (Nat.succ_lt_succ hm)⟩

theorem firstBinding?_eq_none_iff :
    firstBinding? ts = none ↔ ∀ n, ∀ b : Binding, ¬ b.spelling <+: ts.drop n := by
  induction ts with
  | nil => simp [firstBinding?, Binding.spelling]
  | cons t ts ih =>
    rw [firstBinding?, Option.or_eq_none_iff, bindingAt?_eq_none_iff, ih]
    constructor
    · rintro ⟨hhead, htail⟩ n
      cases n with
      | zero => exact hhead
      | succ n => exact htail n
    · intro h
      exact ⟨h 0, fun n => h (n + 1)⟩

/-! ## Exactness -/

/-- **Clauses and bindings are read exactly from their spellings.** A line without the keyword lacks
a clause; one whose tokens from the first keyword on begin with the spelling of a clause has that
one, whatever follows; any other has a fault. A line has the binding whose spelling stands leftmost
among its tokens, and none exactly if no spelling stands there. -/
theorem clauseOf_and_bindingIn?_exact (line : String) :
    ((∃ span, clauseOf line = .error (.absent, span)) ↔ .foreachWord ∉ words line) ∧
      (∀ c, clauseOf line = .ok c ↔ c.spelling <+: loopWords line) ∧
      ((∃ found expected span, clauseOf line = .error (.unexpected found expected, span)) ↔
        .foreachWord ∈ words line ∧ ∀ c : Clause, ¬ c.spelling <+: loopWords line) ∧
      (∀ b, bindingIn? line = some b ↔ ∃ n, b.spelling <+: (words line).drop n ∧
        ∀ m < n, ∀ b' : Binding, ¬ b'.spelling <+: (words line).drop m) ∧
      (bindingIn? line = none ↔ ∀ n, ∀ b : Binding, ¬ b.spelling <+: (words line).drop n) :=
  ⟨clauseOf_eq_absent_iff, fun _ => clauseOf_eq_ok_iff, clauseOf_eq_unexpected_iff,
    fun _ => firstBinding?_eq_some_iff, firstBinding?_eq_none_iff⟩

/-- A key in front of the arrow, and a rest that is no part of the clause. -/
example : clauseOf "@p|before = foreach ($list as $i => $p) \x7b $q" =
    .ok ⟨"list", some "i", "p"⟩ := by
  decide +kernel

/-- The second variable is the one that is bound. -/
example : bindingIn? "$a = $list = $this->_component['products'] ?? [];" =
    some ⟨"list", "products"⟩ := by
  decide +kernel

end Stencil.Script
