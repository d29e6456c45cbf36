import Mathlib.Algebra.GroupWithZero.Nat
import Mathlib.Data.List.Dedup
import Mathlib.Data.List.Perm.Lattice
import Stencil.Proofs.Files.Path
import Stencil.Store

/-!
# A store through a run

A run loads paths and clears the store while the files change from outside. `History` keeps the
loads since the last clear beside the store, each with what reading its file gave at that moment,
and the sizes that clearing has found. What the store holds under a place is the text of the first
load that succeeded there (`Coherent`), so every later answer is that text, whatever was done to
the file.
-/

namespace Stencil.Store

/-! ## Runs -/

/-- What happens to a store and to the files under it. -/
inductive Action where
  | load (p : Path)
  | clear
  | change (read : Path → Except FileFault String)

/-- A load: the place that was asked for, what its file gave then, and the answer. -/
structure Loading where
  key : String
  file : Except FileFault String
  answer : Except LoadFault String
  deriving DecidableEq

/-- Whether a load gave a text. -/
def Loading.succeeded (l : Loading) : Bool := l.answer.toBool

/-- A store, the files, the loads since the store was last cleared, and the sizes it had each time
before it was cleared. -/
structure History where
  store : Store
  files : Files
  loads : List Loading
  cleared : List Nat

namespace History

/-- Nothing has happened. -/
def start (root? : Option Path) (files : Files) : History := ⟨.new root?, files, [], []⟩

/-- The resolved form of a path. -/
def target (h : History) (p : Path) : Path := h.store.resolve h.files.current p

/-- The place that a path means. -/
def place (h : History) (p : Path) : String := (h.target p).key

/-- A load as it would go now. -/
def loading (h : History) (p : Path) : Loading where
  key := h.place p
  file := h.files.read (h.target p)
  answer := (h.store.load h.files p).1

def step (h : History) : Action → History
  | .load p => { h with store := (h.store.load h.files p).2, loads := h.loads ++ [h.loading p] }
  | .clear => { h with store := h.store.clear, loads := [], cleared := h.cleared ++ [h.store.size] }
  | .change read => { h with files := { h.files with read } }

def run (h : History) (actions : List Action) : History := actions.foldl step h

/-- The first load of a place that succeeded. -/
def first? (h : History) (key : String) : Option Loading :=
  h.loads.find? fun l => l.key == key && l.succeeded

/-- The places that were loaded, each once. -/
def places (h : History) : List String := ((h.loads.filter (·.succeeded)).map (·.key)).dedup

end History

variable {s s' : Store} {files : Files} {p : Path} {h : History} {l : Loading}
  {key text : String} {actions more : List Action}

/-! ## One load -/

/-- A load finds the text in the store, or reads it and keeps it, or cannot read it. -/
theorem History.load_cases (h : History) (p : Path) :
    (∃ text, Keyed.get? h.store.texts (h.place p) = some text
      ∧ h.store.load h.files p = (.ok text, h.store))
    ∨ (∃ text, Keyed.get? h.store.texts (h.place p) = none ∧ h.files.read (h.target p) = .ok text
      ∧ h.store.load h.files p = (.ok text, { h.store with
          texts := Keyed.insert h.store.texts (h.place p) text
          reads := h.store.reads + 1 }))
    ∨ (∃ fault, Keyed.get? h.store.texts (h.place p) = none
      ∧ h.files.read (h.target p) = .error fault
      ∧ h.store.load h.files p = (.error ⟨h.target p, fault⟩, h.store)) := by
  rw [place, target]
  cases hget : Keyed.get? h.store.texts (h.store.resolve h.files.current p).key with
  | some text => exact .inl ⟨text, rfl, by simp only [load, hget]⟩
  | none =>
    cases hread : h.files.read (h.store.resolve h.files.current p) with
    | ok text => exact .inr (.inl ⟨text, rfl, rfl, by simp only [load, hget, hread]⟩)
    | error fault => exact .inr (.inr ⟨fault, rfl, rfl, by simp only [load, hget, hread]⟩)

/-- A resolved path resolves to itself. -/
theorem resolve_resolve {current : Path} (s : Store) (hcurrent : current.IsCanonical) (p : Path) :
    s.resolve current (s.resolve current p) = s.resolve current p := by
  cases hroot : s.root? with
  | none =>
    simp only [resolve, hroot]
    exact Path.absolute_absolute hcurrent p
  | some root =>
    simp only [resolve, hroot]
    cases hjoin : (root.join p).isEmpty with
    | true =>
      obtain ⟨rfl, rfl⟩ := Path.join_eq_empty hjoin
      rfl
    | false =>
      have hform := Path.isAbsoluteForm_absolute hcurrent hjoin
      rw [Path.join_of_isAbsolute root hform.isAbsolute, hform.absolute_eq]

/-! ## What the store holds -/

/-- How the store agrees with what happened. -/
structure History.Coherent (h : History) : Prop where
  some_of_first : ∀ {key l}, h.first? key = some l →
    ∃ text, l.file = .ok text ∧ Keyed.get? h.store.texts key = some text
  none_of_first : ∀ {key}, h.first? key = none → Keyed.get? h.store.texts key = none
  answer : ∀ {l text}, l ∈ h.loads → l.answer = .ok text →
    Keyed.get? h.store.texts l.key = some text
  nodup : (Keyed.keys h.store.texts).Nodup
  reads : h.store.reads = h.store.size + h.cleared.sum

namespace History

theorem coherent_start (root? : Option Path) (files : Files) : (start root? files).Coherent where
  some_of_first h := by cases h
  none_of_first _ := rfl
  answer h := by cases h
  nodup := List.nodup_nil
  reads := rfl

@[simp] theorem key_loading (h : History) (p : Path) : (h.loading p).key = h.place p := rfl

theorem first?_step_load (h : History) (p : Path) (key : String) :
    (h.step (.load p)).first? key
      = (h.first? key).or
          (if h.place p = key ∧ (h.loading p).succeeded then some (h.loading p) else none) := by
  have hloads : (h.step (.load p)).loads = h.loads ++ [h.loading p] := rfl
  rw [first?, hloads, List.find?_append, ← first?]
  congr 1
  by_cases hnew : h.place p = key ∧ (h.loading p).succeeded
  · rw [if_pos hnew, List.find?_cons_of_pos]
    simpa using hnew
  · rw [if_neg hnew, List.find?_cons_of_neg, List.find?_nil]
    simpa using hnew

theorem mem_loads_step_load (hl : l ∈ (h.step (.load p)).loads) :
    l ∈ h.loads ∨ l = h.loading p :=
  (List.mem_append.mp hl).imp_right List.mem_singleton.mp

/-- A load that leaves the store as it was and is not the first to succeed at its place. -/
theorem Coherent.step_load_of_eq (hc : h.Coherent)
    (hstore : (h.store.load h.files p).2 = h.store)
    (hfirst : ∀ key, (h.step (.load p)).first? key = h.first? key)
    (hanswer : ∀ text, (h.loading p).answer = .ok text →
      Keyed.get? h.store.texts (h.place p) = some text) :
    (h.step (.load p)).Coherent := by
  have hstore' : (h.step (.load p)).store = h.store := hstore
  constructor
  case some_of_first =>
    intro key l hl
    rw [hstore']
    exact hc.some_of_first ((hfirst key).symm.trans hl)
  case none_of_first =>
    intro key hl
    rw [hstore']
    exact hc.none_of_first ((hfirst key).symm.trans hl)
  case answer =>
    intro l text hl htext
    rw [hstore']
    rcases mem_loads_step_load hl with hl | rfl
    · exact hc.answer hl htext
    · exact hanswer text htext
  case nodup =>
    rw [hstore']
    exact hc.nodup
  case reads =>
    rw [hstore']
    exact hc.reads

/-- A load that reads a file is the first to succeed at its place. -/
theorem Coherent.first?_step_load_of_read (hc : h.Coherent)
    (hget : Keyed.get? h.store.texts (h.place p) = none)
    (hload : h.store.load h.files p = (.ok text, s')) (key : String) :
    (h.step (.load p)).first? key
      = if h.place p = key then some (h.loading p) else h.first? key := by
  have hsucceeds : (h.loading p).succeeded = true := by
    rw [Loading.succeeded, loading, hload]
    rfl
  rw [first?_step_load]
  by_cases hkey : h.place p = key
  · have hold : h.first? key = none := by
      cases hold : h.first? key with
      | none => rfl
      | some l =>
        obtain ⟨text', -, hsome⟩ := hc.some_of_first hold
        rw [← hkey, hget] at hsome
        cases hsome
    rw [if_pos ⟨hkey, hsucceeds⟩, if_pos hkey, hold, Option.none_or]
  · rw [if_neg fun hnew => hkey hnew.1, if_neg hkey, Option.or_none]

theorem Coherent.step_load_of_read (hc : h.Coherent)
    (hget : Keyed.get? h.store.texts (h.place p) = none)
    (hread : h.files.read (h.target p) = .ok text)
    (hload : h.store.load h.files p = (.ok text, { h.store with
      texts := Keyed.insert h.store.texts (h.place p) text
      reads := h.store.reads + 1 })) :
    (h.step (.load p)).Coherent := by
  have hfirst := hc.first?_step_load_of_read hget hload
  have hstore : (h.step (.load p)).store = { h.store with
      texts := Keyed.insert h.store.texts (h.place p) text
      reads := h.store.reads + 1 } := congrArg Prod.snd hload
  have hself : Keyed.get? (h.step (.load p)).store.texts (h.place p) = some text := by
    rw [hstore]
    exact Keyed.get?_insert_self ..
  have hother : ∀ {key}, key ≠ h.place p →
      Keyed.get? (h.step (.load p)).store.texts key = Keyed.get? h.store.texts key := by
    intro key hkey
    rw [hstore]
    exact Keyed.get?_insert_of_ne _ _ hkey
  have hkeys : (Keyed.keys (h.step (.load p)).store.texts).Perm
      (h.place p :: Keyed.keys h.store.texts) := by
    rw [hstore]
    exact Keyed.perm_keys_insert _ hget
  constructor
  case some_of_first =>
    intro key l hl
    rw [hfirst] at hl
    by_cases hkey : h.place p = key
    · rw [if_pos hkey] at hl
      obtain rfl := Option.some.inj hl
      exact ⟨text, hread, hkey ▸ hself⟩
    · rw [if_neg hkey] at hl
      rw [hother (Ne.symm hkey)]
      exact hc.some_of_first hl
  case none_of_first =>
    intro key hl
    rw [hfirst] at hl
    by_cases hkey : h.place p = key
    · rw [if_pos hkey] at hl
      cases hl
    · rw [if_neg hkey] at hl
      rw [hother (Ne.symm hkey)]
      exact hc.none_of_first hl
  case answer =>
    intro l text' hl hanswer
    rcases mem_loads_step_load hl with hl | rfl
    · have hsome := hc.answer hl hanswer
      have hne : l.key ≠ h.place p := by
        intro hkey
        rw [hkey, hget] at hsome
        cases hsome
      rw [hother hne, hsome]
    · rw [loading, hload] at hanswer
      rw [key_loading, hself, Except.ok.inj hanswer]
  case nodup =>
    refine hkeys.nodup_iff.mpr (List.nodup_cons.mpr ⟨?_, hc.nodup⟩)
    rw [Keyed.mem_keys_iff, hget]
    exact Bool.false_ne_true
  case reads =>
    have hsize : (h.step (.load p)).store.size = h.store.size + 1 := by
      have hlength := hkeys.length_eq
      rwa [Keyed.keys, List.length_map, List.length_cons, Keyed.keys, List.length_map] at hlength
    have hreads : (h.step (.load p)).store.reads = h.store.reads + 1 := by rw [hstore]
    rw [hreads, hsize, hc.reads]
    exact Nat.add_right_comm ..

theorem Coherent.step (hc : h.Coherent) (a : Action) : (h.step a).Coherent := by
  cases a with
  | load p =>
    rcases h.load_cases p with
      ⟨text, hget, hload⟩ | ⟨text, hget, hread, hload⟩ | ⟨fault, hget, hread, hload⟩
    · refine hc.step_load_of_eq (congrArg Prod.snd hload) (fun key => ?_) fun text' htext => ?_
      · rw [first?_step_load]
        cases hold : h.first? key with
        | some l => rfl
        | none =>
          -- the place has a text, so another load was the first there
          have hne : h.place p ≠ key := by
            rintro rfl
            rw [hc.none_of_first hold] at hget
            cases hget
          rw [if_neg fun hnew => hne hnew.1, Option.or_none]
      · rw [loading, hload] at htext
        rw [hget, Except.ok.inj htext]
    · exact hc.step_load_of_read hget hread hload
    · have hfails : (h.loading p).succeeded = false := by
        rw [Loading.succeeded, loading, hload]
        rfl
      refine hc.step_load_of_eq (congrArg Prod.snd hload) (fun key => ?_) fun text' htext => ?_
      · rw [first?_step_load, if_neg (by simp [hfails]), Option.or_none]
      · rw [loading, hload] at htext
        cases htext
  | clear =>
    constructor
    case some_of_first =>
      intro key l hl
      cases hl
    case none_of_first =>
      intro key _
      rfl
    case answer =>
      intro l text hl
      cases hl
    case nodup =>
      exact List.nodup_nil
    case reads =>
      have hreads : (h.step .clear).store.reads = h.store.size + h.cleared.sum := hc.reads
      have hcleared : (h.step .clear).cleared = h.cleared ++ [h.store.size] := rfl
      have hsize : (h.step .clear).store.size = 0 := rfl
      rw [hreads, hcleared, hsize, List.sum_append, List.sum_singleton, Nat.zero_add, Nat.add_comm]
  | change read => exact ⟨hc.some_of_first, hc.none_of_first, hc.answer, hc.nodup, hc.reads⟩

theorem Coherent.run (hc : h.Coherent) (actions : List Action) : (h.run actions).Coherent := by
  induction actions generalizing h with
  | nil => exact hc
  | cons a actions ih => exact ih (hc.step a)

/-! ## Counting -/

theorem mem_places_iff (h : History) (key : String) : key ∈ h.places ↔ (h.first? key).isSome := by
  rw [places, List.mem_dedup, List.mem_map, first?, List.find?_isSome]
  constructor
  · rintro ⟨l, hl, rfl⟩
    obtain ⟨hmem, hsucceeded⟩ := List.mem_filter.mp hl
    exact ⟨l, hmem, by simpa using hsucceeded⟩
  · rintro ⟨l, hmem, hl⟩
    obtain ⟨hkey, hsucceeded⟩ : l.key = key ∧ l.succeeded = true := by simpa using hl
    exact ⟨l, List.mem_filter.mpr ⟨hmem, hsucceeded⟩, hkey⟩

/-- The store holds a text for each place that was loaded and for no other. -/
theorem Coherent.isSome_get?_iff (hc : h.Coherent) (key : String) :
    (Keyed.get? h.store.texts key).isSome ↔ (h.first? key).isSome := by
  cases hfirst : h.first? key with
  | none => simp [hc.none_of_first hfirst]
  | some l =>
    obtain ⟨text, -, hsome⟩ := hc.some_of_first hfirst
    simp [hsome]

theorem Coherent.size_eq (hc : h.Coherent) : h.store.size = h.places.length := by
  have hperm : (Keyed.keys h.store.texts).Perm h.places := by
    refine (List.perm_ext_iff_of_nodup hc.nodup (List.nodup_dedup _)).mpr fun key => ?_
    rw [Keyed.mem_keys_iff, hc.isSome_get?_iff, ← places, mem_places_iff]
  rw [← hperm.length_eq, Keyed.keys, List.length_map, size]

theorem reads_le_step (h : History) (a : Action) : h.store.reads ≤ (h.step a).store.reads := by
  cases a with
  | load p =>
    show h.store.reads ≤ (h.store.load h.files p).2.reads
    rcases h.load_cases p with ⟨_, -, hload⟩ | ⟨_, -, -, hload⟩ | ⟨_, -, -, hload⟩
    · rw [hload]
    · rw [hload]
      exact Nat.le_succ _
    · rw [hload]
  | clear => exact Nat.le_refl _
  | change read => exact Nat.le_refl _

theorem reads_le_run (h : History) (actions : List Action) :
    h.store.reads ≤ (h.run actions).store.reads := by
  induction actions generalizing h with
  | nil => exact Nat.le_refl _
  | cons a actions ih => exact (reads_le_step h a).trans (ih (h.step a))

theorem current_run (h : History) (actions : List Action) :
    (h.run actions).files.current = h.files.current := by
  induction actions generalizing h with
  | nil => rfl
  | cons a actions ih =>
    have hstep : (h.step a).files.current = h.files.current := by cases a <;> rfl
    exact (ih (h.step a)).trans hstep

/-! ## Answers -/

/-- A text that was answered is what the file gave when its place was first loaded. -/
theorem Coherent.exists_first (hc : h.Coherent) (hl : l ∈ h.loads) (hanswer : l.answer = .ok text) :
    ∃ first, h.first? l.key = some first ∧ first.file = .ok text := by
  have hget := hc.answer hl hanswer
  cases hfirst : h.first? l.key with
  | none =>
    rw [hc.none_of_first hfirst] at hget
    cases hget
  | some first =>
    obtain ⟨text', hfile, hsome⟩ := hc.some_of_first hfirst
    rw [hget] at hsome
    exact ⟨first, rfl, hfile.trans (congrArg _ (Option.some.inj hsome).symm)⟩

/-- A load that fails leaves the store alone: its file cannot be read, and its place is new. -/
theorem Coherent.of_load_eq_error {fault : LoadFault} (hc : h.Coherent)
    (hload : h.store.load h.files p = (.error fault, s')) :
    s' = h.store ∧ fault.path = h.target p ∧ h.files.read (h.target p) = .error fault.fault
      ∧ h.first? (h.place p) = none := by
  rcases h.load_cases p with ⟨_, -, hcase⟩ | ⟨_, -, -, hcase⟩ | ⟨fault', hget, hread, hcase⟩
  · rw [hcase] at hload
    cases hload
  · rw [hcase] at hload
    cases hload
  · rw [hcase] at hload
    cases hload
    refine ⟨rfl, rfl, hread, Option.not_isSome_iff_eq_none.mp fun hsome => ?_⟩
    rw [← hc.isSome_get?_iff, hget] at hsome
    cases hsome

/-- A place that was loaded is answered again, from the store alone. -/
theorem Coherent.exists_load (hc : h.Coherent) (hl : l ∈ h.loads) (hsucceeded : l.succeeded)
    (hp : h.place p = l.key) : ∃ text, h.store.load h.files p = (.ok text, h.store) := by
  obtain ⟨text, htext⟩ : ∃ text, l.answer = .ok text := by
    cases hanswer : l.answer with
    | ok text => exact ⟨text, rfl⟩
    | error fault =>
      rw [Loading.succeeded, hanswer] at hsucceeded
      cases hsucceeded
  have hget := hc.answer hl htext
  rcases h.load_cases p with ⟨text', -, hcase⟩ | ⟨_, hnone, -⟩ | ⟨_, hnone, -⟩
  · exact ⟨text', hcase⟩
  · rw [hp, hget] at hnone
    cases hnone
  · rw [hp, hget] at hnone
    cases hnone

/-- A path and its resolved form are the same to the store. -/
theorem load_target (h : History) (hcanonical : h.files.current.IsCanonical) (p : Path) :
    h.store.resolve h.files.current (h.target p) = h.target p
      ∧ h.store.load h.files (h.target p) = h.store.load h.files p := by
  have hresolve : h.store.resolve h.files.current (h.target p) = h.target p :=
    resolve_resolve h.store hcanonical p
  refine ⟨hresolve, ?_⟩
  simp only [load, hresolve]
  rfl

/-! ## The epoch cache -/

/-- **A store answers from one epoch.** Whatever was loaded, cleared and changed:
the answer of each load since the last clear is the text that the file had when its place was first
loaded; a load fails only where nothing was loaded, and leaves the store as it was; the size is the
number of places that were loaded; the reads are the size and the sizes that clearing has found;
and a path means the same as its resolved form. -/
theorem epoch_cache (root? : Option Path) (files : Files) (actions : List Action) :
    let h := (start root? files).run actions
    (∀ l ∈ h.loads, ∀ text, l.answer = .ok text →
      ∃ first, h.first? l.key = some first ∧ first.file = .ok text)
    ∧ (∀ p fault s', h.store.load h.files p = (.error fault, s') →
      s' = h.store ∧ fault.path = h.target p ∧ h.files.read (h.target p) = .error fault.fault
        ∧ h.first? (h.place p) = none)
    ∧ (∀ l ∈ h.loads, l.succeeded → ∀ p, h.place p = l.key →
      ∃ text, h.store.load h.files p = (.ok text, h.store))
    ∧ h.store.size = h.places.length
    ∧ (h.store.isEmpty ↔ h.store.size = 0)
    ∧ h.store.reads = h.store.size + h.cleared.sum
    ∧ (∀ more, h.store.reads ≤ (h.run more).store.reads)
    ∧ (files.current.IsCanonical → ∀ p,
      h.store.resolve files.current (h.target p) = h.target p
        ∧ h.store.load h.files (h.target p) = h.store.load h.files p) := by
  intro h
  have hc : h.Coherent := (coherent_start root? files).run actions
  have hcurrent : h.files.current = files.current := current_run _ actions
  exact ⟨fun l hl text htext => hc.exists_first hl htext,
    fun p fault s' hload => hc.of_load_eq_error hload,
    fun l hl hsucceeded p hp => hc.exists_load hl hsucceeded hp,
    hc.size_eq, List.isEmpty_iff_length_eq_zero, hc.reads, h.reads_le_run,
    fun hcanonical p => hcurrent ▸ h.load_target (hcurrent ▸ hcanonical) p⟩

/-- One page, seen from its directory's parent. -/
def onePage : Files where
  current := "/srv"
  read p := if p = "/srv/views/a.html" then .ok "one" else .error .notFound

/-- The page is read, forgotten and read again, and asked for once more when it is gone. -/
def visits : List Action :=
  [.load "a.html", .clear, .load "a.html", .change fun _ => .error .notFound,
    .load "/srv/views//a.html"]

theorem epoch_cache_visits :
    let h := (start (some "views") onePage).run visits
    (∃ first, h.first? "/srv/views/a.html" = some first ∧ first.file = .ok "one")
    ∧ (h.store.load h.files "b.html").2 = h.store
    ∧ (∃ text, h.store.load h.files "./a.html" = (.ok text, h.store))
    ∧ h.store.size = 1 ∧ h.store.reads = h.store.size + [1].sum
    ∧ h.store.load h.files (h.target "a.html/") = h.store.load h.files "a.html/" := by
  intro h
  have hcache := epoch_cache (some "views") onePage visits
  have hrun : (start (some "views") onePage).run visits = h := rfl
  rw [hrun] at hcache
  obtain ⟨hanswer, hfails, hstays, hsize, -, hreads, -, hresolve⟩ := hcache
  have hlast : ⟨"/srv/views/a.html", .error .notFound, .ok "one"⟩ ∈ h.loads := by decide +kernel
  have hmissing : (h.store.load h.files "b.html").1
      = .error ⟨"/srv/views/b.html", .notFound⟩ := by decide +kernel
  have hplace : h.place "./a.html" = "/srv/views/a.html" := by decide +kernel
  have hplaces : h.places.length = 1 := by decide +kernel
  have hcleared : h.cleared = [1] := by decide +kernel
  have hcurrent : onePage.current.IsCanonical := ⟨by decide +kernel, by decide +kernel⟩
  clear_value h
  refine ⟨hanswer _ hlast _ rfl, (hfails _ _ _ (Prod.ext hmissing rfl)).1,
    hstays _ hlast rfl "./a.html" hplace, hsize.trans hplaces, ?_, (hresolve hcurrent "a.html/").2⟩
  rw [← hcleared]
  exact hreads

end History

end Stencil.Store
