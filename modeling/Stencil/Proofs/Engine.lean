import Mathlib.Logic.Function.Basic
import Stencil.Engine
import Stencil.Proofs.Store

/-!
# An engine through a run

A run sets data, renders and clears while the files change from outside. To its users an engine is
an `Ideal`: its configuration, a registry and an epoch, the texts that were read since the cache was
cleared in the order of their reading. `Represents` ties an engine to its ideal. Every action gives
the same answer on both and keeps the tie (`Represents.step`), so whole runs answer alike
(`Represents.run`), and what holds of every ideal holds of every engine that a run leads to.

Only the registry actions touch the registry, and as a map from names to records it is what the last
write of each name left (`get?_foldl_register`); rendering looks at nothing else of it
(`renderSource_eq_of_get?`).
-/

namespace Stencil

/-! ## Rendering looks a registry up and no more -/

variable {r r' : Registry}

theorem Component.render_eq_of_get? (h : r.get? = r'.get?) (source : String) (mode : Mode) :
    Component.render r source mode = Component.render r' source mode := by
  have hrecords : ∀ m, records r m = records r' m := by
    intro m
    rw [records, records, h]
  have hstamp : ∀ d root m, stamp r d root m = stamp r' d root m := by
    intro d root m
    rw [stamp, stamp, hrecords]
  simp only [Component.render, process, hstamp]

theorem Script.render_eq_of_get? (h : r.get? = r'.get?) (source : String) :
    Script.render r source = Script.render r' source := by
  have hitems : ∀ p, itemsOf p r = itemsOf p r' := by
    intro p
    rw [itemsOf, itemsOf, h]
  have hexpand : ∀ p aliases d, expand p aliases r d = expand p aliases r' d := by
    intro p aliases d
    rw [expand, expand, hitems]
  simp only [Script.render, hexpand]

/-- Registries with the same records under the same names render alike. -/
theorem renderSource_eq_of_get? (h : r.get? = r'.get?) (c : Config) (source : String) (p : Path) :
    renderSource c source p r = renderSource c source p r' := by
  unfold renderSource
  cases Dialect.ofText source with
  | componentLoop => exact Component.render_eq_of_get? h source (c.mode p)
  | ruleScript => exact Script.render_eq_of_get? h source

namespace Engine

/-! ## Runs -/

/-- What happens to an engine and to the files under it. -/
inductive Action where
  | setData (name : String) (records : List Record)
  | removeData (name : String)
  | setRegistry (registry : Registry)
  | source (p : Path)
  | render (p : Path)
  | renderWith (p : Path) (registry : Registry)
  | renderSource (text : String) (p : Path) (registry : Registry)
  | clearCache
  | stats
  | change (read : Path → Except FileFault String)

/-- What an engine says to an action. -/
inductive Answer where
  | done
  | text (result : Except LoadFault String)
  | rendered (result : Except RenderFault String)
  | stats (s : CacheStats)

/-- What an action does to a registry. -/
def Action.register : Action → Registry → Registry
  | .setData name records, r => r.set name records
  | .removeData name, r => r.remove name
  | .setRegistry registry, _ => registry
  | _, r => r

/-- What an action does to a map from names to records: the last write of a name wins. -/
def Action.record : Action → (String → Option (List Record)) → String → Option (List Record)
  | .setData name records, m => Function.update m name (some records)
  | .removeData name, m => Function.update m name none
  | .setRegistry registry, _ => registry.get?
  | _, m => m

/-- Whether an action is about the registry. -/
def Action.registers : Action → Bool
  | .setData _ _ | .removeData _ | .setRegistry _ => true
  | _ => false

/-- The answers to a list of actions, and the state that they lead to. -/
def run {State : Type} (step : State → Action → Answer × State) (s : State) :
    List Action → List Answer × State
  | [] => ([], s)
  | a :: actions =>
    let (answer, s) := step s a
    let (answers, s) := run step s actions
    (answer :: answers, s)

/-- A template text as it is rendered, or why there is none. -/
def rendered (c : Config) (p : Path) (registry : Registry) :
    Except LoadFault String → Except RenderFault String
  | .ok text => (Stencil.renderSource c text p registry).mapError .markup
  | .error fault => .error (.load fault)

/-- An engine and the files under it. -/
structure Session where
  engine : Engine
  files : Files

namespace Session

/-- An engine without cached templates. -/
def start (config : Config) (registry : Registry) (files : Files) : Session :=
  ⟨.new config registry, files⟩

def step (s : Session) : Action → Answer × Session
  | .setData name records => (.done, { s with engine := s.engine.setData name records })
  | .removeData name => (.done, { s with engine := s.engine.removeData name })
  | .setRegistry registry => (.done, { s with engine := s.engine.setRegistry registry })
  | .source p =>
    let (result, engine) := s.engine.source s.files p
    (.text result, { s with engine })
  | .render p =>
    let (result, engine) := s.engine.render s.files p
    (.rendered result, { s with engine })
  | .renderWith p registry =>
    let (result, engine) := s.engine.renderWith s.files p registry
    (.rendered result, { s with engine })
  | .renderSource text p registry => (.rendered (rendered s.engine.config p registry (.ok text)), s)
  | .clearCache => (.done, { s with engine := s.engine.clearCache })
  | .stats => (.stats s.engine.stats, s)
  | .change read => (.done, { s with files := { s.files with read } })

end Session

/-! ## The ideal engine -/

/-- An engine as its users see it: the places and texts that were read since the cache was cleared,
and the number of reads before that. -/
structure Ideal where
  config : Config
  registry : Registry
  files : Files
  epoch : List (String × String)
  earlier : Nat

namespace Ideal

/-- Nothing has happened. -/
def start (config : Config) (registry : Registry) (files : Files) : Ideal :=
  ⟨config, registry, files, [], 0⟩

/-- The resolved form of a path. -/
def target (i : Ideal) (p : Path) : Path := (Store.new i.config.root?).resolve i.files.current p

/-- The text that was read at a place. -/
def known? (i : Ideal) (key : String) : Option String :=
  (i.epoch.find? fun entry => entry.1 == key).map Prod.snd

/-- The text of a template: what was read at its place in this epoch, or else what its file gives
now. -/
def text (i : Ideal) (p : Path) : Except LoadFault String :=
  match i.known? (i.target p).key with
  | some text => .ok text
  | none => (i.files.read (i.target p)).mapError fun fault => ⟨i.target p, fault⟩

/-- What asking for a template leaves: its text belongs to the epoch, if there is one. -/
def visit (i : Ideal) (p : Path) : Ideal :=
  match i.known? (i.target p).key, i.files.read (i.target p) with
  | none, .ok text => { i with epoch := i.epoch ++ [((i.target p).key, text)] }
  | _, _ => i

def stats (i : Ideal) : CacheStats :=
  ⟨i.epoch.length, i.registry.size, i.earlier + i.epoch.length⟩

def step (i : Ideal) : Action → Answer × Ideal
  | .source p => (.text (i.text p), i.visit p)
  | .render p => (.rendered (rendered i.config p i.registry (i.text p)), i.visit p)
  | .renderWith p registry => (.rendered (rendered i.config p registry (i.text p)), i.visit p)
  | .renderSource text p registry => (.rendered (rendered i.config p registry (.ok text)), i)
  | .clearCache => (.done, { i with epoch := [], earlier := i.earlier + i.epoch.length })
  | .stats => (.stats i.stats, i)
  | .change read => (.done, { i with files := { i.files with read } })
  | a => (.done, { i with registry := a.register i.registry })

end Ideal

variable {e e' : Engine} {files : Files} {p : Path} {s : Session} {i : Ideal} {registry : Registry}

/-! ## One action -/

/-- Rendering is asking for the text, and then rendering it. -/
theorem renderWith_eq (e : Engine) (files : Files) (p : Path) (registry : Registry) :
    e.renderWith files p registry =
      (rendered e.config p registry (e.source files p).1, (e.source files p).2) := by
  rw [renderWith]
  cases h : e.source files p with
  | mk result e' =>
    -- the text is rendered under the configuration of the engine that is left
    have hconfig : e'.config = e.config := by
      rw [show e' = (e.source files p).2 by rw [h]]
      rfl
    cases result with
    | ok text => rw [← hconfig]; rfl
    | error fault => rfl

/-- Asking for a text that cannot be read leaves the engine as it was. -/
theorem source_of_error {fault : LoadFault} (h : (e.source files p).1 = .error fault) :
    (e.source files p).2 = e := by
  obtain ⟨config, store, registry⟩ := e
  have hstore : (store.load files p).2 = store := by
    let here : Store.History := ⟨store, files, [], []⟩
    rcases here.load_cases p with
      ⟨text, -, hload⟩ | ⟨text, -, -, hload⟩ | ⟨fault', -, -, hload⟩
    · rw [hload]
    · rw [source, hload] at h
      cases h
    · rw [hload]
  show Engine.mk config (store.load files p).2 registry = _
  rw [hstore]

/-- Only the registry actions touch the registry. -/
theorem Session.registry_step (s : Session) (a : Action) :
    (s.step a).2.engine.registry = a.register s.engine.registry := by
  cases a with
  | render p =>
    show (s.engine.render s.files p).2.registry = _
    rw [render, renderWith_eq]
    rfl
  | renderWith p registry =>
    show (s.engine.renderWith s.files p registry).2.registry = _
    rw [renderWith_eq]
    rfl
  | _ => rfl

theorem Session.config_step (s : Session) (a : Action) :
    (s.step a).2.engine.config = s.engine.config := by
  cases a with
  | render p =>
    show (s.engine.render s.files p).2.config = _
    rw [render, renderWith_eq]
    rfl
  | renderWith p registry =>
    show (s.engine.renderWith s.files p registry).2.config = _
    rw [renderWith_eq]
    rfl
  | _ => rfl

theorem Action.get?_register (r : Registry) (a : Action) :
    (a.register r).get? = a.record r.get? := by
  funext name
  cases a with
  | setData key records =>
    show Keyed.get? (Keyed.insert r.components key records) name = _
    by_cases h : name = key
    · subst h
      rw [Keyed.get?_insert_self, record, Function.update_self]
    · rw [Keyed.get?_insert_of_ne _ _ h, record, Function.update_of_ne h]
      rfl
  | removeData key =>
    show Keyed.get? (Keyed.erase r.components key) name = _
    by_cases h : name = key
    · subst h
      rw [Keyed.get?_erase_self, record, Function.update_self]
    · rw [Keyed.get?_erase_of_ne _ h, record, Function.update_of_ne h]
      rfl
  | _ => rfl

theorem Action.register_of_not_registers {a : Action} (h : a.registers = false) (r : Registry) :
    a.register r = r := by
  cases a <;> first | rfl | cases h

theorem Session.step_of_registers {a : Action} (h : a.registers) (s : Session) :
    (s.step a).2 =
      { s with engine := { s.engine with registry := a.register s.engine.registry } } := by
  cases a with
  | setData name records => rfl
  | removeData name => rfl
  | setRegistry registry => rfl
  | _ => cases h

/-! ## Many actions -/

theorem config_run (s : Session) (actions : List Action) :
    (run Session.step s actions).2.engine.config = s.engine.config := by
  induction actions generalizing s with
  | nil => rfl
  | cons a actions ih => exact (ih (s.step a).2).trans (s.config_step a)

theorem registry_run (s : Session) (actions : List Action) :
    (run Session.step s actions).2.engine.registry =
      actions.foldl (fun r a => a.register r) s.engine.registry := by
  induction actions generalizing s with
  | nil => rfl
  | cons a actions ih =>
    rw [List.foldl_cons, ← s.registry_step a]
    exact ih (s.step a).2

/-- The records of a name are what the last write of that name left. -/
theorem get?_foldl_register (r : Registry) (actions : List Action) :
    (actions.foldl (fun r a => a.register r) r).get? =
      actions.foldl (fun m a => a.record m) r.get? := by
  induction actions generalizing r with
  | nil => rfl
  | cons a actions ih => rw [List.foldl_cons, List.foldl_cons, ih, Action.get?_register]

/-! ## An engine and its ideal -/

/-- How an engine represents its ideal. -/
structure Represents (s : Session) (i : Ideal) : Prop where
  config : s.engine.config = i.config
  registry : s.engine.registry = i.registry
  files : s.files = i.files
  root : s.engine.store.root? = i.config.root?
  get? : ∀ key, Keyed.get? s.engine.store.texts key = i.known? key
  size : s.engine.store.size = i.epoch.length
  reads : s.engine.store.reads = i.earlier + i.epoch.length

theorem represents_start (config : Config) (registry : Registry) (files : Files) :
    Represents (.start config registry files) (.start config registry files) where
  config := rfl
  registry := rfl
  files := rfl
  root := rfl
  get? _ := rfl
  size := rfl
  reads := rfl

namespace Represents

theorem stats (h : Represents s i) : s.engine.stats = i.stats := by
  rw [Engine.stats, Ideal.stats, h.size, h.registry, h.reads]

theorem target (h : Represents s i) (p : Path) :
    s.engine.store.resolve s.files.current p = i.target p := by
  rw [Ideal.target, Store.resolve, Store.resolve, h.root, h.files]
  rfl


/-- A text that is new to the epoch is found at its place, and the others are found as before. -/
theorem known?_append {key : String} (hnew : i.known? key = none) (text other : String) :
    { i with epoch := i.epoch ++ [(key, text)] }.known? other =
      if other = key then some text else i.known? other := by
  have happend : { i with epoch := i.epoch ++ [(key, text)] }.known? other =
      (i.known? other).or (([(key, text)].find? fun entry => entry.1 == other).map Prod.snd) := by
    rw [Ideal.known?, List.find?_append, Option.map_or]
    rfl
  rw [happend]
  by_cases hother : other = key
  · subst hother
    rw [if_pos rfl, hnew, Option.none_or, List.find?_cons_of_pos]
    · rfl
    · exact beq_self_eq_true other
  · rw [if_neg hother, List.find?_cons_of_neg, List.find?_nil, Option.map_none, Option.or_none]
    intro hkey
    exact hother (beq_iff_eq.mp hkey).symm

/-- A text that is read comes into the store and into the epoch. -/
theorem read {key : String} (h : Represents s i) (hnew : i.known? key = none) (text : String) :
    Represents
      { s with engine := { s.engine with store := { s.engine.store with
          texts := Keyed.insert s.engine.store.texts key text
          reads := s.engine.store.reads + 1 } } }
      { i with epoch := i.epoch ++ [(key, text)] } := by
  have hlength : (i.epoch ++ [(key, text)]).length = i.epoch.length + 1 := List.length_append
  constructor
  case config => exact h.config
  case registry => exact h.registry
  case files => exact h.files
  case root => exact h.root
  case get? =>
    intro other
    rw [known?_append hnew]
    by_cases hother : other = key
    · subst hother
      rw [if_pos rfl]
      exact Keyed.get?_insert_self ..
    · rw [if_neg hother, ← h.get?]
      exact Keyed.get?_insert_of_ne _ _ hother
  case size =>
    have hkeys := (Keyed.perm_keys_insert text ((h.get? key).trans hnew)).length_eq
    rw [Keyed.keys, List.length_map, List.length_cons, Keyed.keys, List.length_map] at hkeys
    rw [hlength, ← h.size]
    exact hkeys
  case reads =>
    show s.engine.store.reads + 1 = i.earlier + _
    rw [hlength, h.reads]
    omega

/-- Asking for a text gives the same on both sides and keeps the tie. -/
theorem source (h : Represents s i) (p : Path) :
    (s.engine.source s.files p).1 = i.text p ∧
      Represents { s with engine := (s.engine.source s.files p).2 } (i.visit p) := by
  obtain ⟨engine, files⟩ := s
  obtain rfl : files = i.files := h.files
  let here : Store.History := ⟨engine.store, i.files, [], []⟩
  have htarget : here.target p = i.target p := h.target p
  have hplace : here.place p = (i.target p).key := congrArg Path.key htarget
  have hsource : engine.source i.files p = ((engine.store.load i.files p).1,
      { engine with store := (engine.store.load i.files p).2 }) := rfl
  have hcases := here.load_cases p
  rw [hplace, htarget, h.get?] at hcases
  rcases hcases with
    ⟨text, hknown, hload⟩ | ⟨text, hknown, hread, hload⟩ | ⟨fault, hknown, hread, hload⟩
  · rw [hsource, hload, Ideal.text, Ideal.visit, hknown]
    exact ⟨rfl, h⟩
  · rw [hsource, hload, Ideal.text, Ideal.visit, hknown, hread]
    exact ⟨rfl, h.read hknown text⟩
  · rw [hsource, hload, Ideal.text, Ideal.visit, hknown, hread]
    exact ⟨rfl, h⟩

theorem registered (h : Represents s i) (a : Action) :
    Represents { s with engine := { s.engine with registry := a.register s.engine.registry } }
      { i with registry := a.register i.registry } :=
  { h with registry := congrArg a.register h.registry }

/-- **Every action is answered alike.** -/
theorem step (h : Represents s i) (a : Action) :
    (s.step a).1 = (i.step a).1 ∧ Represents (s.step a).2 (i.step a).2 := by
  have hrenderWith : ∀ p registry,
      (s.engine.renderWith s.files p registry).1 = rendered i.config p registry (i.text p) ∧
        Represents { s with engine := (s.engine.renderWith s.files p registry).2 } (i.visit p) := by
    intro p registry
    obtain ⟨htext, hvisit⟩ := h.source p
    rw [renderWith_eq, htext, h.config]
    exact ⟨rfl, hvisit⟩
  cases a with
  | setData name records => exact ⟨rfl, h.registered (.setData name records)⟩
  | removeData name => exact ⟨rfl, h.registered (.removeData name)⟩
  | setRegistry registry => exact ⟨rfl, h.registered (.setRegistry registry)⟩
  | source p =>
    obtain ⟨htext, hvisit⟩ := h.source p
    exact ⟨congrArg Answer.text htext, hvisit⟩
  | render p =>
    obtain ⟨hanswer, hvisit⟩ := hrenderWith p s.engine.registry
    refine ⟨congrArg Answer.rendered (hanswer.trans ?_), hvisit⟩
    rw [h.registry]
  | renderWith p registry =>
    obtain ⟨hanswer, hvisit⟩ := hrenderWith p registry
    exact ⟨congrArg Answer.rendered hanswer, hvisit⟩
  | renderSource text p registry =>
    refine ⟨?_, h⟩
    show Answer.rendered (rendered s.engine.config p registry (.ok text)) = _
    rw [h.config]
    rfl
  | clearCache =>
    refine ⟨rfl, h.config, h.registry, h.files, h.root, fun _ => rfl, rfl, ?_⟩
    exact h.reads
  | stats => exact ⟨congrArg Answer.stats h.stats, h⟩
  | change read =>
    refine ⟨rfl, h.config, h.registry, ?_, h.root, h.get?, h.size, h.reads⟩
    show { s.files with read } = { i.files with read }
    rw [h.files]

theorem run (h : Represents s i) (actions : List Action) :
    (Engine.run Session.step s actions).1 = (Engine.run Ideal.step i actions).1 ∧
      Represents (Engine.run Session.step s actions).2 (Engine.run Ideal.step i actions).2 := by
  induction actions generalizing s i with
  | nil => exact ⟨rfl, h⟩
  | cons a actions ih =>
    obtain ⟨hanswer, hnext⟩ := h.step a
    obtain ⟨hanswers, hlast⟩ := ih hnext
    exact ⟨congrArg₂ List.cons hanswer hanswers, hlast⟩

end Represents

/-! ## The refinement -/

/-- **An engine is a registry beside an epoch cache.** Whatever was done to an engine and to the
files under it, it gave the answers of its ideal. Its configuration is the first one, its registry
holds the last write of each name, and the text of a template is what was first read at its place
since the cache was cleared. Rendering renders that text with the registry that holds now, of which
only the records by name count; it leaves the engine as asking for the text does, and as it was if
the text cannot be read. Registering is seen by the next rendering, nothing else touches the
registry, and clearing drops the templates and no other count. -/
theorem refines_registry_and_epoch (config : Config) (registry : Registry) (files : Files)
    (actions : List Action) :
    let s := (run Session.step (.start config registry files) actions).2
    let i := (run Ideal.step (.start config registry files) actions).2
    let e := s.engine
    (run Session.step (.start config registry files) actions).1 =
        (run Ideal.step (.start config registry files) actions).1
    ∧ e.config = config
    ∧ e.registry.get? = actions.foldl (fun m a => a.record m) registry.get?
    ∧ (∀ p, (e.source s.files p).1 = i.text p)
    ∧ (∀ p, e.render s.files p = e.renderWith s.files p e.registry)
    ∧ (∀ p g, e.renderWith s.files p g =
        (rendered config p g (e.source s.files p).1, (e.source s.files p).2))
    ∧ (∀ p g, g.get? = e.registry.get? → e.renderWith s.files p g = e.render s.files p)
    ∧ (∀ p g fault, (e.renderWith s.files p g).1 = .error (.load fault) →
        (e.renderWith s.files p g).2 = e)
    ∧ (∀ a, a.registers → ∀ p, ((s.step a).2.engine.render s.files p).1 =
        rendered config p (a.register e.registry) (e.source s.files p).1)
    ∧ (∀ a, a.registers = false → (s.step a).2.engine.registry = e.registry)
    ∧ (∀ a, (s.step a).2.engine.config = config)
    ∧ e.clearCache.stats = { e.stats with templates := 0 } := by
  intro s i e
  have hrun := (represents_start config registry files).run actions
  have hconfig : e.config = config := config_run _ actions
  have hrenderWith : ∀ p g, e.renderWith s.files p g =
      (rendered config p g (e.source s.files p).1, (e.source s.files p).2) := by
    intro p g
    rw [renderWith_eq, hconfig]
  refine ⟨hrun.1, hconfig, ?_, ?_, ?_, hrenderWith, ?_, ?_, ?_, ?_, ?_, rfl⟩
  · have hregistry : e.registry = actions.foldl (fun r a => a.register r) registry :=
      registry_run _ actions
    rw [hregistry, get?_foldl_register]
  · intro p
    exact (hrun.2.source p).1
  · intro p
    rfl
  · intro p g hg
    rw [render, hrenderWith, hrenderWith]
    cases (e.source s.files p).1 with
    | error fault => rfl
    | ok text => rw [rendered, rendered, renderSource_eq_of_get? hg]
  · intro p g fault hfault
    rw [hrenderWith] at hfault ⊢
    cases hsource : (e.source s.files p).1 with
    | error fault => exact source_of_error hsource
    | ok text =>
      rw [hsource, rendered] at hfault
      cases hrendered : Stencil.renderSource config text p g with
      | ok output =>
        rw [hrendered] at hfault
        cases hfault
      | error fault' =>
        rw [hrendered] at hfault
        cases hfault
  · intro a ha p
    rw [s.step_of_registers ha, render, renderWith_eq, hconfig]
    rfl
  · intro a ha
    rw [s.registry_step, Action.register_of_not_registers ha]
  · intro a
    exact (s.config_step a).trans hconfig

/-- One template that is no markup, seen from its directory. -/
def broken : Files where
  current := "/srv"
  read p := if p = "/srv/a.xml" then .ok "<a data-v-component-x>" else .error .notFound

/-- The template is rendered, and then it is gone. -/
def oneRender : List Action :=
  [.setData "x" [], .render "a.xml", .change fun _ => .error .notFound]

theorem refines_registry_and_epoch_broken :
    let s := (run Session.step (.start .standard .empty broken) oneRender).2
    let e := s.engine
    e.registry.get? "x" = some []
    ∧ (e.source s.files "a.xml").1 = .ok "<a data-v-component-x>"
    ∧ (e.renderWith s.files "a.xml" .empty).2 = (e.source s.files "a.xml").2
    ∧ (e.renderWith s.files "b.xml" .empty).2 = e
    ∧ ((s.step (.removeData "x")).2.engine.render s.files "a.xml").1 =
        rendered .standard "a.xml" (e.registry.remove "x") (.ok "<a data-v-component-x>")
    ∧ (s.step .clearCache).2.engine.registry = e.registry
    ∧ e.clearCache.stats = ⟨0, 1, 1⟩ := by
  intro s e
  obtain ⟨-, -, hregistry, htext, -, hrenderWith, -, hfails, hregisters, hstays, -, hclear⟩ :=
    refines_registry_and_epoch .standard .empty broken oneRender
  have hmissing : (e.renderWith s.files "b.xml" .empty).1 =
      .error (.load ⟨"/srv/b.xml", .notFound⟩) := by decide +kernel
  have hsource : (e.source s.files "a.xml").1 = .ok "<a data-v-component-x>" := by
    rw [htext]
    decide +kernel
  have hstats : e.stats = ⟨1, 1, 1⟩ := by decide +kernel
  refine ⟨?_, hsource, ?_, hfails _ _ _ hmissing, ?_, hstays _ rfl, ?_⟩
  · rw [hregistry]
    rfl
  · rw [hrenderWith]
  · rw [hregisters _ rfl, hsource]
    rfl
  · rw [hclear, hstats]

end Engine

end Stencil
