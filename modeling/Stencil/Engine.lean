import Stencil.Component.Stamping
import Stencil.Config
import Stencil.Script.Expansion
import Stencil.Store

/-!
# The template engine

An engine holds a configuration, a store of template texts and a registry of component data. It
renders a text in the dialect that the text asks for; only component templates look at the path,
which decides between HTML and XML.
-/

namespace Stencil

/-- Why a template cannot be rendered. -/
inductive RenderFault where
  | load (fault : LoadFault)
  | markup (fault : Xml.Fault)
  deriving Repr, DecidableEq

/-- The wording of a render fault. -/
def RenderFault.message : RenderFault → String
  | .load fault => fault.message
  | .markup fault => fault.message

/-- The kind of markup of a component template at a path. -/
def Config.mode (c : Config) (p : Path) : Mode := if c.isXml p then .xml else .html

/-- Render a template text. -/
def renderSource (c : Config) (source : String) (p : Path) (registry : Registry) :
    Except Xml.Fault String :=
  match Dialect.ofText source with
  | .componentLoop => Component.render registry source (c.mode p)
  | .ruleScript => Script.render registry source

/-- Render a template text that has no path. -/
def render (source : String) (registry : Registry) : Except Xml.Fault String :=
  renderSource .standard source "" registry

/-- A template engine. -/
structure Engine where
  config : Config
  store : Store
  registry : Registry
  deriving Inhabited

/-- The numbers of cached templates, of registered components and of reads. -/
structure CacheStats where
  templates : Nat
  componentData : Nat
  reads : Nat
  deriving Repr, DecidableEq

namespace Engine

/-- An engine without cached templates. -/
def new (config : Config) (registry : Registry) : Engine :=
  ⟨config, .new config.root?, registry⟩

/-- Replace the records of a component. -/
def setData (e : Engine) (name : String) (records : List Record) : Engine :=
  { e with registry := e.registry.set name records }

/-- Forget the records of a component. -/
def removeData (e : Engine) (name : String) : Engine :=
  { e with registry := e.registry.remove name }

/-- Replace the whole registry. -/
def setRegistry (e : Engine) (registry : Registry) : Engine := { e with registry }

/-- The text of a template. -/
def source (e : Engine) (files : Files) (p : Path) : Except LoadFault String × Engine :=
  let (result, store) := e.store.load files p
  (result, { e with store })

/-- Render a template with some registry. -/
def renderWith (e : Engine) (files : Files) (p : Path) (registry : Registry) :
    Except RenderFault String × Engine :=
  match e.source files p with
  | (.ok text, e) => ((renderSource e.config text p registry).mapError .markup, e)
  | (.error fault, e) => (.error (.load fault), e)

/-- Render a template with the registry of the engine. -/
def render (e : Engine) (files : Files) (p : Path) : Except RenderFault String × Engine :=
  e.renderWith files p e.registry

/-- Forget all cached templates. -/
def clearCache (e : Engine) : Engine := { e with store := e.store.clear }

/-- The state of the cache. -/
def stats (e : Engine) : CacheStats := ⟨e.store.size, e.registry.size, e.store.reads⟩

end Engine

end Stencil
