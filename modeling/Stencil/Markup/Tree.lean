import Stencil.Markup.Node

/-!
# Labelled trees

A `Tree` is a node value with a number that names it and a list of children. Everything is by
recursion on the tree, so that no operation can lose a node or make a cycle: a node has the parent
under which it stands, and at most that one as long as the numbers in a tree are distinct.
-/

namespace Stencil.Markup

/-- The number that names a node. -/
abbrev NodeId := Nat

/-- A node with its children. -/
inductive Tree where
  | node (id : NodeId) (value : Value) (children : List Tree)
  deriving Repr, Inhabited

namespace Tree

/-- The number of the root node. -/
def id : Tree → NodeId
  | node i _ _ => i

/-- The value of the root node. -/
def value : Tree → Value
  | node _ v _ => v

/-- The trees below the root node. -/
def children : Tree → List Tree
  | node _ _ cs => cs

/-- The element that the root node is. -/
def element? (t : Tree) : Option Element := t.value.element?

/-! ## Listing -/

mutual

/-- The tree and all trees inside it, each before the ones below it. -/
def preorder : Tree → List Tree
  | node i v cs => node i v cs :: preorderAll cs

/-- The trees of a list and all trees inside them, in order. -/
def preorderAll : List Tree → List Tree
  | [] => []
  | t :: ts => preorder t ++ preorderAll ts

end

/-- The trees strictly below the root node, in document order. -/
def descendants (t : Tree) : List Tree := preorderAll t.children

/-- The numbers in the tree, in document order. -/
def ids (t : Tree) : List NodeId := t.preorder.map id

/-- The numbers in a list of trees, in document order. -/
def idsAll (ts : List Tree) : List NodeId := (preorderAll ts).map id

/-- The text of all text nodes in the tree. -/
def textContent (t : Tree) : String :=
  String.join (t.preorder.filterMap fun u => u.value.text?)

/-! ## Finding -/

mutual

/-- The tree rooted at the node `i`. -/
def find? (i : NodeId) : Tree → Option Tree
  | node j v cs => if j = i then some (node j v cs) else findIn? i cs

/-- The first tree rooted at the node `i` inside a list of trees. -/
def findIn? (i : NodeId) : List Tree → Option Tree
  | [] => none
  | t :: ts => (find? i t).or (findIn? i ts)

end

/-- Whether the node `i` is in the tree. -/
def holds (t : Tree) (i : NodeId) : Bool := (t.find? i).isSome

/-- The number of the node whose child `i` is. -/
def parent? (t : Tree) (i : NodeId) : Option NodeId :=
  (t.preorder.find? fun u => u.children.any (·.id == i)).map id

/-! ## Changing -/

mutual

/-- Replace the tree rooted at the node `i` by its image. -/
def update (i : NodeId) (f : Tree → Tree) : Tree → Tree
  | node j v cs => if j = i then f (node j v cs) else node j v (updateAll i f cs)

/-- Replace the trees rooted at the node `i` inside a list of trees. -/
def updateAll (i : NodeId) (f : Tree → Tree) : List Tree → List Tree
  | [] => []
  | t :: ts => update i f t :: updateAll i f ts

end

mutual

/-- Take the node `i` and all below it out of the children of a tree. -/
def remove (i : NodeId) : Tree → Tree
  | node j v cs => node j v (removeAll i cs)

/-- Take the node `i` and all below it out of a list of trees. -/
def removeAll (i : NodeId) : List Tree → List Tree
  | [] => []
  | t :: ts => if t.id = i then removeAll i ts else remove i t :: removeAll i ts

end

/-- The tree with another value at its root. -/
def withValue (f : Value → Value) : Tree → Tree
  | node i v cs => node i (f v) cs

/-- The tree with other children. -/
def withChildren (f : List Tree → List Tree) : Tree → Tree
  | node i v cs => node i v (f cs)

mutual

/-- The same tree with its nodes numbered upward from `next` in document order, and the first
number that is still free. -/
def relabel : Tree → NodeId → Tree × NodeId
  | node _ v cs, next =>
    let (cs', free) := relabelAll cs (next + 1)
    (node next v cs', free)

/-- The same trees with their nodes numbered upward from `next` in document order. -/
def relabelAll : List Tree → NodeId → List Tree × NodeId
  | [], next => ([], next)
  | t :: ts, next =>
    let (t', mid) := relabel t next
    let (ts', free) := relabelAll ts mid
    (t' :: ts', free)

end

/-! ## Equations -/

/-- Induction over lists of trees: the list holds the children of its first tree and the trees
behind it. -/
@[elab_as_elim]
theorem listInduction {motive : List Tree → Prop} (nil : motive [])
    (cons : ∀ i v cs ts, motive cs → motive ts → motive (node i v cs :: ts)) :
    ∀ ts, motive ts
  | [] => nil
  | node i v cs :: ts => cons i v cs ts (listInduction nil cons cs) (listInduction nil cons ts)

@[simp] theorem id_node (i : NodeId) (v : Value) (cs : List Tree) : (node i v cs).id = i := rfl

@[simp] theorem value_node (i : NodeId) (v : Value) (cs : List Tree) :
    (node i v cs).value = v := rfl

@[simp] theorem children_node (i : NodeId) (v : Value) (cs : List Tree) :
    (node i v cs).children = cs := rfl

@[simp] theorem preorder_node (i : NodeId) (v : Value) (cs : List Tree) :
    (node i v cs).preorder = node i v cs :: preorderAll cs := rfl

@[simp] theorem preorderAll_nil : preorderAll [] = [] := rfl

@[simp] theorem preorderAll_cons (t : Tree) (ts : List Tree) :
    preorderAll (t :: ts) = t.preorder ++ preorderAll ts := rfl

@[simp] theorem ids_node (i : NodeId) (v : Value) (cs : List Tree) :
    (node i v cs).ids = i :: idsAll cs := by
  simp [ids, idsAll]

@[simp] theorem idsAll_nil : idsAll [] = [] := rfl

@[simp] theorem idsAll_cons (t : Tree) (ts : List Tree) :
    idsAll (t :: ts) = t.ids ++ idsAll ts := by
  simp [ids, idsAll]

@[simp] theorem idsAll_append (ts us : List Tree) :
    idsAll (ts ++ us) = idsAll ts ++ idsAll us := by
  induction ts with
  | nil => rfl
  | cons t ts ih => simp [ih]

theorem self_mem_preorder (t : Tree) : t ∈ t.preorder := by
  cases t
  simp

theorem id_mem_ids (t : Tree) : t.id ∈ t.ids := by
  cases t
  simp

end Tree

end Stencil.Markup
