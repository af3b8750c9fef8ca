import LoopNest.Program.Describe

/-! Loops and the forests that hold them. Each forest has a root loop, which stands for the
whole program and heads nothing.
-/

namespace LoopNest

/-- A loop is named by its position in the store. -/
abbrev LoopRef := Nat

/-- A forest is named by its position in the store. -/
abbrev ForestRef := Nat

/-- A loop. Its blocks are its header and its members outside nested loops; the nested loops
are its children.
-/
structure Loop where
  counter : Int
  header : Option BlockRef := none
  blocks : Array BlockRef := #[]
  children : Array LoopRef := #[]
  parent : Option LoopRef := none
  /-- Whether the loop stands for a whole program and not for a cycle in it. -/
  synthetic : Bool := false
  /-- Whether the header is the only way in. -/
  reducible : Bool := true
  /-- The height of the tree of loops below this one. -/
  height : Int := 0
  /-- The distance from the root. -/
  depth : Int := 0
deriving Repr, DecidableEq, Inhabited

/-- A forest: its root, its loops in storage order with the root first, and the counter that
its next new loop gets.
-/
structure Forest where
  root : LoopRef := 0
  loops : Array LoopRef := #[]
  nextCounter : Nat := 1
deriving Repr, DecidableEq, Inhabited

/-- All loops and forests made so far. A loop may be stored in one forest, in several, twice in
one, or in none.
-/
structure LoopStore where
  loops : Array Loop := #[]
  forests : Array Forest := #[]
deriving Repr, DecidableEq, Inhabited

/-- A loop is reported by its counter, header and kind, unless it stands for a whole program. -/
def Program.describeLoop (program : Program) (loop : Loop) : String :=
  if loop.synthetic then "SimpleLoop(root)"
  else
    "SimpleLoop(" ++ toString loop.counter ++ ", header=" ++ program.describeBlock? loop.header
      ++ ", " ++ (if loop.reducible then "reducible" else "irreducible") ++ ")"

namespace LoopStore

/-- The loop behind a reference; an unused reference reads as an empty loop of counter zero. -/
def loop (store : LoopStore) (ref : LoopRef) : Loop :=
  store.loops.getD ref { counter := 0 }

/-- The forest behind a reference; an unused reference reads as a forest without loops. -/
def forest (store : LoopStore) (ref : ForestRef) : Forest :=
  store.forests.getD ref {}

/-- The loops directly inside a loop. Inside the forest's root these are the stored loops whose
parent it is, in storage order; inside any other loop, its children.
-/
def inner (store : LoopStore) (forest : ForestRef) (ref : LoopRef) : List LoopRef :=
  let whole := store.forest forest
  if ref = whole.root then
    whole.loops.toList.filter fun member => (store.loop member).parent == some whole.root
  else
    (store.loop ref).children.toList

/-- The first stored loop that lists the block. -/
def innermost? (store : LoopStore) (forest : ForestRef) (block : BlockRef)
    : Option LoopRef :=
  (store.forest forest).loops.toList.find? fun ref => (store.loop ref).blocks.contains block

/-- Changes one loop. -/
def update (store : LoopStore) (ref : LoopRef) (change : Loop → Loop) : LoopStore :=
  { store with loops := store.loops.modify ref change }

/-- Adds a loop that no forest stores. -/
def addLoop (store : LoopStore) (loop : Loop) : LoopStore × LoopRef :=
  let ref := store.loops.size
  ({ store with loops := store.loops.push loop }, ref)

/-- Adds a forest that stores a new root and nothing else. -/
def addForest (store : LoopStore) : LoopStore × ForestRef :=
  let (store, root) := store.addLoop { counter := 0, synthetic := true }
  let ref := store.forests.size
  ({ store with forests := store.forests.push { root, loops := #[root] } }, ref)

/-- Makes a loop with the forest's next counter. The forest does not store it yet. -/
def newLoop (store : LoopStore) (forest : ForestRef) : LoopStore × LoopRef :=
  let counter := (store.forest forest).nextCounter
  let (store, ref) := store.addLoop { counter }
  let count := fun (whole : Forest) => { whole with nextCounter := whole.nextCounter + 1 }
  ({ store with forests := store.forests.modify forest count }, ref)

/-- Stores a loop at the end of a forest. -/
def storeLoop (store : LoopStore) (forest : ForestRef) (ref : LoopRef) : LoopStore :=
  let enlist := fun (whole : Forest) => { whole with loops := whole.loops.push ref }
  { store with forests := store.forests.modify forest enlist }

/-- Appends a block to a loop's members. -/
def addMember (store : LoopStore) (ref : LoopRef) (block : BlockRef) : LoopStore :=
  store.update ref fun loop => { loop with blocks := loop.blocks.push block }

/-- Makes a block the header of a loop and appends it to the members. -/
def headBy (store : LoopStore) (ref : LoopRef) (block : BlockRef) : LoopStore :=
  store.update ref fun loop =>
    { loop with blocks := loop.blocks.push block, header := some block }

/-- Appends a loop to the children of another. -/
def addChild (store : LoopStore) (ref child : LoopRef) : LoopStore :=
  store.update ref fun loop => { loop with children := loop.children.push child }

/-- Makes a loop the parent of another, which joins its children. -/
def nest (store : LoopStore) (ref parent : LoopRef) : LoopStore :=
  (store.update ref fun loop => { loop with parent := some parent }).addChild parent ref

/-- Hangs a loop without parent below the root, unless it is the root. Only the loop learns of
it: the root's children stay as they are.
-/
def graft (store : LoopStore) (root ref : LoopRef) : LoopStore :=
  if (store.loop ref).parent.isNone ∧ ref ≠ root then
    store.update ref fun loop => { loop with parent := some root }
  else store

/-- Hangs every stored loop without parent below the forest's root. -/
def graftAll (store : LoopStore) (forest : ForestRef) : LoopStore :=
  let whole := store.forest forest
  whole.loops.toList.foldl (fun store ref => store.graft whole.root ref) store

end LoopStore

end LoopNest
