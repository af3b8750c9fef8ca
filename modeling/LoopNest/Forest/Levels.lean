import LoopNest.Forest.Basic

/-! Levels of loops: the depth below the root and the height of the tree below each loop. -/

namespace LoopNest.LoopStore

/-- The height of a loop, read off the heights of the loops directly inside it. -/
def heightOver (store : LoopStore) (inner : List LoopRef) : Int :=
  inner.foldl (fun height ref => max height (1 + (store.loop ref).height)) 0

/-- Assigns levels to a loop and all loops below it: first its depth, then the loops inside it
in order, one level deeper, and last its height. A loop that is met again keeps the depth of
the last meeting. The budget bounds how deep the descent goes.
-/
def descend (forest : ForestRef)
    : (budget : Nat) → LoopRef → (depth : Int) → LoopStore → LoopStore
  | 0, _, _, store => store
  | budget + 1, ref, depth, store =>
      let placed := store.update ref fun loop => { loop with depth }
      let below := (placed.inner forest ref).foldl
        (fun store child => descend forest budget child (depth + 1) store) placed
      let height := below.heightOver (below.inner forest ref)
      below.update ref fun loop => { loop with height }

/-- Hangs loose loops below the forest's root and assigns levels from there. Loops nested
without a circle go no deeper than there are loops.
-/
def assignLevels (store : LoopStore) (forest : ForestRef) : LoopStore :=
  let rooted := store.graftAll forest
  descend forest (rooted.loops.size + 1) (rooted.forest forest).root 0 rooted

end LoopNest.LoopStore
