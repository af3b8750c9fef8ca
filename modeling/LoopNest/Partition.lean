/-! Partitions of the numbers below a size into sets, each with a representative. Links lead
from an element towards the representative of its set, which is linked to itself.
-/

namespace LoopNest

/-- A partition, given by the link of each element. An element outside the table is linked to
itself.
-/
structure Partition where
  links : Array Nat := #[]
deriving Repr, DecidableEq, Inhabited

namespace Partition

/-- The partition of the numbers below `size` into sets of one element. -/
def singletons (size : Nat) : Partition :=
  ⟨Array.range size⟩

/-- The number of elements. -/
def size (sets : Partition) : Nat :=
  sets.links.size

/-- The element that an element is linked to. -/
def parent (sets : Partition) (x : Nat) : Nat :=
  sets.links.getD x x

/-- Follows links from an element until one that is linked to itself, at most `steps` times. -/
def climb (sets : Partition) : (steps x : Nat) → Nat
  | 0, x => x
  | steps + 1, x => if sets.parent x = x then x else sets.climb steps (sets.parent x)

/-- The elements passed on the way up, from the given one to the last below the top. -/
def trail (sets : Partition) : (steps x : Nat) → List Nat
  | 0, _ => []
  | steps + 1, x =>
      if sets.parent x = x then [] else x :: sets.trail steps (sets.parent x)

/-- The representative of an element's set. Links without a circle lead to it in fewer steps
than there are elements.
-/
def representative (sets : Partition) (x : Nat) : Nat :=
  sets.climb sets.size x

/-- Links every listed element to the target. -/
def relink (sets : Partition) (elements : List Nat) (target : Nat) : Partition :=
  ⟨elements.foldl (fun links x => links.setIfInBounds x target) sets.links⟩

/-- The representative of an element's set, and the partition in which all elements passed on
the way are linked to it directly.
-/
def find (sets : Partition) (x : Nat) : Nat × Partition :=
  let top := sets.representative x
  (top, sets.relink (sets.trail sets.size x) top)

/-- The representative of an element of the table, with the shortened links; `none` for a
number outside the table.
-/
def find? (sets : Partition) (x : Nat) : Option (Nat × Partition) :=
  if x < sets.size then some (sets.find x) else none

/-- Links an element to another, so that the set it represents joins the other's set. -/
def union (sets : Partition) (x target : Nat) : Partition :=
  ⟨sets.links.setIfInBounds x target⟩

/-- Adds an element in a set of its own. -/
def push (sets : Partition) : Partition :=
  ⟨sets.links.push sets.size⟩

@[simp]
theorem size_union (sets : Partition) (x target : Nat)
    : (sets.union x target).size = sets.size := by
  simp [union, size]

@[simp]
theorem size_relink (sets : Partition) (elements : List Nat) (target : Nat)
    : (sets.relink elements target).size = sets.size := by
  suffices keeps : ∀ links : Array Nat,
      (elements.foldl (fun links x => links.setIfInBounds x target) links).size
        = links.size from keeps sets.links
  induction elements with
  | nil => exact fun _ => rfl
  | cons x rest ih =>
      intro links
      simpa using ih (links.setIfInBounds x target)

@[simp]
theorem size_find (sets : Partition) (x : Nat) : (sets.find x).2.size = sets.size :=
  size_relink _ _ _

/-- Only the united element gets a new link. Witness: reading an array after one write. -/
theorem parent_union {sets : Partition} {x : Nat} (known : x < sets.size) (target y : Nat)
    : (sets.union x target).parent y = if y = x then target else sets.parent y := by
  by_cases same : y = x
  · subst same
    simp [union, parent, Array.getD_eq_getD_getElem?, show y < sets.links.size from known]
  · have apart : x ≠ y := fun h => same h.symm
    simp [union, parent, Array.getD_eq_getD_getElem?, same,
      Array.getElem?_setIfInBounds_ne apart]

/-- The listed elements of the table get the new link, and no others. Witness: induction on the
list, one write at a time.
-/
theorem parent_relink (sets : Partition) (elements : List Nat) (target y : Nat)
    : (sets.relink elements target).parent y
      = if y ∈ elements ∧ y < sets.size then target else sets.parent y := by
  induction elements generalizing sets with
  | nil => simp [relink]
  | cons x rest ih =>
      have step : sets.relink (x :: rest) target = (sets.union x target).relink rest target :=
        rfl
      rw [step, ih, size_union]
      by_cases known : x < sets.size
      · rw [parent_union known]
        by_cases same : y = x
        · subst same
          simp [known]
        · simp [same]
      · have unchanged : sets.union x target = sets := by
          simp [union, Array.setIfInBounds, show ¬ x < sets.links.size from known]
        rw [unchanged]
        by_cases same : y = x
        · subst same
          simp [known]
        · simp [same]

/-- An element linked to itself is its own representative. Witness: the first step of the
climb.
-/
theorem representative_of_parent_eq {sets : Partition} {x : Nat} (top : sets.parent x = x)
    : sets.representative x = x := by
  unfold representative
  cases sets.size with
  | zero => rfl
  | succ steps => simp [climb, top]

@[simp]
theorem parent_singletons (size x : Nat) : (singletons size).parent x = x := by
  by_cases known : x < size
  · simp [singletons, parent, Array.getD_eq_getD_getElem?, known]
  · simp [singletons, parent, Array.getD_eq_getD_getElem?, known]

end Partition

end LoopNest
