import Std.Data.TreeSet

/-! Lists of distinct keys in the order they first came. -/

namespace LoopNest

/-- Distinct keys in the order they were first inserted, with the set of them beside. -/
structure KeyList where
  items : Array Int := #[]
  members : Std.TreeSet Int := ∅
  mem_iff : ∀ key, key ∈ members ↔ key ∈ items := by simp

namespace KeyList

/-- No keys. -/
def empty : KeyList :=
  {}

/-- Whether the key was inserted. -/
def contains (list : KeyList) (key : Int) : Bool :=
  list.members.contains key

/-- Inserts a key at the end, unless it is there. -/
def insert (list : KeyList) (key : Int) : KeyList :=
  if list.contains key then list
  else
    { items := list.items.push key
      members := list.members.insert key
      mem_iff := by
        intro other
        rw [Std.TreeSet.mem_insert, Array.mem_push, list.mem_iff, Std.compare_eq_iff_eq,
          or_comm, eq_comm] }

/-- Containing a key is having it as an item. Witness: the set and the items agree. -/
theorem contains_iff (list : KeyList) (key : Int)
    : list.contains key = true ↔ key ∈ list.items := by
  rw [contains, Std.TreeSet.contains_iff_mem, list.mem_iff]

/-- Only a new key is added, and it comes last. -/
theorem items_insert (list : KeyList) (key : Int)
    : (list.insert key).items
      = if key ∈ list.items then list.items else list.items.push key := by
  unfold insert
  by_cases known : key ∈ list.items
  · rw [if_pos known, if_pos ((list.contains_iff key).mpr known)]
  · rw [if_neg known, if_neg fun h => known ((list.contains_iff key).mp h)]

end KeyList

end LoopNest
