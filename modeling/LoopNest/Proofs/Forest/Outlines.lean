import LoopNest.Proofs.Forest.Recording
import Mathlib.Data.List.Infix

/-! Outlines: loops with the loops they refer to named by their counters, so that forests of
different stores can be compared. The outlines of recorded loops depend on their regions alone, and
those of the first regions are the first outlines of all, cut off.
-/

namespace LoopNest

/-- A loop seen from outside its store. -/
structure Outline where
  counter : Int
  header : Option BlockRef
  blocks : List BlockRef
  children : List Int
  parent : Option Int
  synthetic : Bool
  reducible : Bool
  height : Int
  depth : Int
deriving Repr, DecidableEq

/-- The outline of a loop in a forest that is cut off after so many loops: a parent that is cut
off gives way to the root.
-/
def Outline.cut (size : Nat) (outline : Outline) : Outline :=
  { outline with
    parent := outline.parent.map fun counter => if counter < (size : Int) then counter else 0 }

namespace LoopStore

/-- The counter of a loop. -/
def counterOf (store : LoopStore) (ref : LoopRef) : Int :=
  (store.loop ref).counter

/-- The outline of a loop. -/
def outline (store : LoopStore) (ref : LoopRef) : Outline :=
  let loop := store.loop ref
  { loop with
    blocks := loop.blocks.toList
    children := loop.children.toList.map store.counterOf
    parent := loop.parent.map store.counterOf }

/-- The outlines of a forest's loops in storage order. -/
def outlines (store : LoopStore) (forest : ForestRef) : List Outline :=
  (store.forest forest).loops.toList.map store.outline

end LoopStore

/-- The outline of a new root. -/
def Outline.root : Outline :=
  { counter := 0, header := none, blocks := [], children := [], parent := none,
    synthetic := true, reducible := true, height := 0, depth := 0 }

/-- The counter of the first region's loop that nests the given one, or that of the root. -/
def nestingCounter (regions : List Region) (i : Nat) : Int :=
  match regions.findIdx? fun region => Part.loop i ∈ region.parts with
  | some j => (j + 1 : Nat)
  | none => 0

/-- The outline of a region's loop in a fresh forest. -/
def Region.outline (order : Array BlockRef) (regions : List Region) (i : Nat) (region : Region)
    : Outline :=
  { counter := (i + 1 : Nat)
    header := some (order.getD region.header 0)
    blocks := region.members order
    children := (region.nested 1).map Int.ofNat
    parent := some (nestingCounter regions i)
    synthetic := false
    reducible := region.reducible
    height := 0
    depth := 0 }

theorem Region.nested_eq_map (base : Nat) (region : Region)
    : region.nested base = (region.nested 0).map (base + ·) := by
  rw [nested, nested, List.map_filterMap]
  refine List.filterMap_congr fun part _ => ?_
  cases part with
  | block => rfl
  | loop index => simp [Part.loop?]

namespace LoopStore

variable {order : Array BlockRef} {regions more : List Region} {region : Region}
  {root : LoopRef} {store : LoopStore} {forest : ForestRef} {i : Nat}

theorem Grown.counterOf_eq (grown : Grown order regions root store forest)
    (inRange : i < regions.length)
    : store.counterOf (root + 1 + i) = (i + 1 : Nat) := by
  obtain ⟨_, -, loop_eq⟩ := grown.region_loop i _ (List.getElem?_eq_getElem inRange)
  rw [counterOf, loop_eq]
  rfl

theorem Grown.counterOf_root (grown : Grown order regions root store forest)
    : store.counterOf root = 0 := by
  rw [counterOf, grown.root_loop]

/-- The counter of a recorded loop's parent is that of the loop that nests it. -/
theorem Grown.counterOf_parent (grown : Grown order regions root store forest)
    (once : NestsOnce regions) {parent : Option LoopRef}
    (nestedBy : NestedBy (root + 1) regions (root + 1 + i) parent)
    : store.counterOf (parent.getD root) = nestingCounter regions i := by
  rw [nestingCounter]
  cases found : regions.findIdx? fun region => Part.loop i ∈ region.parts with
  | none =>
      rcases nestedBy.getD_cases root with isRoot | ⟨j, outer, foundOuter, nested, -⟩
      · rw [isRoot, grown.counterOf_root]
      · have unnested := List.findIdx?_eq_none_iff.mp found outer (List.mem_of_getElem? foundOuter)
        exact absurd nested (of_decide_eq_false unnested)
  | some j =>
      obtain ⟨inRange, nested, -⟩ := List.findIdx?_eq_some_iff_getElem.mp found
      have same := (nestedBy.getD_eq_iff once (Nat.lt_succ_self root)).mpr
        ⟨_, List.getElem?_eq_getElem inRange, of_decide_eq_true nested⟩
      rw [same, grown.counterOf_eq inRange]

theorem Grown.outline_eq (grown : Grown order regions root store forest)
    (earlier : NestsEarlier regions) (once : NestsOnce regions)
    (found : regions[i]? = some region)
    : store.outline (root + 1 + i) = region.outline order regions i := by
  obtain ⟨parent, nestedBy, loop_eq⟩ := grown.region_loop i region found
  have children_eq : (region.nested (root + 1)).map store.counterOf
      = (region.nested 1).map Int.ofNat := by
    rw [region.nested_eq_map, region.nested_eq_map 1, List.map_map, List.map_map]
    refine List.map_congr_left fun index listed => ?_
    have before := earlier.nested_lt found index listed
    rw [Nat.zero_add] at before
    have inRange := Nat.lt_trans before (List.getElem?_eq_some_iff.mp found).1
    rw [Function.comp_apply, grown.counterOf_eq inRange, Function.comp_apply, Nat.add_comm 1]
    rfl
  rw [outline, loop_eq]
  simp only [Region.toLoop, Region.outline, children_eq, Option.map_some,
    grown.counterOf_parent once nestedBy]

/-- The outlines of a forest that one sweep was recorded in. -/
theorem Grown.outlines_eq (grown : Grown order regions root store forest)
    (earlier : NestsEarlier regions) (once : NestsOnce regions)
    : store.outlines forest = .root :: regions.mapIdx (Region.outline order regions) := by
  rw [outlines, grown.loops_eq, List.range'_succ, List.map_cons]
  congr 1
  · rw [outline, grown.root_loop]
    rfl
  · refine List.ext_getElem (by simp) fun i inRange inRangeToo => ?_
    rw [List.getElem_map, List.getElem_range', Nat.one_mul, List.getElem_mapIdx]
    rw [List.length_mapIdx] at inRangeToo
    exact grown.outline_eq earlier once (List.getElem?_eq_getElem inRangeToo)

/-- A loop nested by one of the first regions is nested by it among all; any other is cut off from
the loop that nests it.
-/
theorem nestingCounter_cut (regions more : List Region) (i : Nat)
    : nestingCounter regions i
      = if nestingCounter (regions ++ more) i < ((regions.length + 1 : Nat) : Int)
        then nestingCounter (regions ++ more) i else 0 := by
  rw [nestingCounter, nestingCounter, List.findIdx?_append]
  cases found : regions.findIdx? fun region => Part.loop i ∈ region.parts with
  | some j =>
      have inRange := (List.findIdx?_eq_some_iff_getElem.mp found).1
      simp [inRange]
  | none =>
      cases more.findIdx? fun region => Part.loop i ∈ region.parts with
      | none => simp
      | some j =>
          have past : ¬ ((j + regions.length + 1 : Nat) : Int) < (regions.length + 1 : Nat) := by
            omega
          exact (if_neg past).symm

/-- The outlines of the first regions are the first outlines of all, cut off. -/
theorem mapIdx_outline_cut (order : Array BlockRef) (regions more : List Region)
    : regions.mapIdx (Region.outline order regions)
      = (((regions ++ more).mapIdx (Region.outline order (regions ++ more))).take
          regions.length).map (Outline.cut (regions.length + 1)) := by
  refine List.ext_getElem (by simp) fun i inRange inRangeToo => ?_
  rw [List.length_mapIdx] at inRange
  simp only [List.getElem_map, List.getElem_take, List.getElem_mapIdx,
    List.getElem_append_left inRange, Outline.cut, Region.outline, Option.map_some]
  rw [nestingCounter_cut regions more i]

end LoopStore

end LoopNest
