import LoopNest.Proofs.Finder.Bounds
import LoopNest.Proofs.Finder.FanIn
import LoopNest.Proofs.Program.EdgeOrder
import LoopNest.Proofs.Traversal.Dominance

/-! On a reducible graph what a run finds does not depend on the order of the edges: the loops are
the natural loops, nested as these are, and whether the bound suffices is said by counting the edges
to each block from blocks that it does not dominate.
-/

namespace LoopNest

namespace Traversal

variable {walk : Traversal} {first number : Nat} {sweep : Sweep}

theorem Reducible.singleEntry (reducible : walk.Reducible) (top : Nat)
    : walk.SingleEntry top := by
  intro source target flows member differs
  exact reducible top (member.heads differs) source target flows member differs

/-- Clusters that are entered through their tops alone add no ways in when they collapse. -/
theorem Swept.entries_eq (swept : walk.Swept first sweep) (reducible : walk.Reducible)
    (known : number < walk.size)
    : sweep.entries.getD number [] = walk.entries number := by
  cases Nat.lt_or_ge number first with
  | inl before => exact swept.waiting number before known
  | inr after =>
      obtain ⟨pool, folds⟩ := swept.folded number after known
      have faithful (x : Nat) (inner : walk.Inner number x) :=
        swept.faithful (after.trans inner.1.le) (number_lt (inner.2.1.below known))
      have nothing := (folds.pools.outside_eq_nil_iff known faithful).mpr
        (reducible.singleEntry number)
      exact folds.kept_eq.trans (by rw [nothing, List.append_nil])

/-- A sweep over clusters that are entered through their tops alone ends exactly if no number inside
one has more ways in than the bound allows. Witness: induction on the numbers left.
-/
theorem Swept.ends_iff (swept : walk.Swept first sweep) (reducible : walk.Reducible)
    (inTable : first ≤ walk.size) (bound : Int)
    : (Sweep.visitAll walk.toNumbering bound (List.range first).reverse sweep).2 = none
      ↔ ∀ header < first, ∀ x, walk.Inner header x
          → ((walk.entries x).length : Int) ≤ bound := by
  induction first generalizing sweep with
  | zero =>
      constructor
      · exact fun _ header before => absurd before (Nat.not_lt_zero header)
      · exact fun _ => rfl
  | succ first ih =>
      have entries_eq {x : Nat} (inner : walk.Inner first x)
          : sweep.entries.getD x [] = walk.entries x :=
        swept.entries_eq reducible (number_lt (inner.2.1.below inTable))
      rw [List.range_succ, List.reverse_append, List.reverse_singleton, List.singleton_append]
      rcases swept.visit inTable bound (List.range first).reverse with
        ⟨next, onward, light, same⟩ | ⟨x, inner, heavy, same⟩
      · rw [same, ih onward (Nat.le_of_lt inTable), Nat.forall_lt_succ_right]
        refine (and_iff_left fun x inner => ?_).symm
        rw [← entries_eq inner]
        exact light x inner
      · rw [same]
        rw [entries_eq inner] at heavy
        constructor
        · intro ended
          cases ended
        · intro light
          exact absurd heavy (Int.not_lt.mpr (light first (Nat.lt_succ_self first) x inner))

end Traversal

namespace Program

variable {program : Program} {g : GraphRef} {start : BlockRef} {x : Nat}

/-- The id of the block with a number. -/
def idAt (program : Program) (start : BlockRef) (number : Nat) : Int :=
  program.idOf ((program.number start).blockOf number)

namespace Consistent

variable (consistent : program.Consistent) (registered : start ∈ (program.graph g).blocks)
include consistent

theorem idAt_zero (registered : start ∈ (program.graph g).blocks)
    : program.idAt start 0 = program.idOf start := by
  rw [idAt, (consistent.whole registered).blockOf_zero]

/-- Registered blocks are joined by an edge between ids if they are joined by an edge. -/
theorem edgeStep_iff {src dst : BlockRef} (srcMem : src ∈ (program.graph g).blocks)
    (dstMem : dst ∈ (program.graph g).blocks)
    : EdgeStep (program.edgeIdsOf g) (program.idOf src) (program.idOf dst)
      ↔ program.Flows src dst := by
  rw [consistent.flows_iff srcMem, EdgeStep, edgeIdsOf, List.mem_map]
  constructor
  · rintro ⟨edge, listed, same⟩
    obtain ⟨sameSrc, sameDst⟩ := Prod.mk.inj same
    have ends := consistent.ends_mem listed
    rw [← consistent.eq_of_idOf_eq ends.1 srcMem sameSrc,
      ← consistent.eq_of_idOf_eq ends.2 dstMem sameDst]
    exact listed
  · intro listed
    exact ⟨_, listed, rfl⟩

/-- Numbers stand for the ids of their blocks. -/
theorem labels
    : (consistent.walk registered).Labels (EdgeStep (program.edgeIdsOf g))
        (program.idAt start) := by
  have member {number : Nat} (known : number < (program.number start).size) :=
    consistent.blockOf_mem registered known
  refine ⟨?_, ?_, ?_⟩
  · intro number known other knownToo same
    exact consistent.blockOf_injOn registered known knownToo
      (consistent.eq_of_idOf_eq (member known) (member knownToo) same)
  · intro source target known knownToo
    have known : source < (program.number start).size := known
    have knownToo : target < (program.number start).size := knownToo
    rw [idAt, idAt, consistent.edgeStep_iff (member known) (member knownToo),
      consistent.walk_flows_iff registered, and_iff_right known, and_iff_right knownToo]
  · intro source place known taken
    obtain ⟨edge, listed, same⟩ := List.mem_map.mp taken
    obtain ⟨sameSrc, sameDst⟩ := Prod.mk.inj same
    have ends := consistent.ends_mem listed
    have isSource := consistent.eq_of_idOf_eq ends.1 (member known) sameSrc
    have flows := (consistent.flows_iff ends.1).mpr listed
    rw [isSource] at flows
    obtain ⟨target, targetKnown, isTarget, -⟩ := consistent.exists_flows registered known flows
    exact ⟨target, targetKnown, by rw [idAt, isTarget, sameDst]⟩

/-- The ways into a number from outside its subtree are the edges to its block from reached blocks
that it does not dominate. Witness: an edge that counts on one side counts on the other.
-/
theorem entries_length (reducible : (consistent.walk registered).Reducible)
    (known : x < (program.number start).size)
    : ((consistent.walk registered).entries x).length
      = forwardCount (program.edgeIdsOf g) (program.idAt start 0) (program.idAt start x) := by
  have labels := consistent.labels registered
  have member := consistent.blockOf_mem registered known
  rw [Traversal.entries, Numbering.outsiders, ← List.countP_eq_length_filter,
    consistent.sources_eq registered known, List.countP_filterMap, forwardCount]
  change _ = List.countP _ ((program.edgesOf g).map _)
  rw [List.countP_map]
  refine List.countP_congr fun edge listed => ?_
  obtain ⟨srcMem, dstMem⟩ := consistent.ends_mem listed
  have flows {y : Nat} (yKnown : y < (program.number start).size)
      (isSource : (program.number start).blockOf y = edge.src)
      (isTarget : edge.dst = (program.number start).blockOf x)
      : (consistent.walk registered).Flows y x := by
    rw [consistent.walk_flows_iff registered, isSource, ← isTarget, consistent.flows_iff srcMem]
    exact ⟨yKnown, known, listed⟩
  simp only [Function.comp_apply, decide_eq_true_eq]
  constructor
  · intro counted
    split at counted
    · next leads =>
        cases numbered : (program.number start).number? (program.idOf edge.src) with
        | none =>
            rw [numbered] at counted
            cases counted
        | some y =>
            rw [numbered, Option.map_some, Option.getD_some, decide_eq_true_eq] at counted
            obtain ⟨yKnown, isSource⟩ := (consistent.number?_iff registered srcMem).mp numbered
            have forward := (labels.forward_iff reducible (flows yKnown isSource leads)).mpr counted
            rw [idAt, idAt, idAt, isSource] at forward
            exact ⟨by rw [leads, idAt], forward⟩
    · cases counted
  · rintro ⟨leads, forward⟩
    have leads := consistent.eq_of_idOf_eq dstMem member leads
    obtain ⟨y, yKnown, same⟩ := labels.reached_iff.mp forward.1
    have isSource := consistent.eq_of_idOf_eq (consistent.blockOf_mem registered yKnown) srcMem same
    have numbered := (consistent.number?_iff registered srcMem).mpr ⟨yKnown, isSource⟩
    rw [← same] at forward
    have outside := (labels.forward_iff reducible (flows yKnown isSource leads)).mp forward
    rw [if_pos leads, numbered, Option.map_some, Option.getD_some, decide_eq_true_eq]
    exact outside

/-- What a bound allows, in numbers. Witness: a number inside some cluster stands directly inside
one.
-/
theorem allows_iff (reducible : (consistent.walk registered).Reducible) (bound : Int)
    : Allows (program.edgeIdsOf g) (program.idAt start 0) bound
      ↔ ∀ header x, (consistent.walk registered).Inner header x
          → (((consistent.walk registered).entries x).length : Int) ≤ bound := by
  have labels := consistent.labels registered
  have length_eq {header x : Nat} (heads : (consistent.walk registered).Heads header)
      (member : (consistent.walk registered).Cluster header x) :=
    consistent.entries_length registered reducible (Traversal.number_lt (member.below heads.lt))
  constructor
  · intro allows header x inner
    have heads := inner.2.1.heads (Nat.ne_of_gt inner.1)
    have xKnown := Traversal.number_lt (inner.2.1.below heads.lt)
    rw [length_eq heads inner.2.1]
    refine allows _ ((labels.isNaturalHeader_iff reducible).mpr ⟨header, heads, rfl⟩) _
      ((labels.mem_naturalLoop_iff reducible heads xKnown).mpr inner.2.1) fun same => ?_
    exact Nat.ne_of_gt inner.1 (labels.injective xKnown heads.lt same)
  · intro light _ isHeader place inside differs
    obtain ⟨header, heads, rfl⟩ := (labels.isNaturalHeader_iff reducible).mp isHeader
    rw [labels.naturalLoop_eq reducible heads] at inside
    obtain ⟨x, member, rfl⟩ := inside
    have member : (consistent.walk registered).Cluster header x := member
    have collapsed : (consistent.walk registered).outermost 0 x ≠ x := by
      intro isTop
      have least := ((consistent.walk registered).outermost_spec (Nat.zero_le x)).2.2 header
        (Nat.zero_le header) member
      rw [isTop] at least
      exact differs (congrArg _ (Nat.le_antisymm least member.le))
    obtain ⟨outer, inner⟩ := Traversal.exists_inner (Nat.zero_le x) collapsed
    rw [← length_eq heads member]
    exact light outer x inner

end Consistent

end Program

------------------------------------------------------------------------------------------
-- Forests by ids
------------------------------------------------------------------------------------------

namespace LoopStore

/-- The loops of a forest but its root by ids: the header, the body, and the header of the loop
around, which is missing if that is the root.
-/
def idNest (store : LoopStore) (program : Program) (forest : ForestRef)
    : Set (Int × Set Int × Option Int) :=
  { (header, body, parent) |
      ∃ ref ∈ (store.forest forest).loops,
        ref ≠ (store.forest forest).root
        ∧ (store.loop ref).header.map program.idOf = some header
        ∧ program.idOf '' store.body ref = body
        ∧ ∃ outer,
            (store.loop ref).parent = some outer
            ∧ (store.loop outer).header.map program.idOf = parent }

/-- All loops of a forest but its root are flagged reducible. -/
def AllReducible (store : LoopStore) (forest : ForestRef) : Prop :=
  ∀ ref ∈ (store.forest forest).loops, ref ≠ (store.forest forest).root
    → (store.loop ref).reducible = true

end LoopStore

namespace Program.Consistent

variable {program : Program} {g : GraphRef} {start : BlockRef} {consistent : program.Consistent}
  {registered : start ∈ (program.graph g).blocks} {final : Sweep} {store : LoopStore}
  {root : LoopRef} {forest : ForestRef} {i : Nat} {region : Region}

/-- Around the loop of a header hangs the loop of the header that it stands directly inside. -/
theorem parent_header (swept : (consistent.walk registered).Swept 0 final)
    (grown : LoopStore.Grown (program.number start).order final.regions.toList root store forest)
    (found : final.regions[i]? = some region)
    : ∃ outer parent,
        (consistent.walk registered).NestedIn region.header outer
        ∧ (store.loop (root + 1 + i)).parent = some parent
        ∧ (store.loop parent).header = outer.map (program.number start).blockOf := by
  obtain ⟨parent, nestedBy, loop_eq⟩ := grown.region_loop i region (by rwa [Array.getElem?_toList])
  cases parent with
  | none =>
      refine ⟨none, root, ?_, by rw [loop_eq]; rfl, by rw [grown.root_loop]; rfl⟩
      exact Traversal.outermost_zero_eq_iff.mp
        ((swept.nestedBy_none_iff (root + 1) found).mp nestedBy)
  | some parent =>
      obtain ⟨j, outer, foundOuter, nested, rfl⟩ := nestedBy
      obtain ⟨_, -, outer_eq⟩ := grown.region_loop j outer foundOuter
      refine ⟨some outer.header, root + 1 + j, ?_, by rw [loop_eq]; rfl, by rw [outer_eq]; rfl⟩
      obtain ⟨index, listed, same⟩ := Region.mem_nested.mp nested
      obtain rfl : index = i := Nat.add_left_cancel same
      have recorded := Array.mem_toList_iff.mp (List.mem_of_getElem? foundOuter)
      obtain ⟨again, foundAgain, inner⟩ := (swept.loop_mem_parts_iff recorded).mp listed
      obtain rfl := Option.some.inj (found.symm.trans foundAgain)
      exact inner

/-- The loops that are found are the natural loops, nested as these are. -/
theorem idNest_eq (swept : (consistent.walk registered).Swept 0 final)
    (grown : LoopStore.Grown (program.number start).order final.regions.toList root store forest)
    (reducible : (consistent.walk registered).Reducible)
    : store.idNest program forest
      = naturalNest (EdgeStep (program.edgeIdsOf g)) (program.idAt start 0) := by
  have labels := consistent.labels registered
  have header_eq {i : Nat} {region : Region} (found : final.regions[i]? = some region)
      : (store.loop (root + 1 + i)).header.map program.idOf
        = some (program.idAt start region.header) := by
    obtain ⟨_, -, loop_eq⟩ := grown.region_loop i region (by rwa [Array.getElem?_toList])
    rw [loop_eq]
    rfl
  have body_ids {i : Nat} {region : Region} (found : final.regions[i]? = some region)
      : program.idOf '' store.body (root + 1 + i)
        = program.idAt start '' { x | (consistent.walk registered).Cluster region.header x } := by
    rw [body_eq swept grown found, clusterBlocks, Set.image_image]
    rfl
  ext ⟨header, body, parent⟩
  rw [labels.mem_naturalNest_iff reducible]
  constructor
  · rintro ⟨ref, stored, notRoot, isHeader, isBody, _, hasParent, isParent⟩
    obtain ⟨i, region, found, rfl⟩ := grown.stored_iff.mp ⟨stored, notRoot⟩
    rw [Array.getElem?_toList] at found
    obtain ⟨outer, _, nested, hasParent', parentHeader⟩ := parent_header swept grown found
    obtain rfl := Option.some.inj (hasParent.symm.trans hasParent')
    refine ⟨region.header, outer, swept.heads found, nested, ?_⟩
    rw [header_eq found] at isHeader
    rw [← Option.some.inj isHeader, ← isBody, ← isParent, body_ids found, parentHeader,
      Option.map_map]
    rfl
  · rintro ⟨top, outer, heads, nested, same⟩
    obtain ⟨i, region, found, rfl⟩ := swept.exists_region heads
    obtain ⟨stored, notRoot⟩ :=
      grown.stored_iff.mpr ⟨i, region, by rwa [Array.getElem?_toList], rfl⟩
    obtain ⟨outer', ref, nested', hasParent, parentHeader⟩ := parent_header swept grown found
    obtain rfl := nested.unique nested'
    cases same
    refine ⟨_, stored, notRoot, header_eq found, body_ids found, ref, hasParent, ?_⟩
    rw [parentHeader, Option.map_map]
    rfl

/-- The flags of the loops say that the graph is reducible. -/
theorem allReducible_iff (swept : (consistent.walk registered).Swept 0 final)
    (grown : LoopStore.Grown (program.number start).order final.regions.toList root store forest)
    : store.AllReducible forest ↔ (consistent.walk registered).Reducible := by
  have flag_iff {i : Nat} {region : Region} (found : final.regions[i]? = some region)
      : (store.loop (root + 1 + i)).reducible = true
        ↔ (consistent.walk registered).SingleEntry region.header := by
    obtain ⟨_, -, loop_eq⟩ := grown.region_loop i region (by rwa [Array.getElem?_toList])
    rw [loop_eq]
    exact (swept.described region (Array.mem_of_getElem? found)).reducible_iff
  constructor
  · intro flagged top heads
    obtain ⟨i, region, found, rfl⟩ := swept.exists_region heads
    obtain ⟨stored, notRoot⟩ :=
      grown.stored_iff.mpr ⟨i, region, by rwa [Array.getElem?_toList], rfl⟩
    exact (flag_iff found).mp (flagged _ stored notRoot)
  · intro reducible ref stored notRoot
    obtain ⟨i, region, found, rfl⟩ := grown.stored_iff.mp ⟨stored, notRoot⟩
    rw [Array.getElem?_toList] at found
    exact (flag_iff found).mpr (reducible region.header (swept.heads found))

end Program.Consistent

------------------------------------------------------------------------------------------
-- Runs on reducible graphs
------------------------------------------------------------------------------------------

/-- A run returns a count and does not give up. -/
def Run.Completes (run : Run) : Prop :=
  (∃ count, run.outcome = .ok count) ∧ run.finder.stopped = false

namespace Finder

variable {program : Program} {finder : Finder} {start : BlockRef}

/-- A run on a built graph completes if it does not give up. -/
theorem runFresh_completes_iff (consistent : program.Consistent) (store : LoopStore)
    : (finder.runFresh program store).Completes
      ↔ (finder.runFresh program store).finder.stopped = false := by
  refine and_iff_right_of_imp fun complete => ?_
  cases isStart : (program.graph finder.graph).start? with
  | none => exact ⟨0, by rw [runFresh_of_none isStart]⟩
  | some start =>
      obtain ⟨final, -, -, counted⟩ := runFresh_complete consistent isStart complete
      exact ⟨_, counted⟩

/-- On a graph whose clusters are entered through their tops alone a run gives up only if some
number inside a cluster has more ways in than the bound allows.
-/
theorem runFresh_stopped_eq_false_iff (consistent : program.Consistent)
    (isStart : (program.graph finder.graph).start? = some start) (store : LoopStore)
    (reducible : (consistent.walk (FlowGraph.mem_of_start? isStart)).Reducible)
    : (finder.runFresh program store).finder.stopped = false
      ↔ ∀ header x, (consistent.walk (FlowGraph.mem_of_start? isStart)).Inner header x
          → (((consistent.walk (FlowGraph.mem_of_start? isStart)).entries x).length : Int)
            ≤ finder.bound := by
  have registered := FlowGraph.mem_of_start? isStart
  have fits := consistent.number_size_le registered
  obtain ⟨sweep, started, swept⟩ :=
    (consistent.walk registered).swept_start program fun _ _ => rfl
  rw [(finder.shows program store).ended_iff, sweep_of_started isStart fits started]
  refine (swept.ends_iff reducible (Nat.le_refl _) finder.bound).trans ?_
  constructor
  · intro light header x inner
    exact light header (inner.2.1.heads (Nat.ne_of_gt inner.1)).lt x inner
  · exact fun light header _ => light header

/-- What makes a run complete with reducible loops only: the graph is reducible, and the bound
allows its edges.
-/
theorem runFresh_reducible_iff (consistent : program.Consistent)
    (isStart : (program.graph finder.graph).start? = some start) (store : LoopStore)
    : (finder.runFresh program store).Completes
        ∧ (finder.runFresh program store).store.AllReducible store.addForest.2
      ↔ IsReducible (EdgeStep (program.edgeIdsOf finder.graph)) (program.idOf start)
        ∧ Allows (program.edgeIdsOf finder.graph) (program.idOf start) finder.bound := by
  have registered := FlowGraph.mem_of_start? isStart
  rw [runFresh_completes_iff consistent, ← consistent.idAt_zero registered,
    (consistent.labels registered).isReducible_iff]
  constructor
  · intro ⟨complete, flagged⟩
    obtain ⟨final, swept, grown, -⟩ := runFresh_complete consistent isStart complete
    have reducible := (Program.Consistent.allReducible_iff swept grown).mp flagged
    refine ⟨reducible, (consistent.allows_iff registered reducible finder.bound).mpr ?_⟩
    exact (runFresh_stopped_eq_false_iff consistent isStart store reducible).mp complete
  · intro ⟨reducible, allows⟩
    have light := (consistent.allows_iff registered reducible finder.bound).mp allows
    have complete := (runFresh_stopped_eq_false_iff consistent isStart store reducible).mpr light
    obtain ⟨final, swept, grown, -⟩ := runFresh_complete consistent isStart complete
    exact ⟨complete, (Program.Consistent.allReducible_iff swept grown).mpr reducible⟩

theorem runFresh_idNest (consistent : program.Consistent)
    (isStart : (program.graph finder.graph).start? = some start) {store : LoopStore}
    (completes : (finder.runFresh program store).Completes)
    (flagged : (finder.runFresh program store).store.AllReducible store.addForest.2)
    : (finder.runFresh program store).store.idNest program store.addForest.2
      = naturalNest (EdgeStep (program.edgeIdsOf finder.graph)) (program.idOf start) := by
  obtain ⟨final, swept, grown, -⟩ := runFresh_complete consistent isStart completes.2
  rw [← consistent.idAt_zero (FlowGraph.mem_of_start? isStart)]
  exact Program.Consistent.idNest_eq swept grown
    ((Program.Consistent.allReducible_iff swept grown).mp flagged)

/-- A graph without blocks has no loops. -/
theorem runFresh_idNest_of_none (noStart : (program.graph finder.graph).start? = none)
    (store : LoopStore)
    : (finder.runFresh program store).Completes
      ∧ (finder.runFresh program store).store.AllReducible store.addForest.2
      ∧ (finder.runFresh program store).store.idNest program store.addForest.2 = ∅ := by
  have grown := runFresh_grown_nil noStart store
  have nothing {ref : LoopRef}
      (stored : ref ∈ ((finder.runFresh program store).store.forest store.addForest.2).loops)
      : ref = ((finder.runFresh program store).store.forest store.addForest.2).root :=
    (grown.eq_root stored).trans grown.root_eq.symm
  refine ⟨⟨⟨0, by rw [runFresh_of_none noStart]⟩, by rw [runFresh_of_none noStart]; rfl⟩, ?_, ?_⟩
  · exact fun ref stored notRoot => absurd (nothing stored) notRoot
  · refine Set.eq_empty_of_forall_notMem ?_
    intro _ ⟨ref, stored, notRoot, _⟩
    exact notRoot (nothing stored)

/-- If a run completes with reducible loops only, then so does every run on the same edges in
another order, and it finds the same loops, nested alike. Witness: the graph is reducible, its loops
are its natural loops, and what the bound allows is said by a count; none of this depends on the
order.
-/
theorem runFresh_permutedEdges (calls others : List BuildCall) (finder other : Finder)
    (store otherStore : LoopStore)
    (permutes : (Program.build calls).PermutesEdges finder.graph (Program.build others)
      other.graph)
    (sameBound : finder.bound = other.bound)
    (completes : (finder.runFresh (Program.build calls) store).Completes)
    (flagged : (finder.runFresh (Program.build calls) store).store.AllReducible
      store.addForest.2)
    : (other.runFresh (Program.build others) otherStore).Completes
      ∧ (other.runFresh (Program.build others) otherStore).store.AllReducible
          otherStore.addForest.2
      ∧ (other.runFresh (Program.build others) otherStore).store.idNest (Program.build others)
          otherStore.addForest.2
        = (finder.runFresh (Program.build calls) store).store.idNest (Program.build calls)
            store.addForest.2 := by
  have consistent := Program.consistent_build calls
  have consistentToo := Program.consistent_build others
  have start_eq := permutes.start_eq
  cases isStart : ((Program.build calls).graph finder.graph).start? with
  | none =>
      rw [isStart, Option.map_none, eq_comm, Option.map_eq_none_iff] at start_eq
      obtain ⟨-, -, nothing⟩ := runFresh_idNest_of_none isStart store
      rw [nothing]
      exact runFresh_idNest_of_none start_eq otherStore
  | some start =>
      rw [isStart, Option.map_some, eq_comm, Option.map_eq_some_iff] at start_eq
      obtain ⟨otherStart, isOtherStart, same⟩ := start_eq
      have spec := (runFresh_reducible_iff consistent isStart store).mp ⟨completes, flagged⟩
      rw [edgeStep_congr permutes.edges_perm, allows_congr permutes.edges_perm, ← same,
        sameBound] at spec
      obtain ⟨completesToo, flaggedToo⟩ :=
        (runFresh_reducible_iff consistentToo isOtherStart otherStore).mpr spec
      refine ⟨completesToo, flaggedToo, ?_⟩
      rw [runFresh_idNest consistent isStart completes flagged,
        runFresh_idNest consistentToo isOtherStart completesToo flaggedToo,
        edgeStep_congr permutes.edges_perm, same]

/-- Two nested loops, the outer one around two ways to the inner one: the orders make the traversal
take the one or the other first.
-/
theorem runFresh_permutedEdges_nested
    : let registered := BuildCall.ofEdges 6 []
      let edges := [(0, 1), (1, 2), (1, 3), (2, 4), (3, 4), (4, 4), (4, 1), (1, 5)]
      let others := [(4, 1), (1, 5), (3, 4), (1, 3), (0, 1), (4, 4), (1, 2), (2, 4)]
      let finder : Finder := { graph := 0, forest := 0, bound := 2 }
      let program := Program.build (registered ++ BuildCall.connects 0 edges)
      let program' := Program.build (registered ++ BuildCall.connects 0 others)
      let run := finder.runFresh program {}
      let run' := finder.runFresh program' {}
      program.PermutesEdges 0 program' 0
      ∧ run.Completes
      ∧ run.store.AllReducible 0
      ∧ (program.number 0).order = #[0, 1, 2, 4, 3, 5]
      ∧ (program'.number 0).order = #[0, 1, 5, 3, 4, 2]
      ∧ run'.Completes
      ∧ run'.store.AllReducible 0
      ∧ run'.store.idNest program' 0 = run.store.idNest program 0 := by
  intro registered edges others finder program program' run run'
  have permutes : program.PermutesEdges 0 program' 0 :=
    Program.permutesEdges_connect registered 0 (by decide)
  have completes : run.Completes := ⟨⟨3, by decide +kernel⟩, by decide +kernel⟩
  have flagged : run.store.AllReducible 0 := by
    unfold LoopStore.AllReducible
    decide +kernel
  exact ⟨permutes, completes, flagged, by decide +kernel, by decide +kernel,
    runFresh_permutedEdges _ _ finder finder {} {} permutes rfl completes flagged⟩

end Finder

end LoopNest
