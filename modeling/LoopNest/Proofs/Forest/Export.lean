import LoopNest.Export
import LoopNest.Proofs.Digraph
import LoopNest.Proofs.Finder.Histories

/-! Exported forests. The counters of a forest's loops are their places, and every loop but the root
has a stored parent, so the export is a tree of labelled nodes that grows from the root.
-/

namespace LoopNest

/-- The edges form a tree that grows from a root: none leads to the root and exactly one to every
other node, and the root reaches every node.
-/
structure Digraph.IsArborescence {α : Type} (graph : Digraph α) (root : Int) : Prop where
  edges_nodup : graph.edges.Nodup
  ends_mem
    : ∀ src dst, (src, dst) ∈ graph.edges → src ∈ graph.keys.items ∧ dst ∈ graph.keys.items
  root_mem : root ∈ graph.keys.items
  no_entry : ∀ src, (src, root) ∉ graph.edges
  one_entry : ∀ key ∈ graph.keys.items, key ≠ root → ∃! src, (src, key) ∈ graph.edges
  reached : ∀ key ∈ graph.keys.items, graph.Reaches root key

namespace LoopStore

variable {store : LoopStore} {forest : ForestRef} {program : Program} {ref parent : LoopRef}

/-- The nodes of an exported forest. -/
def nodesOf (program : Program) (store : LoopStore) (forest : ForestRef) : List (Int × LoopLabel) :=
  (store.forest forest).loops.toList.map fun ref =>
    ((store.loop ref).counter, (store.loop ref).label program)

/-- The edges of an exported forest, from the counters of parents to those of their children. -/
def edgesOf (store : LoopStore) (forest : ForestRef) : List (Int × Int) :=
  (store.forest forest).loops.toList.filterMap fun ref =>
    (store.loop ref).parent.map fun parent =>
      ((store.loop parent).counter, (store.loop ref).counter)

theorem toDigraph_eq (program : Program) (store : LoopStore) (forest : ForestRef)
    : store.toDigraph program forest
      = (({} : Digraph LoopLabel).addNodes (store.nodesOf program forest)).addEdges
          (store.edgesOf forest) := by
  rw [toDigraph, Digraph.addEdges, Digraph.addNodes, nodesOf, edgesOf, List.foldl_map,
    List.foldl_filterMap, List.foldl_map, List.foldl_map]
  congr 1
  funext result ref
  cases (store.loop ref).parent <;> rfl

namespace WellFormed

theorem eq_of_counter_eq (formed : store.WellFormed forest) {other : LoopRef}
    (listed : ref ∈ (store.forest forest).loops) (listedToo : other ∈ (store.forest forest).loops)
    (same : (store.loop ref).counter = (store.loop other).counter)
    : ref = other := by
  obtain ⟨i, found⟩ := Array.getElem?_of_mem listed
  obtain ⟨j, foundToo⟩ := Array.getElem?_of_mem listedToo
  rw [formed.counter_eq i ref found, formed.counter_eq j other foundToo] at same
  obtain rfl := Int.ofNat_inj.mp same
  exact Option.some.inj (found.symm.trans foundToo)

/-- Loops are keyed by their places. -/
theorem nodesOf_eq (formed : store.WellFormed forest) (program : Program)
    : store.nodesOf program forest
      = (store.forest forest).loops.toList.mapIdx fun i ref =>
          ((i : Int), (store.loop ref).label program) := by
  apply List.ext_getElem?
  intro i
  rw [nodesOf, List.getElem?_map, List.getElem?_mapIdx, Array.getElem?_toList]
  cases found : (store.forest forest).loops[i]? with
  | none => rfl
  | some ref => rw [Option.map_some, Option.map_some, formed.counter_eq i ref found]

theorem nodup_nodesOf (formed : store.WellFormed forest) (program : Program)
    : ((store.nodesOf program forest).map Prod.fst).Nodup := by
  rw [formed.nodesOf_eq, List.nodup_iff_pairwise_ne, List.pairwise_iff_getElem]
  intro i j inRange inRangeToo before same
  simp only [List.getElem_map, List.getElem_mapIdx] at same
  omega

theorem counter_mem (program : Program) (listed : ref ∈ (store.forest forest).loops)
    : (store.loop ref).counter ∈ (store.nodesOf program forest).map Prod.fst :=
  List.mem_map_of_mem (List.mem_map_of_mem (Array.mem_toList_iff.mpr listed))

/-- The exported graph shows the loops and the edges from their parents. -/
theorem draws_toDigraph (formed : store.WellFormed forest) (program : Program)
    : (store.toDigraph program forest).Draws (store.nodesOf program forest)
        (store.edgesOf forest) := by
  rw [toDigraph_eq]
  refine (Digraph.draws_addNodes (formed.nodup_nodesOf program)).addEdges ?_
  intro edge connected
  obtain ⟨ref, listed, found⟩ := List.mem_filterMap.mp connected
  obtain ⟨parent, hasParent, rfl⟩ := Option.map_eq_some_iff.mp found
  have stored := Array.mem_toList_iff.mp listed
  exact ⟨counter_mem program (formed.parent_mem stored hasParent), counter_mem program stored⟩

/-- An edge into a loop comes from its parent. -/
theorem mem_edges_iff (formed : store.WellFormed forest) (program : Program)
    (listed : ref ∈ (store.forest forest).loops) {src : Int}
    : (src, (store.loop ref).counter) ∈ (store.toDigraph program forest).edges
      ↔ ∃ parent, (store.loop ref).parent = some parent ∧ src = (store.loop parent).counter := by
  rw [(formed.draws_toDigraph program).mem_edges_iff, edgesOf, List.mem_filterMap]
  constructor
  · intro connected
    obtain ⟨child, stored, found⟩ := connected
    obtain ⟨parent, hasParent, same⟩ := Option.map_eq_some_iff.mp found
    obtain ⟨rfl, sameCounter⟩ := Prod.mk.inj same
    obtain rfl := formed.eq_of_counter_eq (Array.mem_toList_iff.mp stored) listed
      sameCounter
    exact ⟨parent, hasParent, rfl⟩
  · intro below
    obtain ⟨parent, hasParent, rfl⟩ := below
    exact ⟨ref, Array.mem_toList_iff.mpr listed, by rw [hasParent, Option.map_some]⟩

/-- The root reaches every loop. Witness: the parents lead to the root, and each edge takes one of
these steps back.
-/
theorem reaches_counter (formed : store.WellFormed forest) (program : Program)
    (listed : ref ∈ (store.forest forest).loops)
    : (store.toDigraph program forest).Reaches 0 (store.loop ref).counter := by
  induction formed.reaches_root listed using Relation.ReflTransGen.head_induction_on with
  | refl =>
      rw [formed.root_counter]
      exact .refl
  | @head child parent hasParent _ ih =>
      have edge := (formed.mem_edges_iff program listed).mpr ⟨parent, hasParent, rfl⟩
      exact (ih (formed.parent_mem listed hasParent)).tail edge

/-- The exported tree grows from the node of the root. -/
theorem isArborescence (formed : store.WellFormed forest) (program : Program)
    : (store.toDigraph program forest).IsArborescence 0 := by
  have draws := formed.draws_toDigraph program
  have ofKey {key : Int} (known : key ∈ (store.toDigraph program forest).keys.items)
      : ∃ ref ∈ (store.forest forest).loops, (store.loop ref).counter = key := by
    obtain ⟨node, isNode, rfl⟩ := List.mem_map.mp (draws.mem_keys_iff.mp known)
    obtain ⟨ref, listed, rfl⟩ := List.mem_map.mp isNode
    exact ⟨ref, Array.mem_toList_iff.mp listed, rfl⟩
  refine ⟨draws.nodup_edges, ?_, ?_, ?_, ?_, ?_⟩
  · intro src dst connected
    have ends := draws.ends_mem _ (draws.mem_edges_iff.mp connected)
    exact ⟨draws.mem_keys_iff.mpr ends.1, draws.mem_keys_iff.mpr ends.2⟩
  · have rootMem := counter_mem program formed.root_mem
    rw [formed.root_counter] at rootMem
    exact draws.mem_keys_iff.mpr rootMem
  · intro src connected
    have into : (src, (store.loop (store.forest forest).root).counter)
        ∈ (store.toDigraph program forest).edges := by
      rw [formed.root_counter]
      exact connected
    obtain ⟨parent, hasParent, -⟩ := (formed.mem_edges_iff program formed.root_mem).mp into
    rw [formed.root_parent] at hasParent
    cases hasParent
  · intro key known notZero
    obtain ⟨ref, listed, rfl⟩ := ofKey known
    have notRoot : ref ≠ (store.forest forest).root := by
      intro isRoot
      rw [isRoot, formed.root_counter] at notZero
      exact notZero rfl
    obtain ⟨parent, -, hasParent, -⟩ := formed.parent_later ref listed notRoot
    refine ⟨_, (formed.mem_edges_iff program listed).mpr ⟨parent, hasParent, rfl⟩, ?_⟩
    intro src connected
    obtain ⟨other, hasOther, rfl⟩ := (formed.mem_edges_iff program listed).mp connected
    rw [Option.some.inj (hasParent.symm.trans hasOther)]
  · intro key known
    obtain ⟨ref, listed, rfl⟩ := ofKey known
    exact formed.reaches_counter program listed

end WellFormed

/-- Every forest made by runs is exported as a tree that grows from node zero. Its nodes are the
places of the stored loops, labelled with the ids of their headers and blocks and with their kinds,
and the edges come from the parents.
-/
theorem MadeByRuns.toDigraph_arborescence (made : MadeByRuns store)
    (known : forest < store.forests.size) (program : Program)
    : let graph := store.toDigraph program forest
      graph.nodes
        = (store.forest forest).loops.toList.mapIdx (fun i ref =>
            ((i : Int),
              some
                { header := (store.loop ref).header.map program.idOf
                  reducible := (store.loop ref).reducible
                  blocks := (store.loop ref).blocks.toList.map program.idOf }))
      ∧ graph.IsArborescence 0
      ∧ ∀ (i : Nat) ref, (store.forest forest).loops[i]? = some ref
        → ∀ src,
            (src, (i : Int)) ∈ graph.edges
            ↔ ∃ parent, (store.loop ref).parent = some parent
                ∧ src = (store.loop parent).counter := by
  intro graph
  have formed := made.formed known
  refine ⟨?_, formed.isArborescence program, ?_⟩
  · rw [(formed.draws_toDigraph program).nodes_eq, formed.nodesOf_eq]
    apply List.ext_getElem?
    intro i
    rw [List.getElem?_map, List.getElem?_mapIdx, List.getElem?_mapIdx, Option.map_map]
    rfl
  · intro i ref found src
    rw [← formed.counter_eq i ref found]
    exact formed.mem_edges_iff program (Array.mem_of_getElem? found)

/-- The export of one forest after a run that gives up with a loop found, one that fails on a graph
torn by a one-sided edge, one without a start and one that ends.
-/
theorem MadeByRuns.toDigraph_arborescence_four_runs
    : let program := Program.build
        (BuildCall.ofEdges 5 [(0, 1), (1, 2), (2, 3), (3, 3), (3, 2), (3, 1), (0, 3), (4, 4)])
      let torn := ((program.addBlock "" 7).1.addSucc 0 5).addSucc 5 4
      let finder : Finder := { graph := 0, forest := 0 }
      let first := { finder with bound := 0 }.run program ({} : LoopStore).addForest.1
      let second := finder.run torn first.store
      let third := finder.run {} second.store
      let fourth := finder.run program third.store
      let graph := fourth.store.toDigraph program 0
      first.finder.stopped = true
      ∧ second.outcome.toOption = none
      ∧ third.outcome.toOption = some 0
      ∧ fourth.outcome.toOption = some 5
      ∧ graph.edges = [(0, 1), (0, 4), (3, 2), (4, 3)]
      ∧ graph.nodes
        = [(0, some ⟨none, true, []⟩), (1, some ⟨some 3, true, [3]⟩), (2, some ⟨some 3, true, [3]⟩),
            (3, some ⟨some 2, false, [2]⟩), (4, some ⟨some 1, false, [1]⟩)]
      ∧ graph.IsArborescence 0 := by
  intro program torn finder first second third fourth graph
  have made : MadeByRuns fourth.store :=
    .run (.run (.run (.run (.addForest .empty) program { finder with bound := 0 } (by decide))
      torn finder (by decide +kernel)) {} finder (by decide +kernel)) program finder
      (by decide +kernel)
  have known : 0 < fourth.store.forests.size := by decide +kernel
  obtain ⟨-, arborescence, -⟩ := made.toDigraph_arborescence known program
  exact ⟨by decide +kernel, by decide +kernel, by decide +kernel, by decide +kernel,
    by decide +kernel, by decide +kernel, arborescence⟩

end LoopStore

end LoopNest
