import LoopNest.Program.Build
import Mathlib.Data.List.Nodup

/-! Programs built by calls. Whatever the calls and whichever of them are refused, each graph
keeps its registered blocks apart from those of the others, and the neighbours of a registered
block are what the graph's edges say, in their order.
-/

namespace LoopNest

/-- One call of a building history. -/
inductive BuildCall where
  | graph
  | block (name : String) (id : Int)
  | register (graph : GraphRef) (name : String) (id : Int)
  | connect (graph : GraphRef) (srcId dstId : Int)
  | link (graph : GraphRef) (src dst : BlockRef)
deriving Repr, DecidableEq, Inhabited

/-- The calls that make one graph with the given number of blocks, whose ids count up from zero,
and with the given edges between ids.
-/
def BuildCall.ofEdges (blocks : Nat) (edges : List (Int × Int)) : List BuildCall :=
  .graph :: ((List.range blocks).map fun id => .register 0 "" id)
    ++ edges.map fun (src, dst) => .connect 0 src dst

namespace Program

variable {program : Program} {g : GraphRef} {ref src dst : BlockRef}

/-- Performs one call; a refused edge changes nothing. -/
def perform (program : Program) : BuildCall → Program
  | .graph => program.addGraph.1
  | .block name id => (program.addBlock name id).1
  | .register graph name id => (program.register graph name id).1
  | .connect graph srcId dstId =>
      (program.connect graph srcId dstId).toOption.elim program Prod.fst
  | .link graph src dst => (program.link graph src dst).toOption.elim program Prod.fst

/-- The program that a history of calls builds from nothing. -/
def build (calls : List BuildCall) : Program :=
  calls.foldl perform {}

/-- The edges of a graph in the order they were added. -/
def edgesOf (program : Program) (g : GraphRef) : List Edge :=
  (program.graph g).edges.toList.map program.edge

/-- What every built program keeps. Blocks that no graph has registered have no edges. -/
structure Consistent (program : Program) : Prop where
  block_lt : ∀ {g ref}, ref ∈ (program.graph g).blocks → ref < program.blocks.size
  nodup : ∀ g, (program.graph g).blocks.toList.Nodup
  find?_iff
    : ∀ {g id ref},
        (program.graph g).find? id = some ref
        ↔ ref ∈ (program.graph g).blocks ∧ program.idOf ref = id
  graph_unique
    : ∀ {g h ref}, ref ∈ (program.graph g).blocks → ref ∈ (program.graph h).blocks → g = h
  edge_lt : ∀ {g e}, e ∈ (program.graph g).edges → e < program.edges.size
  ends_mem
    : ∀ {g edge}, edge ∈ program.edgesOf g
      → edge.src ∈ (program.graph g).blocks ∧ edge.dst ∈ (program.graph g).blocks
  succs_eq
    : ∀ {g ref}, ref ∈ (program.graph g).blocks
      → (program.block ref).succs.toList
        = ((program.edgesOf g).filter (·.src = ref)).map Edge.dst
  preds_eq
    : ∀ {g ref}, ref ∈ (program.graph g).blocks
      → (program.block ref).preds.toList
        = ((program.edgesOf g).filter (·.dst = ref)).map Edge.src
  loose_succs
    : ∀ {ref}, (∀ g, ref ∉ (program.graph g).blocks) → (program.block ref).succs = #[]

theorem Consistent.isRegistered_iff (consistent : program.Consistent)
    : program.isRegistered g ref = true ↔ ref ∈ (program.graph g).blocks := by
  rw [isRegistered, beq_iff_eq, consistent.find?_iff]
  exact and_iff_left rfl

/-- Registered blocks are told apart by their ids. -/
theorem Consistent.eq_of_idOf_eq (consistent : program.Consistent) {other : BlockRef}
    (member : ref ∈ (program.graph g).blocks) (memberToo : other ∈ (program.graph g).blocks)
    (same : program.idOf ref = program.idOf other)
    : ref = other := by
  have found := consistent.find?_iff.mpr ⟨member, same⟩
  rw [consistent.find?_iff.mpr ⟨memberToo, rfl⟩] at found
  exact (Option.some.inj found).symm

theorem graph_addGraph (program : Program) (g : GraphRef)
    : program.addGraph.1.graph g = program.graph g := by
  simp only [addGraph, graph, Array.getD_eq_getD_getElem?, Array.getElem?_push]
  split
  · next newest => simp [newest]
  · rfl

theorem block_addBlock (program : Program) (name : String) (id : Int) (ref : BlockRef)
    : (program.addBlock name id).1.block ref
      = if ref = program.blocks.size then ⟨name, id, #[], #[]⟩ else program.block ref := by
  simp only [addBlock, block, Array.getD_eq_getD_getElem?, Array.getElem?_push]
  split <;> rfl

/-- Registers a block that exists already. -/
def enlist (program : Program) (g : GraphRef) (id : Int) (ref : BlockRef) : Program :=
  { program with
    graphs := program.graphs.modify g fun graph =>
      { graph with index := graph.index.insert id ref, blocks := graph.blocks.push ref } }

theorem register_eq (program : Program) (g : GraphRef) (name : String) (id : Int)
    : (program.register g name id).1
      = if (program.graph g).find? id = none
        then (program.addBlock name id).1.enlist g id program.blocks.size
        else program := by
  unfold register
  cases (program.graph g).find? id with
  | none => rfl
  | some ref => rfl

theorem graph_enlist (program : Program) (g : GraphRef) (id : Int) (ref : BlockRef)
    (h : GraphRef)
    : (program.enlist g id ref).graph h
      = if g = h ∧ g < program.graphs.size
        then
          { program.graph g with
            index := (program.graph g).index.insert id ref
            blocks := (program.graph g).blocks.push ref }
        else program.graph h := by
  simp only [enlist, graph, Array.getD_eq_getD_getElem?, Array.getElem?_modify]
  by_cases same : g = h
  · subst same
    by_cases inTable : g < program.graphs.size
    · simp [inTable]
    · simp [inTable]
  · simp [same]

theorem graph_wire (program : Program) (g : GraphRef) (src dst : BlockRef) (h : GraphRef)
    : (program.wire g src dst).1.graph h
      = if g = h ∧ g < program.graphs.size
        then
          { program.graph g with edges := (program.graph g).edges.push program.edges.size }
        else program.graph h := by
  simp only [wire, listEdge, addSucc, addPred, graph, Array.getD_eq_getD_getElem?,
    Array.getElem?_modify]
  by_cases same : g = h
  · subst same
    by_cases inTable : g < program.graphs.size
    · simp [inTable]
    · simp [inTable]
  · simp [same]

theorem edge_wire (program : Program) (g : GraphRef) (src dst : BlockRef) (e : EdgeRef)
    : (program.wire g src dst).1.edge e
      = if e = program.edges.size then ⟨src, dst⟩ else program.edge e := by
  simp only [wire, listEdge, addSucc, addPred, edge, Array.getD_eq_getD_getElem?,
    Array.getElem?_push]
  split <;> rfl

theorem block_wire (program : Program) (g : GraphRef) (src dst ref : BlockRef)
    (inTable : ref < program.blocks.size)
    : (program.wire g src dst).1.block ref
      = { program.block ref with
          succs :=
            if src = ref then (program.block ref).succs.push dst else (program.block ref).succs
          preds :=
            if dst = ref then (program.block ref).preds.push src
            else (program.block ref).preds } := by
  simp only [wire, listEdge, addSucc, addPred, block, Array.getD_eq_getD_getElem?,
    Array.getElem?_modify, Array.getElem?_eq_getElem inTable]
  split <;> split <;> rfl

theorem block_wire_of_ne (srcNe : src ≠ ref) (dstNe : dst ≠ ref)
    : (program.wire g src dst).1.block ref = program.block ref := by
  simp [wire, listEdge, addSucc, addPred, block, Array.getElem?_modify, srcNe, dstNe]

------------------------------------------------------------------------------------------
-- Every call keeps a program consistent
------------------------------------------------------------------------------------------

theorem Consistent.empty : ({} : Program).Consistent := by
  have noGraph (g : GraphRef) : ({} : Program).graph g = {} := by simp [graph]
  refine ⟨?_, ?_, ?_, ?_, ?_, ?_, ?_, ?_, ?_⟩ <;>
    simp [edgesOf, noGraph, FlowGraph.find?, block]

theorem Consistent.addGraph (consistent : program.Consistent)
    : program.addGraph.1.Consistent := by
  have edges_eq (g : GraphRef) : program.addGraph.1.edgesOf g = program.edgesOf g := by
    rw [edgesOf, graph_addGraph]
    rfl
  refine ⟨?_, ?_, ?_, ?_, ?_, ?_, ?_, ?_, ?_⟩ <;> simp only [graph_addGraph, edges_eq]
  · exact consistent.block_lt
  · exact consistent.nodup
  · exact consistent.find?_iff
  · exact consistent.graph_unique
  · exact consistent.edge_lt
  · exact consistent.ends_mem
  · exact consistent.succs_eq
  · exact consistent.preds_eq
  · exact consistent.loose_succs

/-- A loose block is registered nowhere. -/
theorem Consistent.not_mem_size (consistent : program.Consistent)
    : program.blocks.size ∉ (program.graph g).blocks :=
  fun member => Nat.lt_irrefl _ (consistent.block_lt member)

theorem Consistent.addBlock (consistent : program.Consistent) (name : String) (id : Int)
    : (program.addBlock name id).1.Consistent := by
  have old {g : GraphRef} {ref : BlockRef} (member : ref ∈ (program.graph g).blocks)
      : (program.addBlock name id).1.block ref = program.block ref := by
    rw [block_addBlock, if_neg]
    exact fun newest => consistent.not_mem_size (newest ▸ member)
  refine ⟨?_, consistent.nodup, ?_, consistent.graph_unique, consistent.edge_lt,
    consistent.ends_mem, ?_, ?_, ?_⟩
  · intro g ref member
    have before := consistent.block_lt member
    simp only [Program.addBlock, Array.size_push]
    exact Nat.lt_succ_of_lt before
  · intro g other ref
    refine consistent.find?_iff.trans (and_congr_right fun member => ?_)
    rw [idOf, idOf, old member]
  · intro g ref member
    rw [old member]
    exact consistent.succs_eq member
  · intro g ref member
    rw [old member]
    exact consistent.preds_eq member
  · intro ref loose
    rw [block_addBlock]
    split
    · rfl
    · exact consistent.loose_succs loose

theorem edgesOf_enlist (program : Program) (g : GraphRef) (id : Int) (ref : BlockRef)
    (h : GraphRef)
    : (program.enlist g id ref).edgesOf h = program.edgesOf h := by
  simp only [edgesOf, graph_enlist]
  split
  · next same => rw [← same.1]; rfl
  · rfl

theorem mem_blocks_enlist {id : Int} {h : GraphRef} {other : BlockRef}
    : other ∈ ((program.enlist g id ref).graph h).blocks
      ↔ other ∈ (program.graph h).blocks
        ∨ (g = h ∧ g < program.graphs.size) ∧ other = ref := by
  rw [graph_enlist]
  split
  · next same =>
      rw [Array.mem_push, ← same.1, and_iff_right ⟨rfl, same.2⟩]
  · next differs => simp [differs]

theorem find?_enlist (program : Program) (g : GraphRef) (id : Int) (ref : BlockRef)
    (h : GraphRef) (other : Int)
    : ((program.enlist g id ref).graph h).find? other
      = if (g = h ∧ g < program.graphs.size) ∧ id = other then some ref
        else (program.graph h).find? other := by
  rw [graph_enlist]
  by_cases same : g = h ∧ g < program.graphs.size
  · obtain ⟨rfl, inTable⟩ := same
    simp [FlowGraph.find?, Std.TreeMap.getElem?_insert, inTable]
  · simp [same]

/-- The index stays exact when an unregistered block is registered under its unknown id. -/
theorem Consistent.find?_enlist_iff {id other : Int} {h : GraphRef} {found : BlockRef}
    (consistent : program.Consistent) (idOf_eq : program.idOf ref = id)
    (unknown : (program.graph g).find? id = none)
    : ((program.enlist g id ref).graph h).find? other = some found
      ↔ found ∈ ((program.enlist g id ref).graph h).blocks ∧ program.idOf found = other := by
  rw [find?_enlist, mem_blocks_enlist]
  by_cases target : (g = h ∧ g < program.graphs.size) ∧ id = other
  · obtain ⟨⟨rfl, inTable⟩, rfl⟩ := target
    rw [if_pos ⟨⟨rfl, inTable⟩, rfl⟩, Option.some.injEq]
    constructor
    · intro same
      exact ⟨Or.inr ⟨⟨rfl, inTable⟩, same.symm⟩, same ▸ idOf_eq⟩
    · intro ⟨listed, same⟩
      rcases listed with old | ⟨_, isRef⟩
      · rw [consistent.find?_iff.mpr ⟨old, same⟩] at unknown
        cases unknown
      · exact isRef.symm
  · rw [if_neg target, consistent.find?_iff]
    refine and_congr_left fun same => (or_iff_left ?_).symm
    intro ⟨here, isRef⟩
    exact target ⟨here, by rw [← same, isRef, idOf_eq]⟩

/-- Registering an unregistered block without neighbours under its own unknown id keeps a program
consistent. Witness: no edge of any graph touches the block.
-/
theorem Consistent.enlist {id : Int} (consistent : program.Consistent)
    (inTable : ref < program.blocks.size) (loose : ∀ h, ref ∉ (program.graph h).blocks)
    (block_eq : ∃ name, program.block ref = ⟨name, id, #[], #[]⟩)
    (unknown : (program.graph g).find? id = none)
    : (program.enlist g id ref).Consistent := by
  obtain ⟨name, block_eq⟩ := block_eq
  have untouched {h : GraphRef} {edge : Edge} (member : edge ∈ program.edgesOf h)
      : edge.src ≠ ref ∧ edge.dst ≠ ref :=
    ⟨fun same => loose h (same ▸ (consistent.ends_mem member).1),
      fun same => loose h (same ▸ (consistent.ends_mem member).2)⟩
  refine ⟨?_, ?_, ?_, ?_, ?_, ?_, ?_, ?_, ?_⟩
  · intro h other member
    rcases mem_blocks_enlist.mp member with old | ⟨-, rfl⟩
    · exact consistent.block_lt old
    · exact inTable
  · intro h
    rw [graph_enlist]
    split
    · rw [Array.toList_push, ← List.concat_eq_append]
      refine List.Nodup.concat ?_ (consistent.nodup g)
      exact fun member => loose g (Array.mem_toList_iff.mp member)
    · exact consistent.nodup h
  · intro h other found
    exact consistent.find?_enlist_iff (by rw [idOf, block_eq]) unknown
  · intro h k other inFirst inSecond
    rcases mem_blocks_enlist.mp inFirst with old | ⟨first, rfl⟩
    · rcases mem_blocks_enlist.mp inSecond with old' | ⟨-, rfl⟩
      · exact consistent.graph_unique old old'
      · exact absurd old (loose h)
    · rcases mem_blocks_enlist.mp inSecond with old' | ⟨second, -⟩
      · exact absurd old' (loose k)
      · exact first.1.symm.trans second.1
  · intro h e listed
    rw [graph_enlist] at listed
    split at listed
    · exact consistent.edge_lt (g := g) listed
    · exact consistent.edge_lt listed
  · intro h edge member
    rw [edgesOf_enlist] at member
    have ends := consistent.ends_mem member
    exact ⟨mem_blocks_enlist.mpr (Or.inl ends.1), mem_blocks_enlist.mpr (Or.inl ends.2)⟩
  · intro h other member
    rw [edgesOf_enlist]
    rcases mem_blocks_enlist.mp member with old | ⟨-, rfl⟩
    · exact consistent.succs_eq old
    · have none : (program.edgesOf h).filter (·.src = other) = [] :=
        List.filter_eq_nil_iff.mpr fun edge member => by simpa using (untouched member).1
      rw [none]
      exact congrArg (·.succs.toList) block_eq
  · intro h other member
    rw [edgesOf_enlist]
    rcases mem_blocks_enlist.mp member with old | ⟨-, rfl⟩
    · exact consistent.preds_eq old
    · have none : (program.edgesOf h).filter (·.dst = other) = [] :=
        List.filter_eq_nil_iff.mpr fun edge member => by simpa using (untouched member).2
      rw [none]
      exact congrArg (·.preds.toList) block_eq
  · intro other outside
    exact consistent.loose_succs fun h member => outside h (mem_blocks_enlist.mpr (Or.inl member))

theorem Consistent.register (consistent : program.Consistent) (g : GraphRef) (name : String)
    (id : Int)
    : (program.register g name id).1.Consistent := by
  rw [register_eq]
  split
  · next unknown =>
      refine (consistent.addBlock name id).enlist ?_ ?_ ⟨name, ?_⟩ unknown
      · simp [Program.addBlock]
      · exact fun h => consistent.not_mem_size (g := h)
      · rw [block_addBlock, if_pos rfl]
  · exact consistent

/-- Only graphs that exist have registered blocks. -/
theorem graph_lt_of_mem (member : ref ∈ (program.graph g).blocks)
    : g < program.graphs.size := by
  by_contra past
  simp [graph, Nat.not_lt.mp past] at member

theorem Consistent.edgesOf_wire (consistent : program.Consistent)
    (registered : src ∈ (program.graph g).blocks) (h : GraphRef)
    : (program.wire g src dst).1.edgesOf h
      = if g = h then program.edgesOf g ++ [⟨src, dst⟩] else program.edgesOf h := by
  have old {k : GraphRef}
      : (program.graph k).edges.toList.map (program.wire g src dst).1.edge
        = program.edgesOf k := by
    refine List.map_congr_left fun e listed => ?_
    rw [edge_wire, if_neg (Nat.ne_of_lt (consistent.edge_lt (Array.mem_toList_iff.mp listed)))]
  rw [edgesOf, graph_wire]
  by_cases same : g = h
  · rw [if_pos ⟨same, graph_lt_of_mem registered⟩, if_pos same, Array.toList_push,
      List.map_append, old, List.map_singleton, edge_wire, if_pos rfl]
  · rw [if_neg (fun both => same both.1), if_neg same, old]

theorem blocks_wire (program : Program) (g : GraphRef) (src dst : BlockRef) (h : GraphRef)
    : ((program.wire g src dst).1.graph h).blocks = (program.graph h).blocks := by
  rw [graph_wire]
  split
  · next same => rw [same.1]
  · rfl

theorem find?_wire (program : Program) (g : GraphRef) (src dst : BlockRef) (h : GraphRef)
    (id : Int)
    : ((program.wire g src dst).1.graph h).find? id = (program.graph h).find? id := by
  rw [graph_wire]
  split
  · next same => rw [← same.1]; rfl
  · rfl

/-- A new edge is seen last from its own end, and from no other block's. -/
theorem Consistent.ends_wire (consistent : program.Consistent)
    (srcMem : src ∈ (program.graph g).blocks) (near far : Edge → BlockRef)
    (nearMem : near ⟨src, dst⟩ ∈ (program.graph g).blocks)
    (member : ref ∈ (program.graph h).blocks)
    : (((program.wire g src dst).1.edgesOf h).filter (near · = ref)).map far
      = ((program.edgesOf h).filter (near · = ref)).map far
        ++ if near ⟨src, dst⟩ = ref then [far ⟨src, dst⟩] else [] := by
  rw [consistent.edgesOf_wire srcMem]
  split
  case isTrue same =>
    subst same
    rw [List.filter_append, List.map_append, List.filter_singleton]
    split <;> simp_all
  case isFalse differs =>
    have apart : near ⟨src, dst⟩ ≠ ref := fun isRef =>
      differs (consistent.graph_unique nearMem (isRef ▸ member))
    rw [if_neg apart, List.append_nil]

/-- An edge between two blocks registered in its graph keeps a program consistent. Witness: the
neighbours of the two ends and the graph's edges grow together.
-/
theorem Consistent.wire (consistent : program.Consistent)
    (srcMem : src ∈ (program.graph g).blocks) (dstMem : dst ∈ (program.graph g).blocks)
    : (program.wire g src dst).1.Consistent := by
  have size_eq : (program.wire g src dst).1.blocks.size = program.blocks.size := by
    simp [Program.wire, listEdge, addSucc, addPred]
  have edges_size : (program.wire g src dst).1.edges.size = program.edges.size + 1 := by
    simp [Program.wire, listEdge, addSucc, addPred]
  refine ⟨?_, ?_, ?_, ?_, ?_, ?_, ?_, ?_, ?_⟩
  · intro h ref member
    rw [blocks_wire] at member
    exact size_eq ▸ consistent.block_lt member
  · intro h
    rw [blocks_wire]
    exact consistent.nodup h
  · intro h id ref
    rw [find?_wire, blocks_wire, consistent.find?_iff]
    refine and_congr_right fun member => ?_
    rw [idOf, idOf, block_wire _ _ _ _ _ (consistent.block_lt member)]
  · intro h k ref inFirst inSecond
    rw [blocks_wire] at inFirst inSecond
    exact consistent.graph_unique inFirst inSecond
  · intro h e listed
    rw [edges_size]
    rw [graph_wire] at listed
    split at listed
    · rcases Array.mem_push.mp listed with old | rfl
      · exact Nat.lt_succ_of_lt (consistent.edge_lt old)
      · exact Nat.lt_succ_self _
    · exact Nat.lt_succ_of_lt (consistent.edge_lt listed)
  · intro h edge member
    rw [consistent.edgesOf_wire srcMem] at member
    rw [blocks_wire]
    split at member
    · next same =>
        subst same
        cases List.mem_append.mp member with
        | inl old => exact consistent.ends_mem old
        | inr new =>
            obtain rfl := List.mem_singleton.mp new
            exact ⟨srcMem, dstMem⟩
    · exact consistent.ends_mem member
  · intro h ref member
    rw [blocks_wire] at member
    rw [block_wire _ _ _ _ _ (consistent.block_lt member),
      consistent.ends_wire srcMem Edge.src Edge.dst srcMem member, ← consistent.succs_eq member]
    dsimp only
    split <;> simp
  · intro h ref member
    rw [blocks_wire] at member
    rw [block_wire _ _ _ _ _ (consistent.block_lt member),
      consistent.ends_wire srcMem Edge.dst Edge.src dstMem member, ← consistent.preds_eq member]
    dsimp only
    split <;> simp
  · intro ref outside
    have loose (h : GraphRef) : ref ∉ (program.graph h).blocks :=
      blocks_wire program g src dst h ▸ outside h
    have srcNe : src ≠ ref := fun same => loose g (same ▸ srcMem)
    have dstNe : dst ≠ ref := fun same => loose g (same ▸ dstMem)
    rw [block_wire_of_ne srcNe dstNe]
    exact consistent.loose_succs loose

theorem Consistent.link (consistent : program.Consistent) (g : GraphRef) (src dst : BlockRef)
    : ((program.link g src dst).toOption.elim program Prod.fst).Consistent := by
  unfold Program.link
  split
  · exact consistent
  · next srcOk =>
      split
      · exact consistent
      · next dstOk =>
          have srcMem := consistent.isRegistered_iff.mp (by simpa using srcOk)
          have dstMem := consistent.isRegistered_iff.mp (by simpa using dstOk)
          exact consistent.wire srcMem dstMem

theorem Consistent.connect (consistent : program.Consistent) (g : GraphRef)
    (srcId dstId : Int)
    : ((program.connect g srcId dstId).toOption.elim program Prod.fst).Consistent := by
  unfold Program.connect
  split
  · exact consistent
  · split
    · exact consistent
    · exact consistent.link g _ _

theorem Consistent.perform (consistent : program.Consistent) (call : BuildCall)
    : (program.perform call).Consistent := by
  cases call with
  | graph => exact consistent.addGraph
  | block name id => exact consistent.addBlock name id
  | register g name id => exact consistent.register g name id
  | connect g srcId dstId => exact consistent.connect g srcId dstId
  | link g src dst => exact consistent.link g src dst

/-- Every built program is consistent. Witness: induction on the calls. -/
theorem consistent_build (calls : List BuildCall) : (build calls).Consistent :=
  List.foldlRecOn calls perform Consistent.empty fun _ consistent call _ =>
    consistent.perform call

end Program

end LoopNest
