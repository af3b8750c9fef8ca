import LoopNest.Proofs.Finder.Nesting

/-! Which loops a run finds: one for each reached block that an edge from its own subtree leads
to, stored in the order of decreasing numbers. What each contains: the blocks below its header
that return to it without leaving the header's subtree.
-/

namespace LoopNest

/-- By the numbering's own subtree test, a block lies in the subtree of a top block. -/
def Numbering.Descends (numbering : Numbering) (program : Program) (top block : BlockRef)
    : Prop :=
  ∃ first number,
    numbering.number? (program.idOf top) = some first
    ∧ numbering.number? (program.idOf block) = some number
    ∧ numbering.inSubtree first number = .ok true

instance (numbering : Numbering) (program : Program) (top block : BlockRef)
    : Decidable (numbering.Descends program top block) :=
  decidable_of_iff
    (∃ first ∈ numbering.number? (program.idOf top),
      ∃ number ∈ numbering.number? (program.idOf block),
        numbering.inSubtree first number = .ok true)
    ⟨fun ⟨first, isFirst, number, isNumber, below⟩ => ⟨first, number, isFirst, isNumber, below⟩,
      fun ⟨first, number, isFirst, isNumber, below⟩ => ⟨first, isFirst, number, isNumber, below⟩⟩

/-- The descendants of a header that return to it over its descendants only. -/
def Program.loopBody (program : Program) (start header : BlockRef) : Set BlockRef :=
  { block |
      (program.number start).Descends program header block
      ∧ Within program.Flows
          { between | (program.number start).Descends program header between } block header }

/-- An edge from its own subtree leads to a reached block. -/
def Program.IsHeader (program : Program) (g : GraphRef) (start block : BlockRef) : Prop :=
  block ∈ program.reached g
  ∧ ∃ source,
      program.Flows source block ∧ (program.number start).Descends program block source

namespace Program.Consistent

variable {program : Program} {g : GraphRef} {start ref : BlockRef}
  {consistent : program.Consistent} {registered : start ∈ (program.graph g).blocks}
  {final : Sweep} {store : LoopStore} {root : LoopRef} {forest : ForestRef} {top number : Nat}

/-- Among registered blocks, descendants are the blocks of the numbers below. -/
theorem descends_iff (consistent : program.Consistent)
    (registered : start ∈ (program.graph g).blocks) (known : top < (program.number start).size)
    (member : ref ∈ (program.graph g).blocks)
    : (program.number start).Descends program ((program.number start).blockOf top) ref
      ↔ ref ∈ (program.number start).blockOf ''
          { number | (program.number start).Below top number } := by
  have whole := consistent.whole registered
  have numbered := whole.sound.number_blockOf known
  have test (number : Nat)
      : (program.number start).inSubtree top number = .ok true
        ↔ (program.number start).Below top number := by
    rw [Numbering.inSubtree_eq (whole.sound.last_size ▸ known), Except.ok.injEq,
      decide_eq_true_eq]
  constructor
  · intro ⟨first, number, isFirst, isNumber, below⟩
    obtain rfl := Option.some.inj (numbered.symm.trans isFirst)
    exact ⟨number, (test number).mp below,
      ((consistent.number?_iff registered member).mp isNumber).2⟩
  · intro ⟨number, below, same⟩
    have inTable : number < (program.number start).size :=
      (consistent.walk registered).below_lt known below
    exact ⟨top, number, numbered,
      (consistent.number?_iff registered member).mpr ⟨inTable, same⟩, (test number).mpr below⟩

/-- Headers of loops are the blocks of the numbers that head a cluster. -/
theorem isHeader_iff (consistent : program.Consistent)
    (registered : start ∈ (program.graph g).blocks)
    (isStart : (program.graph g).start? = some start)
    : program.IsHeader g start ref
      ↔ ∃ top, (consistent.walk registered).Heads top
          ∧ (program.number start).blockOf top = ref := by
  rw [IsHeader, consistent.reached_eq isStart]
  constructor
  · intro ⟨⟨top, known, same⟩, source, flows, descends⟩
    subst same
    have known : top < (program.number start).size := known
    have srcMem := consistent.mem_of_flows (consistent.blockOf_mem registered known) flows
    obtain ⟨number, below, same⟩ := (consistent.descends_iff registered known srcMem).mp descends
    have inTable := (consistent.walk registered).below_lt known below
    refine ⟨top, ⟨number, ?_, below⟩, rfl⟩
    rw [consistent.walk_flows_iff registered, same]
    exact ⟨inTable, known, flows⟩
  · intro ⟨top, ⟨source, flows, below⟩, same⟩
    obtain ⟨sourceKnown, known, flows⟩ := (consistent.walk_flows_iff registered).mp flows
    subst same
    refine ⟨⟨top, known, rfl⟩, _, flows, ?_⟩
    exact (consistent.descends_iff registered known
      (consistent.blockOf_mem registered sourceKnown)).mpr ⟨source, below, rfl⟩

/-- The blocks of a cluster are the descendants of its top that return to the top over descendants
only. Witness: edges do not enter the graph from outside, so blocks on the way are registered.
-/
theorem loopBody_eq (consistent : program.Consistent)
    (registered : start ∈ (program.graph g).blocks) (known : top < (program.number start).size)
    : program.loopBody start ((program.number start).blockOf top)
      = consistent.clusterBlocks registered top := by
  have topBelow : (program.number start).Below top top :=
    (consistent.walk registered).below_self known
  have inTable : ∀ number ∈ { number | (program.number start).Below top number },
      number < (program.number start).size :=
    fun number below => (consistent.walk registered).below_lt known below
  ext block
  constructor
  · intro ⟨_, returns⟩
    have carried := returns.head_induction
      (motive := fun block => Within program.Flows
        ((program.number start).blockOf '' { number | (program.number start).Below top number })
        block ((program.number start).blockOf top))
      (fun _ => .refl ⟨top, topBelow, rfl⟩)
      (by
        intro x y descends flows _ onward
        obtain ⟨number, below, same⟩ := onward.source_mem
        have member := consistent.blockOf_mem registered (inTable number below)
        have srcMem := consistent.mem_of_flows (same ▸ member) flows
        exact .head ((consistent.descends_iff registered known srcMem).mp descends) flows onward)
    obtain ⟨x, below, same⟩ := carried.source_mem
    subst same
    have back := (consistent.within_blockOf_iff registered inTable below topBelow).mp carried
    exact ⟨x, (Traversal.cluster_iff known).mpr ⟨below, back⟩, rfl⟩
  · intro ⟨x, member, same⟩
    subst same
    obtain ⟨below, returns⟩ := (Traversal.cluster_iff known).mp member
    have descends {y : Nat} (below : (program.number start).Below top y) :=
      (consistent.descends_iff registered known
        (consistent.blockOf_mem registered (inTable y below))).mpr ⟨y, below, rfl⟩
    refine ⟨descends below, ?_⟩
    refine ((consistent.within_blockOf_iff registered inTable below topBelow).mpr returns).mono ?_
    intro between ⟨y, betweenBelow, same⟩
    exact same ▸ descends betweenBelow

end Program.Consistent

/-- A forest lists the loops of a graph: after the root it stores one loop for each header, by
decreasing number of the header and with counters from one on, and the body of each loop is what
returns to its header inside the header's subtree.
-/
structure LoopStore.ListsHeaders (store : LoopStore) (forest : ForestRef) (program : Program)
    (g : GraphRef) (start : BlockRef) (headers : List BlockRef)
    : Prop where
  mem_iff : ∀ block, block ∈ headers ↔ program.IsHeader g start block
  decreasing
    : headers.Pairwise fun earlier later =>
        ∃ larger smaller,
          (program.number start).number? (program.idOf earlier) = some larger
          ∧ (program.number start).number? (program.idOf later) = some smaller
          ∧ smaller < larger
  size_eq : (store.forest forest).loops.size = headers.length + 1
  root_eq : (store.forest forest).loops[0]? = some (store.forest forest).root
  loop_at
    : ∀ i header, headers[i]? = some header
      → ∃ ref,
          (store.forest forest).loops[i + 1]? = some ref
          ∧ ref ≠ (store.forest forest).root
          ∧ (store.loop ref).header = some header
          ∧ (store.loop ref).counter = ((i + 1 : Nat) : Int)
          ∧ store.body ref = program.loopBody start header

/-- A whole sweep recorded in a fresh forest lists the loops of its graph. -/
theorem Program.Consistent.listsHeaders {program : Program} {g : GraphRef} {start : BlockRef}
    {consistent : program.Consistent} {registered : start ∈ (program.graph g).blocks}
    {final : Sweep} {store : LoopStore} {root : LoopRef} {forest : ForestRef}
    (isStart : (program.graph g).start? = some start)
    (swept : (consistent.walk registered).Swept 0 final)
    (grown : LoopStore.Grown (program.number start).order final.regions.toList root store forest)
    : store.ListsHeaders forest program g start
        (final.regions.toList.map fun region =>
          (program.number start).blockOf region.header) := by
  have sound := (consistent.whole registered).sound
  have inTable {region : Region} (listed : region ∈ final.regions)
      : region.header < (program.number start).size :=
    (swept.header_iff.mp ⟨region, listed, rfl⟩).2.lt
  have stored (i : Nat) (inRange : i < final.regions.size + 1)
      : (store.forest forest).loops[i]? = some (root + i) := by
    rw [← Array.getElem?_toList, grown.loops_eq, List.getElem?_range' (by simpa using inRange),
      Nat.one_mul]
  refine ⟨?_, ?_, ?_, ?_, ?_⟩
  · intro block
    rw [consistent.isHeader_iff registered isStart, List.mem_map]
    constructor
    · intro ⟨region, listed, same⟩
      exact ⟨region.header,
        (swept.header_iff.mp ⟨region, Array.mem_toList_iff.mp listed, rfl⟩).2, same⟩
    · intro ⟨top, heads, same⟩
      obtain ⟨region, listed, rfl⟩ := swept.header_iff.mpr ⟨Nat.zero_le top, heads⟩
      exact ⟨region, Array.mem_toList_iff.mpr listed, same⟩
  · have ordered := (consistent.walk registered).headers_pairwise 0
    rw [← swept.headers_eq, List.pairwise_map] at ordered
    rw [List.pairwise_map]
    refine ordered.imp_of_mem ?_
    intro earlier later listed listedToo before
    exact ⟨earlier.header, later.header,
      sound.number_blockOf (inTable (Array.mem_toList_iff.mp listed)),
      sound.number_blockOf (inTable (Array.mem_toList_iff.mp listedToo)), before⟩
  · have size_eq := congrArg List.length grown.loops_eq
    rwa [List.length_range', Array.length_toList, ← List.length_map] at size_eq
  · rw [stored 0 (Nat.zero_lt_succ _), grown.root_eq]
    rfl
  · intro i header listed
    rw [List.getElem?_map] at listed
    obtain ⟨region, found, rfl⟩ := Option.map_eq_some_iff.mp listed
    obtain ⟨parent, -, loop_eq⟩ := grown.region_loop i region found
    rw [Array.getElem?_toList] at found
    have inRange := (Array.getElem?_eq_some_iff.mp found).1
    refine ⟨root + 1 + i, ?_, ?_, by rw [loop_eq]; rfl, by rw [loop_eq]; rfl, ?_⟩
    · rw [stored (i + 1) (Nat.succ_lt_succ inRange), Nat.add_right_comm, Nat.add_assoc]
    · rw [grown.root_eq]
      exact Nat.ne_of_gt ((Nat.lt_succ_self root).trans_le (Nat.le_add_right _ i))
    · rw [consistent.loopBody_eq registered (inTable (Array.mem_of_getElem? found))]
      exact Program.Consistent.body_eq swept grown found

/-- A run that does not give up finds one loop for each header of its graph, and counts them and
the root; without a start block it finds and counts nothing.
-/
theorem Finder.runFresh_listsHeaders (calls : List BuildCall) (finder : Finder)
    (store : LoopStore)
    (complete : (finder.runFresh (Program.build calls) store).finder.stopped = false)
    : let program := Program.build calls
      let run := finder.runFresh program store
      ((program.graph finder.graph).start? = none
        → (run.store.forest store.addForest.2).loops
            = #[(run.store.forest store.addForest.2).root]
          ∧ run.outcome = .ok 0)
      ∧ ∀ start, (program.graph finder.graph).start? = some start
          → ∃ headers,
              run.store.ListsHeaders store.addForest.2 program finder.graph start headers
              ∧ run.outcome = .ok (headers.length + 1) := by
  intro program run
  have consistent : program.Consistent := Program.consistent_build calls
  refine ⟨?_, ?_⟩
  · intro noStart
    have ran : run = _ := Finder.runFresh_of_none noStart store
    rw [ran, LoopStore.forest_addForest]
    exact ⟨rfl, rfl⟩
  · intro start isStart
    obtain ⟨final, swept, grown, counted⟩ := Finder.runFresh_complete consistent isStart complete
    refine ⟨_, Program.Consistent.listsHeaders isStart swept grown, ?_⟩
    rw [List.length_map, Array.length_toList]
    exact counted

theorem Finder.runFresh_listsHeaders_irreducible
    : let program := Program.build (BuildCall.ofEdges 4
        [(0, 1), (1, 2), (2, 3), (3, 2), (3, 1), (0, 3), (2, 2)])
      let run := runFresh { graph := 0, forest := 0 } program {}
      run.finder.stopped = false
      ∧ (program.graph 0).start? = some 0
      ∧ ∃ headers,
          run.store.ListsHeaders 0 program 0 0 headers
          ∧ run.outcome = .ok (headers.length + 1) := by
  intro program run
  have complete : run.finder.stopped = false := by decide +kernel
  have isStart : (program.graph 0).start? = some 0 := by decide +kernel
  exact ⟨complete, isStart, (runFresh_listsHeaders _ _ _ complete).2 0 isStart⟩

/-- A run on a graph without blocks counts nothing, not even the root. -/
theorem Finder.runFresh_outcome_of_no_blocks
    : let run := runFresh { graph := 0, forest := 0 } (Program.build [.graph]) {}
      let whole := run.store.forest 0
      run.finder.stopped = false
      ∧ run.outcome ≠ .ok (1 + (whole.loops.toList.filter (· ≠ whole.root)).length) := by
  decide +kernel

end LoopNest
