import LoopNest.Proofs.Finder.Nesting

/-! The reducible flag of a loop says that its header is the only way in: every path from the
start to its body passes the header, and no edge from a reached block outside enters elsewhere.
-/

namespace LoopNest

namespace Program.Consistent

variable {program : Program} {g : GraphRef} {start : BlockRef} {top : Nat}
  (consistent : program.Consistent) {registered : start ∈ (program.graph g).blocks}

/-- In blocks: no edge from a reached block outside enters the cluster besides its top. -/
theorem singleEntry_iff_edges (isStart : (program.graph g).start? = some start)
    (known : top < (program.number start).size)
    : (consistent.walk registered).SingleEntry top
      ↔ ∀ src dst,
          src ∈ program.reached g → src ∉ consistent.clusterBlocks registered top
          → program.Flows src dst → dst ∈ consistent.clusterBlocks registered top
          → dst = (program.number start).blockOf top := by
  have injective := consistent.blockOf_injOn registered
  rw [consistent.reached_eq isStart]
  constructor
  · intro single src dst ⟨source, sourceKnown, isSource⟩ outside flows ⟨target, member, isTarget⟩
    by_contra differs
    subst isSource isTarget
    have member : (consistent.walk registered).Cluster top target := member
    have targetKnown := Traversal.number_lt (member.below known)
    have edge := (consistent.walk_flows_iff registered).mpr ⟨sourceKnown, targetKnown, flows⟩
    have inside := single source target edge member fun same => differs (same ▸ rfl)
    exact outside ⟨source, inside, rfl⟩
  · intro only source target flows member differs
    obtain ⟨sourceKnown, targetKnown, edge⟩ := (consistent.walk_flows_iff registered).mp flows
    by_contra apart
    have outside := mt (consistent.mem_clusterBlocks_iff registered known sourceKnown).mp apart
    have same := only _ _ ⟨source, sourceKnown, rfl⟩ outside edge ⟨target, member, rfl⟩
    exact differs (injective targetKnown known same)

/-- In blocks: every path from the start into the cluster passes the block of its top. -/
theorem singleEntry_iff_paths (isStart : (program.graph g).start? = some start)
    (known : top < (program.number start).size)
    : (consistent.walk registered).SingleEntry top
      ↔ ∀ block ∈ consistent.clusterBlocks registered top,
          ∀ path, IsPath program.Flows path start block
            → (program.number start).blockOf top ∈ path := by
  have injective := consistent.blockOf_injOn registered
  have whole := consistent.whole registered
  simp only [Within.forall_mem_path_iff]
  constructor
  · intro single block inside avoids
    have edges := (consistent.singleEntry_iff_edges isStart known).mp single
    -- Back along the path nothing leaves the cluster, so its start would lie in the cluster too.
    have startInside : start ∈ consistent.clusterBlocks registered top := by
      refine avoids.head_induction
        (motive := fun x => x ∈ program.reached g → x ∈ consistent.clusterBlocks registered top)
        (fun _ _ => inside) ?_ ⟨start, isStart, .refl trivial⟩
      intro x y _ flows rest ih reached
      obtain ⟨start', isStart', toX⟩ := reached
      have yInside := ih ⟨start', isStart', toX.tail flows trivial⟩
      by_contra outside
      exact rest.source_mem (edges x y ⟨start', isStart', toX⟩ outside flows yInside)
    obtain ⟨x, member, same⟩ := startInside
    have member : (consistent.walk registered).Cluster top x := member
    have isZero : x = 0 := by
      refine injective (Traversal.number_lt (member.below known)) whole.positive ?_
      rw [same, whole.blockOf_zero]
    have topZero : top = 0 := Nat.le_zero.mp (isZero ▸ member.le)
    refine avoids.source_mem ?_
    rw [topZero, whole.blockOf_zero]
  · intro passes
    refine Traversal.singleEntry_of_avoids fun target member avoids => ?_
    refine passes _ ⟨target, member, rfl⟩ ?_
    have mapped : Within program.Flows { y | y ≠ (program.number start).blockOf top }
        ((program.number start).blockOf 0) ((program.number start).blockOf target) :=
      avoids.map (program.number start).blockOf
        (fun x ⟨inTable, differs⟩ same => differs (injective inTable known same))
        fun _ _ _ _ flows => ((consistent.walk_flows_iff registered).mp flows).2.2
    rwa [whole.blockOf_zero] at mapped

end Program.Consistent

/-- In a forest of loops found in a graph, each loop's flag says that its header is the only way
into its body, by paths from the start and by edges from reached blocks alike.
-/
structure LoopStore.FlagsSingleEntry (store : LoopStore) (program : Program) (g : GraphRef)
    (start : BlockRef) (ref : LoopRef) (header : BlockRef)
    : Prop where
  header_eq : (store.loop ref).header = some header
  by_paths
    : (store.loop ref).reducible = true
      ↔ ∀ block ∈ store.body ref, ∀ path, IsPath program.Flows path start block → header ∈ path
  by_edges
    : (store.loop ref).reducible = true
      ↔ ∀ src dst,
          src ∈ program.reached g → src ∉ store.body ref → program.Flows src dst
          → dst ∈ store.body ref → dst = header

/-- After a run that does not give up, every loop but the root flags a single entry. -/
theorem Finder.runFresh_flagsSingleEntry (calls : List BuildCall) (finder : Finder)
    (store : LoopStore)
    (complete : (finder.runFresh (Program.build calls) store).finder.stopped = false)
    : let program := Program.build calls
      let after := (finder.runFresh program store).store
      let whole := after.forest store.addForest.2
      ∀ ref ∈ whole.loops, ref ≠ whole.root
        → ∃ start header,
            (program.graph finder.graph).start? = some start
            ∧ after.FlagsSingleEntry program finder.graph start ref header := by
  intro program after whole ref listed notRoot
  have consistent : program.Consistent := Program.consistent_build calls
  cases isStart : (program.graph finder.graph).start? with
  | none =>
      have grown := Finder.runFresh_grown_nil isStart store
      exact absurd ((grown.eq_root listed).trans grown.root_eq.symm) notRoot
  | some start =>
      obtain ⟨final, swept, grown, -⟩ := Finder.runFresh_complete consistent isStart complete
      rcases grown.mem_loops_iff.mp listed with isRoot | ⟨i, region, found, rfl⟩
      · exact absurd (isRoot.trans grown.root_eq.symm) notRoot
      · obtain ⟨parent, -, loop_eq⟩ := grown.region_loop i region found
        rw [Array.getElem?_toList] at found
        have known := (swept.heads found).lt
        have described := swept.described region (Array.mem_of_getElem? found)
        have flag : (after.loop (store.loops.size + 1 + i)).reducible = true
            ↔ (consistent.walk (FlowGraph.mem_of_start? isStart)).SingleEntry region.header := by
          rw [loop_eq]
          exact described.reducible_iff
        refine ⟨start, (program.number start).blockOf region.header, rfl, by rw [loop_eq]; rfl,
          ?_, ?_⟩
        · rw [flag, Program.Consistent.body_eq swept grown found]
          exact consistent.singleEntry_iff_paths isStart known
        · rw [flag, Program.Consistent.body_eq swept grown found]
          exact consistent.singleEntry_iff_edges isStart known

theorem Finder.runFresh_flagsSingleEntry_irreducible
    : let program := Program.build (BuildCall.ofEdges 4
        [(0, 1), (1, 2), (2, 3), (3, 2), (3, 1), (0, 3)])
      let run := runFresh { graph := 0, forest := 0 } program {}
      run.finder.stopped = false
      ∧ (run.store.loop 1).reducible = false
      ∧ ∃ start header,
          (program.graph 0).start? = some start
          ∧ run.store.FlagsSingleEntry program 0 start 1 header := by
  intro program run
  have complete : run.finder.stopped = false := by decide +kernel
  have irreducible : (run.store.loop 1).reducible = false := by decide +kernel
  have listed : 1 ∈ (run.store.forest 0).loops := by decide +kernel
  have notRoot : 1 ≠ (run.store.forest 0).root := by decide +kernel
  exact ⟨complete, irreducible, runFresh_flagsSingleEntry _ _ _ complete 1 listed notRoot⟩

end LoopNest
