import LoopNest.Proofs.Finder.Outcomes
import LoopNest.Proofs.Sweeping

/-! Runs of a finder on built graphs and fresh forests: a run never fails, it sweeps the traversal
of the graph until it ends or gives up, and the forest then holds one loop for each region found.
-/

namespace LoopNest

namespace Traversal

variable {walk : Traversal} {first x i j : Nat} {sweep : Sweep} {regions : Array Region}
  {region other : Region}

theorem Describes.part_inner (described : walk.Describes regions region) {part : Part}
    (listed : part ∈ region.parts)
    : ∃ x, part.number? regions = some x ∧ walk.Inner region.header x := by
  obtain ⟨pool, parts_eq, pools⟩ := described.parts_eq
  have numbered : part.number? regions ∈ pool.map some := parts_eq ▸ List.mem_map_of_mem listed
  obtain ⟨x, pooled, same⟩ := List.mem_map.mp numbered
  exact ⟨x, same.symm, (pools.mem_iff x).mp pooled⟩

theorem Describes.inner_part (described : walk.Describes regions region)
    (inner : walk.Inner region.header x)
    : ∃ part ∈ region.parts, part.number? regions = some x := by
  obtain ⟨pool, parts_eq, pools⟩ := described.parts_eq
  have numbered : some x ∈ region.parts.map (Part.number? regions) := by
    rw [parts_eq]
    exact List.mem_map_of_mem ((pools.mem_iff x).mpr inner)
  exact List.mem_map.mp numbered

/-- Later regions have smaller headers. -/
theorem Swept.header_lt (swept : walk.Swept first sweep) (before : i < j)
    (found : sweep.regions[i]? = some region) (foundToo : sweep.regions[j]? = some other)
    : other.header < region.header := by
  obtain ⟨inRange, same⟩ := Array.getElem?_eq_some_iff.mp found
  obtain ⟨inRangeToo, sameToo⟩ := Array.getElem?_eq_some_iff.mp foundToo
  have ordered := walk.headers_pairwise first
  rw [← swept.headers_eq, List.pairwise_map] at ordered
  have decreasing := List.pairwise_iff_getElem.mp ordered i j (by simpa using inRange)
    (by simpa using inRangeToo) before
  simpa [same, sameToo] using decreasing

/-- Recording what a sweep found in a fresh forest. -/
theorem Swept.grown_record (swept : walk.Swept first sweep) (store : LoopStore)
    (numbering : Numbering)
    : LoopStore.Grown numbering.order sweep.regions.toList store.loops.size
        ((store.addForest.1.record store.addForest.2 numbering sweep.regions).graftAll
          store.addForest.2)
        store.addForest.2 :=
  (LoopStore.records_record numbering store.forestIn_addForest swept.nestsEarlier).grown

end Traversal

theorem FlowGraph.mem_of_start? {graph : FlowGraph} {start : BlockRef}
    (isStart : graph.start? = some start)
    : start ∈ graph.blocks :=
  Array.mem_of_getElem? isStart

namespace Finder

variable {program : Program} {finder : Finder} {start : BlockRef}

/-- A run on a built graph with a start block either visits every number, or gives up at a number
that has too many ways in; it never fails.
-/
theorem run_eq (finder : Finder) (consistent : program.Consistent)
    (isStart : (program.graph finder.graph).start? = some start) (store : LoopStore)
    : ∃ final,
        (consistent.walk (FlowGraph.mem_of_start? isStart)).Swept 0 final
        ∧ finder.run program store
          = (let rooted := (store.record finder.forest (program.number start)
              final.regions).graftAll finder.forest
            let count := (rooted.forest finder.forest).loops.size
            ⟨rooted, { finder with stoppedAt := none }, .ok count,
              [.numbered (program.number start).size start,
                .found (count - 1) (program.number start).size
                  (program.graph finder.graph).size]⟩)
        ∨ ∃ header x,
            header < (program.number start).size
            ∧ (consistent.walk (FlowGraph.mem_of_start? isStart)).Swept (header + 1) final
            ∧ (consistent.walk (FlowGraph.mem_of_start? isStart)).Inner header x
            ∧ finder.bound < (final.entries.getD x []).length
            ∧ finder.run program store
              = ⟨(store.record finder.forest (program.number start)
                  final.regions).graftAll finder.forest,
                { finder with stoppedAt := some ((program.number start).blockOf x) }, .ok 0,
                [.numbered (program.number start).size start,
                  .gaveUp ((program.number start).blockOf x) (final.entries.getD x []).length
                    finder.bound]⟩ := by
  have registered := FlowGraph.mem_of_start? isStart
  have fits := consistent.number_size_le registered
  obtain ⟨sweep, started, swept⟩ :=
    (consistent.walk registered).swept_start program fun _ _ => rfl
  have started : Sweep.start program (program.number start) = .ok sweep := started
  obtain ⟨final, course⟩ := swept.visitAll (Nat.le_refl _) finder.bound
  refine ⟨final, ?_⟩
  rcases course with ⟨ended, visited⟩ | ⟨header, x, known, stopped, inner, heavy, visited⟩
  · have visited : sweep.run (program.number start) finder.bound = (final, none) := visited
    exact Or.inl ⟨ended, run_of_ended isStart fits started visited store⟩
  · have visited : sweep.run (program.number start) finder.bound
        = (final, some (.overload x (final.entries.getD x []).length)) := visited
    exact Or.inr ⟨header, x, known, stopped, inner, heavy,
      run_of_gaveUp isStart fits started visited store⟩

/-- The run of a finder that records in a forest added for it. -/
def runFresh (finder : Finder) (program : Program) (store : LoopStore) : Run :=
  { finder with forest := store.addForest.2 }.run program store.addForest.1

theorem runFresh_of_none (noStart : (program.graph finder.graph).start? = none)
    (store : LoopStore)
    : finder.runFresh program store
      = ⟨store.addForest.1, { finder with forest := store.addForest.2, stoppedAt := none },
          .ok 0, []⟩ :=
  @run_of_none program { finder with forest := store.addForest.2 } noStart store.addForest.1

theorem runFresh_grown_nil (noStart : (program.graph finder.graph).start? = none)
    (store : LoopStore)
    : LoopStore.Grown #[] [] store.loops.size (finder.runFresh program store).store
        store.addForest.2 := by
  rw [runFresh_of_none noStart]
  exact store.grown_addForest

/-- Whether a run ends or gives up, its forest holds what it found in the numbers it visited. -/
theorem runFresh_grown (consistent : program.Consistent)
    (isStart : (program.graph finder.graph).start? = some start) (store : LoopStore)
    : ∃ first final,
        (consistent.walk (FlowGraph.mem_of_start? isStart)).Swept first final
        ∧ LoopStore.Grown (program.number start).order final.regions.toList store.loops.size
            (finder.runFresh program store).store store.addForest.2 := by
  obtain ⟨final, course⟩ := run_eq { finder with forest := store.addForest.2 }
    consistent isStart store.addForest.1
  rcases course with ⟨swept, ran⟩ | ⟨header, x, -, swept, -, -, ran⟩
  · rw [runFresh, ran]
    exact ⟨0, final, swept, swept.grown_record store (program.number start)⟩
  · rw [runFresh, ran]
    exact ⟨header + 1, final, swept, swept.grown_record store (program.number start)⟩

/-- A run that does not give up visits every number, and its forest holds what was found. -/
theorem runFresh_complete (consistent : program.Consistent)
    (isStart : (program.graph finder.graph).start? = some start) {store : LoopStore}
    (complete : (finder.runFresh program store).finder.stopped = false)
    : ∃ final,
        (consistent.walk (FlowGraph.mem_of_start? isStart)).Swept 0 final
        ∧ LoopStore.Grown (program.number start).order final.regions.toList store.loops.size
            (finder.runFresh program store).store store.addForest.2
        ∧ (finder.runFresh program store).outcome = .ok (final.regions.size + 1) := by
  obtain ⟨final, course⟩ := run_eq { finder with forest := store.addForest.2 }
    consistent isStart store.addForest.1
  rcases course with ⟨swept, ran⟩ | ⟨header, x, -, -, -, -, ran⟩
  · have grown := swept.grown_record store (program.number start)
    rw [runFresh, ran]
    refine ⟨final, swept, grown, ?_⟩
    have size_eq := congrArg List.length grown.loops_eq
    rw [List.length_range', Array.length_toList, Array.length_toList] at size_eq
    exact congrArg Except.ok size_eq
  · rw [runFresh, ran] at complete
    cases complete

/-- A run that gives up does so in the visit of some header, at a number directly inside its
cluster that has more ways in than the bound allows.
-/
theorem runFresh_stopped (consistent : program.Consistent)
    (isStart : (program.graph finder.graph).start? = some start) {store : LoopStore}
    (stopped : (finder.runFresh program store).finder.stopped = true)
    : ∃ header x final,
        header < (program.number start).size
        ∧ (consistent.walk (FlowGraph.mem_of_start? isStart)).Swept (header + 1) final
        ∧ (consistent.walk (FlowGraph.mem_of_start? isStart)).Inner header x
        ∧ finder.bound < (final.entries.getD x []).length := by
  obtain ⟨final, course⟩ := run_eq { finder with forest := store.addForest.2 }
    consistent isStart store.addForest.1
  rcases course with ⟨_, ran⟩ | ⟨header, x, known, swept, inner, heavy, -⟩
  · rw [runFresh, ran] at stopped
    cases stopped
  · exact ⟨header, x, final, known, swept, inner, heavy⟩

end Finder

end LoopNest
