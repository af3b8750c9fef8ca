import LoopNest.Proofs.Finder.Outcomes
import LoopNest.Proofs.Program.Construction
import LoopNest.Workspace

/-! The footprint of a run: whatever a workspace holds, a run adds loops at the end of its own
forest and hangs the orphans of that forest below the root. It leaves everything else alone.
-/

namespace LoopNest

namespace LoopStore

variable {before after store : LoopStore} {forest : ForestRef} {ref : LoopRef} {made : Nat}
  {adopts : Prop}

/-- The forest stores the loop, which has no parent and is not the root. -/
def IsOrphan (store : LoopStore) (forest : ForestRef) (ref : LoopRef) : Prop :=
  ref ∈ (store.forest forest).loops
  ∧ ref ≠ (store.forest forest).root
  ∧ (store.loop ref).parent = none

/-- All that differs between two stores: so many new loops, which one forest stores at its end and
counts, and the parents of that forest's orphans, if it adopts them.
-/
structure Extends (before : LoopStore) (forest : ForestRef) (made : Nat) (adopts : Prop)
    (after : LoopStore)
    : Prop where
  forests_size : after.forests.size = before.forests.size
  forest_elsewhere : ∀ other ≠ forest, after.forest other = before.forest other
  forest_eq
    : after.forest forest
      = { before.forest forest with
          loops := (before.forest forest).loops
            ++ (List.range' before.loops.size made).toArray
          nextCounter := (before.forest forest).nextCounter + made }
  size_eq : after.loops.size = before.loops.size + made
  loop_kept
    : ∀ ref < before.loops.size, ¬ (adopts ∧ before.IsOrphan forest ref)
      → after.loop ref = before.loop ref
  loop_adopted
    : ∀ ref < before.loops.size, adopts → before.IsOrphan forest ref
      → after.loop ref
        = { before.loop ref with parent := some (before.forest forest).root }

theorem Extends.refl (store : LoopStore) (forest : ForestRef) (never : ¬ adopts)
    : store.Extends forest 0 adopts store := by
  refine ⟨rfl, fun _ _ => rfl, ?_, rfl, fun _ _ _ => rfl, ?_⟩
  · simp
  · exact fun ref _ adopted => absurd adopted never

/-- After recording, a loop from before is grafted exactly if it was an orphan. Witness: new loops
stand after all loops from before, so the forest lists the same of these.
-/
theorem Records.graftAll_of_lt {order : Array BlockRef} {regions : List Region}
    (records : Records order forest before regions after)
    (forestIn : forest < before.forests.size) (known : ref < before.loops.size)
    : (after.graftAll forest).loop ref
      = if ref ∈ (before.forest forest).loops ∧ ref ≠ (before.forest forest).root
            ∧ (before.loop ref).parent = none
        then { before.loop ref with parent := some (before.forest forest).root }
        else before.loop ref := by
  have stillKnown : ref < after.loops.size := by
    rw [records.size_eq]
    exact Nat.lt_add_right _ known
  have listed_iff : ref ∈ (after.forest forest).loops ↔ ref ∈ (before.forest forest).loops := by
    refine (records.mem_loops_iff forestIn).trans (or_iff_left ?_)
    rintro ⟨i, -, -, rfl⟩
    exact absurd known (Nat.not_lt.mpr (Nat.le_add_right _ i))
  have root_eq : (after.forest forest).root = (before.forest forest).root := by
    rw [records.forest_eq forestIn]
  rw [graftAll, loop_foldl_graft, root_eq, records.kept ref known]
  refine if_congr ?_ rfl rfl
  rw [Array.mem_toList_iff, listed_iff, and_iff_right stillKnown]

/-- Recording a sweep and grafting extends a store. -/
theorem Records.extends {order : Array BlockRef} {regions : List Region}
    (records : Records order forest before regions after)
    (forestIn : forest < before.forests.size) (holds : adopts)
    : before.Extends forest regions.length adopts (after.graftAll forest) := by
  refine ⟨?_, ?_, ?_, ?_, ?_, ?_⟩
  · rw [forests_graftAll, records.forests_eq, Array.size_modify]
  · intro other elsewhere
    rw [forest_graftAll, LoopStore.forest, records.forests_eq]
    simp [LoopStore.forest, Array.getElem?_modify, Ne.symm elsewhere]
  · rw [forest_graftAll, records.forest_eq forestIn]
  · rw [size_graftAll, records.size_eq]
  · intro ref known kept
    rw [records.graftAll_of_lt forestIn known, if_neg]
    exact fun orphan => kept ⟨holds, orphan⟩
  · intro ref known _ orphan
    rw [records.graftAll_of_lt forestIn known]
    exact if_pos orphan

end LoopStore

namespace Finder

/-- A run gives up, or it ends and there was a start block. -/
def Finishes (finder : Finder) (program : Program) (run : Run) : Prop :=
  run.finder.stopped = true
  ∨ (∃ count, run.outcome = .ok count) ∧ ∃ start, (program.graph finder.graph).start? = some start

/-- A run extends its store, and adopts orphans exactly if it finishes. Witness: the ways a run can
go.
-/
theorem run_extends (finder : Finder) (program : Program) {store : LoopStore}
    (recordsIn : finder.forest < store.forests.size)
    : ∃ made,
        store.Extends finder.forest made
          (finder.Finishes program (finder.run program store))
          (finder.run program store).store := by
  rcases finder.run_cases program store with
    ⟨noStart, ran⟩
      | ⟨start, isStart, ⟨-, ran⟩ | ⟨-, regions, stoppedAt, count, log, earlier, -, ran⟩⟩
  · rw [ran]
    refine ⟨0, .refl store finder.forest ?_⟩
    rintro (stopped | ⟨-, start, isStart⟩)
    · cases stopped
    · rw [noStart] at isStart
      cases isStart
  · rw [ran]
    refine ⟨0, .refl store finder.forest ?_⟩
    rintro (stopped | ⟨⟨count, counted⟩, -⟩)
    · cases stopped
    · cases counted
  · rw [ran]
    exact ⟨_, (LoopStore.records_record (program.number start) recordsIn earlier).extends recordsIn
      (Or.inr ⟨⟨count, rfl⟩, start, isStart⟩)⟩

/-- Of the finder a run changes the status only. -/
theorem run_finder_eq (finder : Finder) (program : Program) (store : LoopStore)
    : ∃ stoppedAt, (finder.run program store).finder = { finder with stoppedAt } := by
  rcases finder.run_cases program store with
    ⟨-, ran⟩ | ⟨_, -, ⟨-, ran⟩ | ⟨-, _, stoppedAt, _, _, -, -, ran⟩⟩
  · exact ⟨none, by rw [ran]⟩
  · exact ⟨none, by rw [ran]⟩
  · exact ⟨stoppedAt, by rw [ran]⟩

end Finder

namespace Workspace

/-- How one run of a finder makes two workspaces differ: in their stores at most, and there by new
loops in the finder's forest and by adopted orphans.
-/
structure ChangedByRun (before : Workspace) (finder : Finder) (run : Run) (after : Workspace)
    : Prop where
  program_eq : after.program = before.program
  numberings_eq : after.numberings = before.numberings
  sets_eq : after.sets = before.sets
  cells_eq : after.cells = before.cells
  store_extends
    : ∃ made,
        before.store.Extends finder.forest made (finder.Finishes before.program run) after.store

theorem changedByRun (space : Workspace) {finder : Finder}
    (recordsIn : finder.forest < space.store.forests.size) (finders : Array Finder)
    : space.ChangedByRun finder (finder.run space.program space.store)
        { space with store := (finder.run space.program space.store).store, finders } :=
  ⟨rfl, rfl, rfl, rfl, finder.run_extends space.program recordsIn⟩

/-- A run of a finder leaves all blocks, graphs, edges and cells, all other forests, and every loop
that there was, except that it hangs the orphans of its own forest below the root if it finishes. Of
the finders only the status of the one that runs may change; one that is not kept changes none.
-/
theorem runFinder_changedByRun (space : Workspace) (ref : FinderRef)
    (recordsIn : (space.finder ref).forest < space.store.forests.size)
    : let finder := space.finder ref
      let kept := space.runFinder ref
      space.ChangedByRun finder kept.2 kept.1
      ∧ (∃ stoppedAt, kept.1.finder ref = { finder with stoppedAt })
      ∧ (∀ other ≠ ref, kept.1.finder other = space.finder other)
      ∧ ∀ graph,
          let passing := space.analyze graph finder.forest
          space.ChangedByRun { graph, forest := finder.forest } passing.2 passing.1
          ∧ passing.1.finders = space.finders := by
  intro finder kept
  refine ⟨space.changedByRun recordsIn _, ?_, ?_, ?_⟩
  · obtain ⟨stoppedAt, finder_eq⟩ := finder.run_finder_eq space.program space.store
    by_cases known : ref < space.finders.size
    · refine ⟨stoppedAt, finder_eq ▸ ?_⟩
      simp [kept, runFinder, Workspace.finder, finder, known]
    · refine ⟨finder.stoppedAt, ?_⟩
      simp [kept, runFinder, Workspace.finder, finder, known]
  · intro other differs
    simp [kept, runFinder, Workspace.finder, Array.getElem?_setIfInBounds_ne (Ne.symm differs)]
  · intro graph passing
    exact ⟨@changedByRun space { graph, forest := finder.forest } recordsIn space.finders, rfl⟩

/-- Two forests share a loop made by hand, which nests another, and the first forest stores the root
of the second one too: both strays are hung below the root, and nothing of the second forest but its
root's parent changes.
-/
theorem runFinder_changedByRun_shared
    : let store := (((({} : LoopStore).addForest.1.addForest.1.addLoop { counter := 7 }).1.addLoop
        { counter := 7 }).1.nest 3 2)
      let shared := (((store.storeLoop 0 2).storeLoop 1 2).storeLoop 0 3).storeLoop 0 1
      let space : Workspace :=
        { program := Program.build (BuildCall.ofEdges 3 [(0, 1), (1, 2), (2, 1), (2, 2)])
          store := shared
          finders := #[{ graph := 0, forest := 0 }]
          sets := (Partition.singletons 2).union 0 1
          cells := #[{ loop := some 2 }, {}] }
      let after := (space.runFinder 0).1
      (space.finder 0).forest < space.store.forests.size
      ∧ (after.store.forest 0).loops = #[0, 2, 3, 1, 4, 5]
      ∧ (after.store.forest 1).loops = #[1, 2]
      ∧ (List.range 6).map (fun ref => (after.store.loop ref).parent)
        = [none, some 0, some 0, some 2, some 5, some 0]
      ∧ space.ChangedByRun (space.finder 0) (space.runFinder 0).2 after := by
  intro store shared space after
  exact ⟨by decide +kernel, by decide +kernel, by decide +kernel, by decide +kernel,
    (runFinder_changedByRun space 0 (by decide +kernel)).1⟩

end Workspace

end LoopNest
