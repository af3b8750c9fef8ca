import LoopNest.Proofs.Finder.Outcomes
import LoopNest.Proofs.Forest.WellFormed
import LoopNest.Proofs.Program.Construction

/-! Stores made by any number of runs: forests are added and finders run in them, on any programs
and with any bounds, whether the runs end, give up, fail or find nothing. Every forest of such a
store is well-formed.
-/

namespace LoopNest.LoopStore

variable {store : LoopStore} {forest : ForestRef}

/-- Adding forests and running finders that record in them makes these stores. -/
inductive MadeByRuns : LoopStore → Prop
  | empty : MadeByRuns {}
  | addForest {store : LoopStore} (made : MadeByRuns store) : MadeByRuns store.addForest.1
  | run {store : LoopStore} (made : MadeByRuns store) (program : Program) (finder : Finder)
    (known : finder.forest < store.forests.size)
    : MadeByRuns (finder.run program store).store

theorem forest_addForest_of_lt (known : forest < store.forests.size)
    : store.addForest.1.forest forest = store.forest forest := by
  simp [addForest, addLoop, LoopStore.forest, Array.getElem?_push, Nat.ne_of_lt known]

theorem loop_addForest_of_lt {ref : LoopRef} (known : ref < store.loops.size)
    : store.addForest.1.loop ref = store.loop ref := by
  simp [addForest, addLoop, LoopStore.loop, Array.getElem?_push, Nat.ne_of_lt known]

theorem size_forests_addForest (store : LoopStore)
    : store.addForest.1.forests.size = store.forests.size + 1 := by
  simp [addForest, addLoop]

/-- A new forest leaves the others as they are. -/
theorem wellFormed_addForest
    (formed : ∀ forest < store.forests.size, store.WellFormed forest)
    (known : forest < store.addForest.1.forests.size)
    : store.addForest.1.WellFormed forest := by
  rw [size_forests_addForest] at known
  cases Nat.lt_succ_iff_lt_or_eq.mp known with
  | inl old =>
      apply (formed forest old).frame (forest_addForest_of_lt old)
      · exact fun ref inStore => loop_addForest_of_lt inStore
      · rw [size_addForest]
        exact Nat.le_succ _
  | inr newest =>
      subst newest
      exact .addForest store

theorem size_forests_run (finder : Finder) (program : Program) (store : LoopStore)
    (known : finder.forest < store.forests.size)
    : (finder.run program store).store.forests.size = store.forests.size := by
  cases finder.run_store_cases program store with
  | inl unchanged => rw [unchanged]
  | inr recorded =>
      obtain ⟨start, regions, earlier, -, recorded⟩ := recorded
      rw [recorded, forests_graftAll, (records_record _ known earlier).forests_eq,
        Array.size_modify]

/-- A run leaves its own forest well-formed. -/
theorem WellFormed.run {finder : Finder} (formed : store.WellFormed finder.forest)
    (program : Program) (recordsIn : finder.forest < store.forests.size)
    : (finder.run program store).store.WellFormed finder.forest := by
  cases finder.run_store_cases program store with
  | inl unchanged =>
      rw [unchanged]
      exact formed
  | inr recorded =>
      obtain ⟨start, regions, earlier, once, recorded⟩ := recorded
      rw [recorded]
      exact formed.record recordsIn (records_record _ recordsIn earlier) earlier once

/-- A run leaves the other forests as they are. Witness: what a run records comes after all loops
so far, and these have their parents already.
-/
theorem WellFormed.run_elsewhere {finder : Finder} (formed : store.WellFormed forest)
    (formedToo : store.WellFormed finder.forest) (program : Program)
    (recordsIn : finder.forest < store.forests.size) (elsewhere : forest ≠ finder.forest)
    : (finder.run program store).store.WellFormed forest := by
  cases finder.run_store_cases program store with
  | inl unchanged =>
      rw [unchanged]
      exact formed
  | inr recorded =>
      obtain ⟨start, regions, earlier, -, recorded⟩ := recorded
      have records := records_record (program.number start) recordsIn earlier
      rw [recorded]
      apply formed.frame
      · rw [forest_graftAll, LoopStore.forest, records.forests_eq]
        simp [LoopStore.forest, Array.getElem?_modify, Ne.symm elsewhere]
      · exact fun ref inStore => records.graftAll_kept recordsIn formedToo.hung inStore
      · rw [size_graftAll, records.size_eq]
        exact Nat.le_add_right _ _

/-- Runs keep all forests well-formed. Witness: induction on the history. -/
theorem MadeByRuns.formed (made : MadeByRuns store) (known : forest < store.forests.size)
    : store.WellFormed forest := by
  induction made generalizing forest with
  | empty => exact absurd known (Nat.not_lt_zero forest)
  | addForest _ ih => exact wellFormed_addForest (fun _ => ih) known
  | run _ program finder recordsIn ih =>
      rw [size_forests_run finder program _ recordsIn] at known
      by_cases own : forest = finder.forest
      · subst own
        exact (ih known).run program known
      · exact (ih known).run_elsewhere (ih recordsIn) program recordsIn own

/-- In every forest made by runs, the root comes first and loops are counted in storage order,
children lists agree with parents, and parents lead to the root.
-/
theorem MadeByRuns.wellFormed (made : MadeByRuns store) (known : forest < store.forests.size)
    : store.WellFormed forest
      ∧ ∀ ref ∈ (store.forest forest).loops,
          Relation.ReflTransGen (fun child parent => (store.loop child).parent = some parent) ref
            (store.forest forest).root := by
  have formed := made.formed known
  exact ⟨formed, fun ref listed => formed.reaches_root listed⟩

/-- One forest after a run that gives up with a loop found, one that fails on a graph torn by a
one-sided edge, one without a start and one that ends.
-/
theorem MadeByRuns.wellFormed_four_runs
    : let graph := Program.build
        (BuildCall.ofEdges 5 [(0, 1), (1, 2), (2, 3), (3, 3), (3, 2), (3, 1), (0, 3), (4, 4)])
      let torn := ((graph.addBlock "" 7).1.addSucc 0 5).addSucc 5 4
      let finder : Finder := { graph := 0, forest := 0 }
      let first := { finder with bound := 0 }.run graph ({} : LoopStore).addForest.1
      let second := finder.run torn first.store
      let third := finder.run {} second.store
      let fourth := finder.run graph third.store
      (first.finder.stopped = true ∧ (first.store.forest 0).loops.size = 2)
      ∧ second.outcome.toOption = none
      ∧ third.outcome.toOption = some 0
      ∧ fourth.outcome.toOption = some 5
      ∧ fourth.store.WellFormed 0
      ∧ ∀ ref ∈ (fourth.store.forest 0).loops,
          Relation.ReflTransGen
            (fun child parent => (fourth.store.loop child).parent = some parent) ref
            (fourth.store.forest 0).root := by
  intro graph torn finder first second third fourth
  have made : MadeByRuns fourth.store :=
    .run (.run (.run (.run (.addForest .empty) graph { finder with bound := 0 } (by decide))
      torn finder (by decide +kernel)) {} finder (by decide +kernel)) graph finder
      (by decide +kernel)
  exact ⟨by decide +kernel, by decide +kernel, by decide +kernel, by decide +kernel,
    made.wellFormed (by decide +kernel)⟩

end LoopNest.LoopStore
