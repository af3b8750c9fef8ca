import LoopNest.Proofs.Bounds
import LoopNest.Proofs.Finder.Histories
import LoopNest.Proofs.Finder.Runs
import LoopNest.Proofs.Forest.Outlines

/-! Runs under two bounds: a run that gives up leaves the first loops of what a run under a larger
bound finds, with the loops whose parents it did not reach below the root.
-/

namespace LoopNest.Finder

variable {program : Program} {finder : Finder} {start : BlockRef}

/-- The sweep of a finder's run. A run without a start, or with more numbers than registered
blocks, makes none.
-/
def sweep (finder : Finder) (program : Program) : Sweep × Option Halt :=
  let graph := program.graph finder.graph
  match graph.start? with
  | none => ({}, none)
  | some start =>
      let numbering := program.number start
      if graph.size < numbering.size then ({}, none)
      else
        match Sweep.start program numbering with
        | .error _ => ({}, none)
        | .ok sweep => sweep.run numbering finder.bound

/-- The blocks that a finder's run numbers, in order. -/
def order (finder : Finder) (program : Program) : Array BlockRef :=
  match (program.graph finder.graph).start? with
  | none => #[]
  | some start => (program.number start).order

/-- A run under a larger bound sweeps at least as far. -/
theorem sweep_outlasts (finder : Finder) (program : Program) {bound : Int}
    (le : finder.bound ≤ bound)
    : Sweep.Outlasts (finder.sweep program) ({ finder with bound }.sweep program) := by
  have idle (swept : Sweep × Option Halt) : Sweep.Outlasts swept swept := by
    refine ⟨List.prefix_rfl, fun _ => rfl, fun halted ended => absurd ended halted⟩
  rw [sweep, sweep]
  cases (program.graph finder.graph).start? with
  | none => exact idle _
  | some start =>
      simp only
      split
      · exact idle _
      · cases Sweep.start program (program.number start) with
        | error cause => exact idle _
        | ok sweep => exact Sweep.visitAll_outlasts le _ sweep

/-- What a run shows of its sweep. -/
structure Shows (finder : Finder) (program : Program) (store : LoopStore) : Prop where
  grown
    : LoopStore.Grown (finder.order program) (finder.sweep program).1.regions.toList
        store.loops.size (finder.runFresh program store).store store.addForest.2
  earlier : LoopStore.NestsEarlier (finder.sweep program).1.regions.toList
  once : LoopStore.NestsOnce (finder.sweep program).1.regions.toList
  stopped_eq
    : (finder.runFresh program store).finder.stopped = (finder.sweep program).2.isSome
  outcome_eq
    : (finder.runFresh program store).outcome
      = match (program.graph finder.graph).start? with
        | none => .ok 0
        | some start =>
            if (program.graph finder.graph).size < (program.number start).size then
              .error .outOfRange
            else if (finder.sweep program).2.isSome then .ok 0
            else .ok ((finder.sweep program).1.regions.size + 1)

theorem sweep_of_none (noStart : (program.graph finder.graph).start? = none)
    : finder.sweep program = ({}, none) := by
  simp only [sweep, noStart]

theorem sweep_of_outgrown (isStart : (program.graph finder.graph).start? = some start)
    (outgrown : (program.graph finder.graph).size < (program.number start).size)
    : finder.sweep program = ({}, none) := by
  simp only [sweep, isStart, if_pos outgrown]

theorem sweep_of_started (isStart : (program.graph finder.graph).start? = some start)
    (fits : (program.number start).size ≤ (program.graph finder.graph).size) {sweep : Sweep}
    (started : Sweep.start program (program.number start) = .ok sweep)
    : finder.sweep program = sweep.run (program.number start) finder.bound := by
  simp only [Finder.sweep, isStart, if_neg (Nat.not_lt.mpr fits), started]

/-- Every run shows its sweep. Witness: the ways a run can go. -/
theorem shows (finder : Finder) (program : Program) (store : LoopStore)
    : finder.Shows program store := by
  have nothing : LoopStore.NestsEarlier [] ∧ LoopStore.NestsOnce [] :=
    ⟨(fun _ _ found => nomatch found), (fun _ _ _ _ _ found => nomatch found)⟩
  cases isStart : (program.graph finder.graph).start? with
  | none =>
      have swept := sweep_of_none isStart
      have ran := runFresh_of_none isStart store
      refine ⟨?_, ?_, ?_, ?_, ?_⟩ <;> rw [swept]
      · rw [ran]
        exact store.grown_addForest
      · exact nothing.1
      · exact nothing.2
      · rw [ran]
        rfl
      · rw [ran, isStart]
  | some start =>
      cases Nat.lt_or_ge (program.graph finder.graph).size (program.number start).size with
      | inl outgrown =>
          have swept := sweep_of_outgrown isStart outgrown
          have ran : finder.runFresh program store = _ :=
            @run_of_outgrown program { finder with forest := store.addForest.2 } start isStart
              outgrown store.addForest.1
          refine ⟨?_, ?_, ?_, ?_, ?_⟩ <;> rw [swept]
          · rw [ran]
            exact store.grown_addForest
          · exact nothing.1
          · exact nothing.2
          · rw [ran]
            rfl
          · simp only [ran, isStart, if_pos outgrown]
      | inr fits =>
          obtain ⟨sweep, final, _, _, started, steady, course⟩ :=
            exists_sweep program start finder.bound
          have swept := sweep_of_started isStart fits started
          have order_eq : finder.order program = (program.number start).order := by
            simp only [order, isStart]
          have grown := (LoopStore.records_record (program.number start)
            store.forestIn_addForest steady.nestsEarlier).grown
          rcases course with ended | ⟨x, fanIn, gaveUp⟩
          · have ran : finder.runFresh program store = _ :=
              @run_of_ended program { finder with forest := store.addForest.2 } start sweep final
                isStart fits started ended store.addForest.1
            rw [ended] at swept
            refine ⟨?_, ?_, ?_, ?_, ?_⟩ <;> rw [swept]
            · rw [ran, order_eq]
              exact grown
            · exact steady.nestsEarlier
            · exact steady.nestsOnce
            · rw [ran]
              rfl
            · have size_eq := congrArg List.length grown.loops_eq
              rw [List.length_range', Array.length_toList, Array.length_toList] at size_eq
              simp only [ran, isStart, if_neg (Nat.not_lt.mpr fits)]
              exact congrArg Except.ok size_eq
          · have ran : finder.runFresh program store = _ :=
              @run_of_gaveUp program { finder with forest := store.addForest.2 } start sweep final
                x fanIn isStart fits started gaveUp store.addForest.1
            rw [gaveUp] at swept
            refine ⟨?_, ?_, ?_, ?_, ?_⟩ <;> rw [swept]
            · rw [ran, order_eq]
              exact grown
            · exact steady.nestsEarlier
            · exact steady.nestsOnce
            · rw [ran]
              rfl
            · simp only [ran, isStart, if_neg (Nat.not_lt.mpr fits), Option.isSome_some, if_true]

theorem Shows.outlines_eq {store : LoopStore} (shows : finder.Shows program store)
    : (finder.runFresh program store).store.outlines store.addForest.2
      = .root :: (finder.sweep program).1.regions.toList.mapIdx
          (Region.outline (finder.order program) (finder.sweep program).1.regions.toList) :=
  shows.grown.outlines_eq shows.earlier shows.once

theorem Shows.length_outlines {store : LoopStore} (shows : finder.Shows program store)
    : ((finder.runFresh program store).store.outlines store.addForest.2).length
      = (finder.sweep program).1.regions.size + 1 := by
  rw [shows.outlines_eq, List.length_cons, List.length_mapIdx, Array.length_toList]

theorem Shows.ended_iff {store : LoopStore} (shows : finder.Shows program store)
    : (finder.runFresh program store).finder.stopped = false ↔ (finder.sweep program).2 = none := by
  rw [shows.stopped_eq, Option.isSome_eq_false_iff, Option.isNone_iff_eq_none]

theorem runFresh_wellFormed (finder : Finder) (program : Program) (store : LoopStore)
    : (finder.runFresh program store).store.WellFormed store.addForest.2 :=
  @LoopStore.WellFormed.run store.addForest.1 { finder with forest := store.addForest.2 }
    (.addForest store) program store.forestIn_addForest

/-- A run under a smaller bound leaves the first loops of a run under a larger one, cut off; if it
ends, both leave the same forest and answer alike, and if it alone gives up, it leaves fewer loops.
-/
theorem runFresh_cutOff (program : Program) (finder : Finder) {bound : Int}
    (le : finder.bound ≤ bound) (store other : LoopStore)
    : let short := finder.runFresh program store
      let long := { finder with bound }.runFresh program other
      let first := short.store.outlines store.addForest.2
      let all := long.store.outlines other.addForest.2
      first.length ≤ all.length
      ∧ first = (all.take first.length).map (Outline.cut first.length)
      ∧ (short.finder.stopped = false
        → long.finder.stopped = false
          ∧ all = first
          ∧ (long.store.forest other.addForest.2).nextCounter
            = (short.store.forest store.addForest.2).nextCounter
          ∧ long.outcome = short.outcome)
      ∧ (short.finder.stopped = true → long.finder.stopped = false
        → first.length < all.length) := by
  intro short long first all
  have shows := finder.shows program store
  have showsToo := { finder with bound }.shows program other
  have outlasts := finder.sweep_outlasts program le
  have first_length : first.length = (finder.sweep program).1.regions.size + 1 :=
    shows.length_outlines
  have all_length : all.length = ({ finder with bound }.sweep program).1.regions.size + 1 :=
    showsToo.length_outlines
  refine ⟨?_, ?_, ?_, ?_⟩
  · have grown := outlasts.regions_le.length_le
    simp only [Array.length_toList] at grown
    omega
  · obtain ⟨more, regions_eq⟩ := outlasts.regions_le
    have first_eq : first = _ := shows.outlines_eq
    have all_eq : all = _ := showsToo.outlines_eq
    rw [first_length, first_eq, all_eq, ← regions_eq, List.take_succ_cons, List.map_cons,
      ← Array.length_toList, ← LoopStore.mapIdx_outline_cut]
    rfl
  · intro ended
    have noHalt := shows.ended_iff.mp ended
    have same := outlasts.eq_of_ended noHalt
    have all_eq : all = first := by
      have first_eq : first = _ := shows.outlines_eq
      have all_eq : all = _ := showsToo.outlines_eq
      rw [all_eq, first_eq, same]
      rfl
    refine ⟨?_, all_eq, ?_, ?_⟩
    · exact showsToo.ended_iff.mpr (same ▸ noHalt)
    · have counted := (finder.runFresh_wellFormed program store).nextCounter_eq
      have countedToo := ({ finder with bound }.runFresh_wellFormed program other).nextCounter_eq
      have sizes := congrArg List.length all_eq
      simp only [first, all, LoopStore.outlines, List.length_map, Array.length_toList] at sizes
      rw [counted, countedToo, sizes]
    · rw [showsToo.outcome_eq, shows.outcome_eq, same]
  · intro stopped ended
    have halted : (finder.sweep program).2 ≠ none := by
      intro noHalt
      exact Bool.false_ne_true ((shows.ended_iff.mpr noHalt).symm.trans stopped)
    have more := outlasts.more_of_halted halted (showsToo.ended_iff.mp ended)
    omega

/-- Three nested loops, of which the run under the smaller bound finds the innermost. -/
theorem runFresh_cutOff_nested
    : let program := Program.build
        (BuildCall.ofEdges 4 [(0, 1), (1, 2), (2, 3), (3, 3), (3, 2), (3, 1), (0, 3)])
      let finder : Finder := { graph := 0, forest := 0, bound := 1 }
      let short := finder.runFresh program {}
      let long := { finder with bound := 2 }.runFresh program {}
      let first := short.store.outlines 0
      let all := long.store.outlines 0
      finder.bound ≤ 2
      ∧ (short.finder.stopped = true ∧ long.finder.stopped = false)
      ∧ first.map Outline.parent = [none, some 0]
      ∧ all.map Outline.parent = [none, some 2, some 3, some 0]
      ∧ first = (all.take first.length).map (Outline.cut first.length)
      ∧ first.length < all.length := by
  intro program finder short long first all
  have stopped : short.finder.stopped = true := by decide +kernel
  have ended : long.finder.stopped = false := by decide +kernel
  obtain ⟨-, first_eq, -, fewer⟩ := @runFresh_cutOff program finder 2 (by decide) {} {}
  exact ⟨by decide, ⟨stopped, ended⟩, by decide +kernel, by decide +kernel, first_eq,
    fewer stopped ended⟩

end LoopNest.Finder
