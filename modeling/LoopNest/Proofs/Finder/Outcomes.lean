import LoopNest.Proofs.Collapsing
import LoopNest.Proofs.Forest.Recording
import LoopNest.Proofs.Program.Reached

/-! Runs of a finder on any program, also on one whose blocks disagree about their edges: a run
changes nothing, or it records the regions of a sweep that ended or gave up.
-/

namespace LoopNest

/-- A sweep over a sound numbering can start. Witness: the sources of its edges are numbered. -/
theorem Numbering.Sound.steady_start {program : Program} {numbering : Numbering}
    (sound : Numbering.Sound program numbering)
    : ∃ sweep,
        Sweep.start program numbering = .ok sweep
        ∧ sweep.Steady numbering numbering.size id := by
  apply Sweep.steady_start program sound.last_size
  intro number _ y listed
  obtain ⟨_, -, numbered⟩ := List.mem_filterMap.mp listed
  exact (sound.number_some numbered).1

namespace Sweep.Steady

variable {numbering : Numbering} {first : Nat} {rep : Nat → Nat} {sweep : Sweep}

theorem nestsEarlier (steady : sweep.Steady numbering first rep)
    : LoopStore.NestsEarlier sweep.regions.toList := by
  intro i region found index listed
  rw [Array.getElem?_toList] at found
  obtain ⟨_, before, -⟩ := steady.nested found listed
  exact before

theorem nestsOnce (steady : sweep.Steady numbering first rep)
    : LoopStore.NestsOnce sweep.regions.toList := by
  intro i j index outer other found foundToo listed listedToo
  rw [Array.getElem?_toList] at found foundToo
  exact steady.once found foundToo listed listedToo

end Sweep.Steady

namespace Finder

variable {program : Program} {finder : Finder} {start : BlockRef} {sweep final : Sweep}

theorem run_of_none (noStart : (program.graph finder.graph).start? = none) (store : LoopStore)
    : finder.run program store = ⟨store, { finder with stoppedAt := none }, .ok 0, []⟩ := by
  simp only [run, noStart]

theorem run_of_outgrown (isStart : (program.graph finder.graph).start? = some start)
    (outgrown : (program.graph finder.graph).size < (program.number start).size)
    (store : LoopStore)
    : finder.run program store
      = ⟨store, { finder with stoppedAt := none }, .error .outOfRange,
          [.numbered (program.number start).size start]⟩ := by
  simp only [run, isStart, if_pos outgrown]

/-- The run of a sweep that visits every number. -/
theorem run_of_ended (isStart : (program.graph finder.graph).start? = some start)
    (fits : (program.number start).size ≤ (program.graph finder.graph).size)
    (started : Sweep.start program (program.number start) = .ok sweep)
    (ended : sweep.run (program.number start) finder.bound = (final, none)) (store : LoopStore)
    : finder.run program store
      = (let rooted := (store.record finder.forest (program.number start)
          final.regions).graftAll finder.forest
        let count := (rooted.forest finder.forest).loops.size
        ⟨rooted, { finder with stoppedAt := none }, .ok count,
          [.numbered (program.number start).size start,
            .found (count - 1) (program.number start).size
              (program.graph finder.graph).size]⟩) := by
  simp only [run, isStart, if_neg (Nat.not_lt.mpr fits), started, ended]

/-- The run of a sweep that gives up. -/
theorem run_of_gaveUp {x fanIn : Nat}
    (isStart : (program.graph finder.graph).start? = some start)
    (fits : (program.number start).size ≤ (program.graph finder.graph).size)
    (started : Sweep.start program (program.number start) = .ok sweep)
    (gaveUp : sweep.run (program.number start) finder.bound
      = (final, some (.overload x fanIn)))
    (store : LoopStore)
    : finder.run program store
      = ⟨(store.record finder.forest (program.number start) final.regions).graftAll
            finder.forest,
          { finder with stoppedAt := some ((program.number start).blockOf x) }, .ok 0,
          [.numbered (program.number start).size start,
            .gaveUp ((program.number start).blockOf x) fanIn finder.bound]⟩ := by
  simp only [run, isStart, if_neg (Nat.not_lt.mpr fits), started, gaveUp]

/-- The sweep of any program can start, and ends or gives up in a steady state. -/
theorem exists_sweep (program : Program) (start : BlockRef) (bound : Int)
    : ∃ sweep final reached rep,
        Sweep.start program (program.number start) = .ok sweep
        ∧ final.Steady (program.number start) reached rep
        ∧ (sweep.run (program.number start) bound = (final, none)
          ∨ ∃ x fanIn,
              sweep.run (program.number start) bound = (final, some (.overload x fanIn))) := by
  have sound := Numbering.sound_number program start
  obtain ⟨sweep, started, steady⟩ := sound.steady_start
  obtain ⟨final, reached, rep, course⟩ :=
    steady.visitAll sound.last_size (Nat.le_refl _) bound
  exact ⟨sweep, final, reached, rep, started, course⟩

/-- The ways a run can go: there is no start, or the numbers outgrow the graph, or the regions of a
sweep are recorded and the loops without parent hung below the root. Witness: a sweep of any program
ends or gives up.
-/
theorem run_cases (finder : Finder) (program : Program) (store : LoopStore)
    : (program.graph finder.graph).start? = none
        ∧ finder.run program store = ⟨store, { finder with stoppedAt := none }, .ok 0, []⟩
      ∨ ∃ start,
          (program.graph finder.graph).start? = some start
          ∧ ((program.graph finder.graph).size < (program.number start).size
              ∧ finder.run program store
                = ⟨store, { finder with stoppedAt := none }, .error .outOfRange,
                    [.numbered (program.number start).size start]⟩
            ∨ (program.number start).size ≤ (program.graph finder.graph).size
              ∧ ∃ regions stoppedAt count log,
                  LoopStore.NestsEarlier regions.toList
                  ∧ LoopStore.NestsOnce regions.toList
                  ∧ finder.run program store
                    = ⟨(store.record finder.forest (program.number start) regions).graftAll
                          finder.forest,
                        { finder with stoppedAt }, .ok count, log⟩) := by
  cases isStart : (program.graph finder.graph).start? with
  | none => exact Or.inl ⟨rfl, run_of_none isStart store⟩
  | some start =>
      refine Or.inr ⟨start, rfl, ?_⟩
      cases Nat.lt_or_ge (program.graph finder.graph).size (program.number start).size with
      | inl outgrown => exact Or.inl ⟨outgrown, run_of_outgrown isStart outgrown store⟩
      | inr fits =>
          refine Or.inr ⟨fits, ?_⟩
          obtain ⟨sweep, final, _, _, started, steady, ended | ⟨x, fanIn, gaveUp⟩⟩ :=
            exists_sweep program start finder.bound
          · exact ⟨final.regions, _, _, _, steady.nestsEarlier, steady.nestsOnce,
              run_of_ended isStart fits started ended store⟩
          · exact ⟨final.regions, _, _, _, steady.nestsEarlier, steady.nestsOnce,
              run_of_gaveUp isStart fits started gaveUp store⟩

/-- What a run does to the store: nothing, or it records regions that nest earlier ones, each at
most once.
-/
theorem run_store_cases (finder : Finder) (program : Program) (store : LoopStore)
    : (finder.run program store).store = store
      ∨ ∃ start regions,
          LoopStore.NestsEarlier regions.toList
          ∧ LoopStore.NestsOnce regions.toList
          ∧ (finder.run program store).store
            = (store.record finder.forest (program.number start) regions).graftAll
                finder.forest := by
  rcases finder.run_cases program store with
    ⟨-, ran⟩ | ⟨start, -, ⟨-, ran⟩ | ⟨-, regions, _, _, _, earlier, once, ran⟩⟩
  · exact Or.inl (by rw [ran])
  · exact Or.inl (by rw [ran])
  · exact Or.inr ⟨start, regions, earlier, once, by rw [ran]⟩

end Finder

end LoopNest
