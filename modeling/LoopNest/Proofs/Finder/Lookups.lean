import LoopNest.Proofs.Finder.Outcomes
import LoopNest.Proofs.Program.Construction

/-! The lookups of a run on any program, also on one whose blocks disagree about their edges or
share ids: unless the numbers outgrow the registered blocks, every index is in range, every search
for a representative comes to an end, and no list of ways in grows while it is scanned.
-/

namespace LoopNest

/-- The search for an element's representative starts inside the table, and following links leads
it to an end.
-/
def Partition.Finds (sets : Partition) (x : Nat) : Prop :=
  x < sets.size ∧ ∃ steps top, sets.Leads steps x top

theorem Partition.Represents.finds {sets : Partition} {rep : Nat → Nat} {x : Nat}
    (shown : sets.Represents rep) (known : x < sets.size)
    : sets.Finds x := by
  obtain ⟨steps, leads⟩ := shown x
  exact ⟨known, steps, rep x, leads⟩

------------------------------------------------------------------------------------------
-- Numbering: the table of last numbers is written at given numbers only
------------------------------------------------------------------------------------------

namespace Numbering

/-- A search from open frames closes a number in some state on its way. -/
inductive Closes (program : Program) : Numbering → List Frame → Numbering → Nat → Prop
  | here {numbering : Numbering} {number : Nat} {frames : List Frame}
    : Closes program numbering (⟨number, []⟩ :: frames) numbering number
  | close {numbering state : Numbering} {number closed : Nat} {frames : List Frame}
    (onward : Closes program (numbering.close number) frames state closed)
    : Closes program numbering (⟨number, []⟩ :: frames) state closed
  | skip {numbering state : Numbering} {number closed : Nat} {next : BlockRef}
    {pending : List BlockRef} {frames : List Frame}
    (met : ∀ b, program.blocks[next]? = some b → b.id ∈ numbering.numbers)
    (onward : Closes program numbering (⟨number, pending⟩ :: frames) state closed)
    : Closes program numbering (⟨number, next :: pending⟩ :: frames) state closed
  | visit {numbering state : Numbering} {number closed : Nat} {next : BlockRef} {b : Block}
    {pending : List BlockRef} {frames : List Frame}
    (found : program.blocks[next]? = some b) (fresh : b.id ∉ numbering.numbers)
    (onward : Closes program (numbering.enter next b.id)
      (⟨numbering.size, b.succs.toList⟩ :: ⟨number, pending⟩ :: frames) state closed)
    : Closes program numbering (⟨number, next :: pending⟩ :: frames) state closed

/-- A search closes numbers that it has given. Witness: induction along the search; open frames
hold given numbers, and each number has a place in the table.
-/
theorem Closes.lt {program : Program} {numbering state : Numbering} {frames : List Frame}
    {closed : Nat} (closes : Closes program numbering frames state closed)
    (last_size : numbering.last.size = numbering.size)
    (given : ∀ number ∈ frames.map Frame.number, number < numbering.size)
    : closed < state.last.size := by
  induction closes with
  | here =>
      rw [last_size]
      exact given _ List.mem_cons_self
  | close _ ih =>
      refine ih ?_ fun number listed => given number (List.mem_cons_of_mem _ listed)
      rw [Numbering.close, Array.size_setIfInBounds]
      exact last_size
  | skip _ _ ih => exact ih last_size given
  | visit _ _ _ ih =>
      refine ih ?_ ?_
      · rw [size_enter, enter, Array.size_push, last_size]
      · intro number listed
        rw [size_enter]
        rcases List.mem_cons.mp listed with rfl | older
        · exact Nat.lt_succ_self _
        · exact Nat.lt_succ_of_lt (given number older)

end Numbering

------------------------------------------------------------------------------------------
-- Chases and visits
------------------------------------------------------------------------------------------

/-- A chase from a position on takes up a number in some state on its way. -/
inductive Chase.TakesUp (numbering : Numbering) (bound : Int) (entries : Array (List Nat))
    (header : Nat)
    : Chase → Nat → Chase → Nat → Prop
  | here {chase : Chase} {position : Nat} (more : position < chase.pool.size)
    : TakesUp numbering bound entries header chase position chase chase.pool[position]
  | later {chase next state : Chase} {position node : Nat} (more : position < chase.pool.size)
    (light : ((entries.getD chase.pool[position] []).length : Int) ≤ bound)
    (scanned : chase.scan numbering header (entries.getD chase.pool[position] []) = .ok next)
    (onward : TakesUp numbering bound entries header next (position + 1) state node)
    : TakesUp numbering bound entries header chase position state node

/-- A chase takes up gathered numbers, and shows the same representatives all along. Witness:
induction along the chase.
-/
theorem Chase.Progress.takesUp {numbering : Numbering} {bound : Int}
    {entries : Array (List Nat)} {header position node : Nat} {rep : Nat → Nat}
    {seeds : List Nat} {chase state : Chase}
    (tables : InTables numbering entries header rep seeds)
    (progress : Progress numbering bound entries header rep seeds chase position)
    (takes : TakesUp numbering bound entries header chase position state node)
    : state.Shows entries.size rep ∧ Gathered numbering entries header rep seeds node := by
  induction takes with
  | here more =>
      have pooled := Array.mem_toList_iff.mpr (Array.getElem_mem more)
      exact ⟨progress.shows, progress.gathered _ pooled⟩
  | later more light scanned _ ih =>
      obtain ⟨next, again, onward⟩ := progress.step tables more light
      obtain rfl := Except.ok.inj (scanned.symm.trans again)
      exact ih onward

namespace Sweep

/-- Visiting the given numbers in order, a sweep visits a number in some state on its way. -/
inductive Visits (numbering : Numbering) (bound : Int) : List Nat → Sweep → Nat → Sweep → Prop
  | here {sweep : Sweep} {number : Nat} {rest : List Nat}
    : Visits numbering bound (number :: rest) sweep number sweep
  | skip {sweep state : Sweep} {number visited : Nat} {rest : List Nat}
    (nothing : sweep.gather numbering bound number = .ok none)
    (onward : Visits numbering bound rest sweep visited state)
    : Visits numbering bound (number :: rest) sweep visited state
  | collapse {sweep state : Sweep} {number visited : Nat} {rest : List Nat} {chase : Chase}
    (gathered : sweep.gather numbering bound number = .ok (some chase))
    (onward : Visits numbering bound rest (sweep.collapse number chase) visited state)
    : Visits numbering bound (number :: rest) sweep visited state

/-- The sources of back edges that a visit seeds its pool from. -/
def latchesOf (sweep : Sweep) (number : Nat) : List Nat :=
  (sweep.latches.getD number []).filter (· ≠ number)

/-- What makes a visit safe: every table has a place for each number and is read and written at
numbers only, all searches for representatives end, and while the list of some number is scanned
only that of the visited number, which is another one, grows.
-/
structure SafeVisit (numbering : Numbering) (bound : Int) (sweep : Sweep) (number : Nat)
    : Prop where
  last_size : numbering.last.size = numbering.size
  latches_size : sweep.latches.size = numbering.size
  entries_size : sweep.entries.size = numbering.size
  sets_size : sweep.sets.size = numbering.size
  headed_size : sweep.headed.size = numbering.size
  number_lt : number < numbering.size
  seeds_find
    : ∀ {done rest : List Nat} {source : Nat} {chase : Chase},
        sweep.latchesOf number = done ++ source :: rest
        → Chase.seed { sets := sweep.sets } done = .ok chase
        → chase.sets.Finds source
  node_lt
    : ∀ {seeded chase : Chase} {node : Nat},
        Chase.seed { sets := sweep.sets } (sweep.latchesOf number) = .ok seeded
        → Chase.TakesUp numbering bound sweep.entries number seeded 0 chase node
        → node ≠ number ∧ node < numbering.size
  scans_find
    : ∀ {seeded chase mid : Chase} {node source : Nat} {done rest : List Nat},
        Chase.seed { sets := sweep.sets } (sweep.latchesOf number) = .ok seeded
        → Chase.TakesUp numbering bound sweep.entries number seeded 0 chase node
        → sweep.entries.getD node [] = done ++ source :: rest
        → chase.scan numbering number done = .ok mid
        → mid.sets.Finds source
  entries_kept
    : ∀ chase, ∀ other ≠ number,
        (sweep.collapse number chase).entries.getD other [] = sweep.entries.getD other []

namespace Steady

variable {sweep state : Sweep} {numbering : Numbering} {first number visited : Nat} {bound : Int}
  {rep : Nat → Nat}

/-- Visits are safe in steady states. -/
theorem safeVisit (steady : sweep.Steady numbering (number + 1) rep)
    (last_size : numbering.last.size = numbering.size) (known : number < numbering.size)
    (bound : Int)
    : sweep.SafeVisit numbering bound number := by
  have sameSize := steady.sets_size.trans steady.entries_size.symm
  have latchKnown : ∀ y ∈ sweep.latchesOf number, y < sweep.entries.size := by
    intro y latch
    rw [steady.entries_size]
    exact (steady.latch_lt number y (List.mem_filter.mp latch).1).2
  have tables := steady.inTables last_size known
  obtain ⟨begun, began, progress⟩ :=
    @Chase.progress_seed numbering bound sweep.entries number rep _ sweep.sets sameSize
      steady.shown latchKnown
  have taken {seeded chase : Chase} {node : Nat}
      (seeded_eq : Chase.seed { sets := sweep.sets } (sweep.latchesOf number) = .ok seeded)
      (takes : Chase.TakesUp numbering bound sweep.entries number seeded 0 chase node)
      : chase.Shows sweep.entries.size rep
        ∧ Chase.Gathered numbering sweep.entries number rep (seeds sweep rep number) node := by
    obtain rfl := Except.ok.inj (began.symm.trans seeded_eq)
    exact progress.takesUp tables takes
  refine {
    last_size
    latches_size := steady.latches_size
    entries_size := steady.entries_size
    sets_size := steady.sets_size
    headed_size := steady.headed_size
    number_lt := known
    seeds_find := ?_
    node_lt := ?_
    scans_find := ?_
    entries_kept := ?_
  }
  · intro done rest source chase split seeded
    have doneKnown : ∀ y ∈ done, y < sweep.entries.size :=
      fun y listed => latchKnown y (split ▸ List.mem_append_left _ listed)
    have unseeded : Chase.Shows { sets := sweep.sets } sweep.entries.size rep :=
      ⟨sameSize, steady.shown, by simp⟩
    obtain ⟨after, again, shows, -⟩ := Chase.seed_spec unseeded doneKnown
    obtain rfl := Except.ok.inj (again.symm.trans seeded)
    refine shows.represents.finds ?_
    rw [shows.size_eq]
    exact latchKnown source (by simp [split])
  · intro seeded chase node seeded_eq takes
    obtain ⟨-, gathered⟩ := taken seeded_eq takes
    obtain ⟨later, inTable, -⟩ := steady.gathered gathered
    exact ⟨Nat.ne_of_gt later, inTable⟩
  · intro seeded chase mid node source done rest seeded_eq takes split scanned
    obtain ⟨shows, -⟩ := taken seeded_eq takes
    have doneKnown : ∀ y ∈ done, y < sweep.entries.size :=
      fun y listed => tables.entry_lt node y (split ▸ List.mem_append_left _ listed)
    obtain ⟨after, -, again, showsAfter, -⟩ := Chase.scan_spec tables.header_lt shows doneKnown
    obtain rfl := Except.ok.inj (again.symm.trans scanned)
    refine showsAfter.represents.finds ?_
    rw [showsAfter.size_eq]
    exact tables.entry_lt node source (by simp [split])
  · intro chase other differs
    rw [entries_collapse (steady.entries_size.symm ▸ known), if_neg differs]

/-- Every number is visited in a steady state. Witness: induction on the numbers left. -/
theorem of_visits (steady : sweep.Steady numbering first rep)
    (last_size : numbering.last.size = numbering.size) (inTable : first ≤ numbering.size)
    (visits : Visits numbering bound (List.range first).reverse sweep visited state)
    : visited < first ∧ ∃ after, state.Steady numbering (visited + 1) after := by
  induction first generalizing sweep rep with
  | zero => cases visits
  | succ first ih =>
      rw [List.range_succ, List.reverse_append, List.reverse_singleton, List.singleton_append]
        at visits
      cases visits with
      | here => exact ⟨Nat.lt_succ_self visited, rep, steady⟩
      | skip _ onward =>
          obtain ⟨before, found⟩ := ih steady.skip (Nat.le_of_lt inTable) onward
          exact ⟨Nat.lt_succ_of_lt before, found⟩
      | collapse gathered onward =>
          rcases steady.gather_cases last_size inTable bound with
            ⟨-, nothing⟩ | ⟨-, ⟨chase, again, gathering⟩ | ⟨x, halted, -, -⟩⟩
          · rw [nothing] at gathered
            cases gathered
          · rw [again] at gathered
            cases gathered
            obtain ⟨before, found⟩ :=
              ih (steady.collapse gathering inTable) (Nat.le_of_lt inTable) onward
            exact ⟨Nat.lt_succ_of_lt before, found⟩
          · rw [halted] at gathered
            cases gathered

end Steady

end Sweep

------------------------------------------------------------------------------------------
-- Runs
------------------------------------------------------------------------------------------

namespace Finder

/-- There is a start block, and more blocks are numbered from it than are registered. -/
def Outgrown (finder : Finder) (program : Program) : Prop :=
  ∃ start,
    (program.graph finder.graph).start? = some start
    ∧ (program.graph finder.graph).size < (program.number start).size

/-- What makes a run from a start block safe: there are no more numbers than registered blocks, the
numbering writes its table at given numbers, the edges can be split, and every visit is safe.
-/
structure SafeRun (finder : Finder) (program : Program) (start : BlockRef) : Prop where
  fits : (program.number start).size ≤ (program.graph finder.graph).size
  closed_lt
    : ∀ {b : Block} {numbering : Numbering} {number : Nat},
        program.blocks[start]? = some b
        → Numbering.Closes program (({} : Numbering).enter start b.id) [⟨0, b.succs.toList⟩]
            numbering number
        → number < numbering.last.size
  visits_safe
    : ∃ sweep,
        Sweep.start program (program.number start) = .ok sweep
        ∧ ∀ number state,
            Sweep.Visits (program.number start) finder.bound
              (List.range (program.number start).size).reverse sweep number state
            → state.SafeVisit (program.number start) finder.bound number

theorem safeRun {finder : Finder} {program : Program} {start : BlockRef}
    (fits : (program.number start).size ≤ (program.graph finder.graph).size)
    : finder.SafeRun program start := by
  have sound := Numbering.sound_number program start
  obtain ⟨sweep, started, steady⟩ := sound.steady_start
  refine ⟨fits, ?_, sweep, started, ?_⟩
  · intro b numbering number _ closes
    refine closes.lt ?_ ?_
    · simp [Numbering.enter, Numbering.size]
    · intro number listed
      rw [List.mem_singleton.mp listed, Numbering.size_enter]
      exact Nat.succ_pos _
  · intro number state visits
    obtain ⟨known, after, steadyThere⟩ :=
      steady.of_visits sound.last_size (Nat.le_refl _) visits
    exact steadyThere.safeVisit sound.last_size known finder.bound

/-- A run on any program fails exactly if the numbers outgrow the registered blocks, and then leaves
the store and the status of a finder that did not give up. Any other run answers a count, and if
there is a start block, all its lookups are safe.
-/
theorem run_outgrown_or_safe (program : Program) (store : LoopStore) (finder : Finder)
    : let run := finder.run program store
      finder.Outgrown program
        ∧ run.outcome = .error .outOfRange
        ∧ run.finder = { finder with stoppedAt := none }
        ∧ run.store = store
      ∨ ¬ finder.Outgrown program
        ∧ (∃ count, run.outcome = .ok count)
        ∧ ∀ start, (program.graph finder.graph).start? = some start
          → finder.SafeRun program start := by
  intro run
  rcases finder.run_cases program store with
    ⟨noStart, ran⟩ | ⟨start, isStart, ⟨outgrown, ran⟩ | ⟨fits, _, _, count, _, -, -, ran⟩⟩
  · refine Or.inr ⟨?_, ⟨0, by simp only [run, ran]⟩, ?_⟩
    · rintro ⟨start, isStart, -⟩
      rw [noStart] at isStart
      cases isStart
    · intro start isStart
      rw [noStart] at isStart
      cases isStart
  · refine Or.inl ⟨⟨start, isStart, outgrown⟩, ?_⟩
    simp only [run, ran, and_self]
  · have only {other : BlockRef} (isOther : (program.graph finder.graph).start? = some other)
        : other = start :=
      Option.some.inj (isOther.symm.trans isStart)
    refine Or.inr ⟨?_, ⟨count, by simp only [run, ran]⟩, ?_⟩
    · rintro ⟨other, isOther, outgrown⟩
      rw [only isOther] at outgrown
      exact Nat.not_lt.mpr fits outgrown
    · intro other isOther
      rw [only isOther]
      exact safeRun fits

/-- A loop with an edge to a block that is registered nowhere, and the same loop with edges that
only one of their ends knows of.
-/
theorem run_outgrown_or_safe_torn
    : let graph := Program.build (BuildCall.ofEdges 3 [(0, 1), (1, 2), (2, 1)])
      let outgrown := (graph.addBlock "" 7).1.addSucc 2 3
      let torn := ((graph.addPred 0 2).addPred 2 0).addSucc 1 0
      let finder : Finder := { graph := 0, forest := 0 }
      (finder.run outgrown {}).outcome = .error .outOfRange
      ∧ (∃ count, (finder.run torn {}).outcome = .ok count)
      ∧ finder.SafeRun torn 0 := by
  intro graph outgrown torn finder
  have more : finder.Outgrown outgrown := ⟨0, by decide +kernel, by decide +kernel⟩
  have isStart : (torn.graph finder.graph).start? = some 0 := by decide +kernel
  have fits : ¬ finder.Outgrown torn := by
    rintro ⟨start, isStartToo, more⟩
    obtain rfl := Option.some.inj (isStart.symm.trans isStartToo)
    exact absurd more (by decide +kernel)
  rcases run_outgrown_or_safe outgrown {} finder with ⟨-, fails, -⟩ | ⟨within, -⟩
  · rcases run_outgrown_or_safe torn {} finder with ⟨beyond, -⟩ | ⟨-, counted, safe⟩
    · exact absurd beyond fits
    · exact ⟨fails, counted, safe 0 isStart⟩
  · exact absurd more within

end Finder

end LoopNest
