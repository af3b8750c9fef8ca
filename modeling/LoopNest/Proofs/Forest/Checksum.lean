import LoopNest.Forest.Checksum
import LoopNest.Proofs.Forest.Levels

/-! The pass over tasks computes the checksums that the recursion over children defines: each loop
folds those of its children, in order, into the checksum of its own fields.
-/

namespace LoopNest.LoopStore

open Std (TreeMap TreeSet)

variable {program : Program} {store : LoopStore} {refs : List LoopRef} {ref child other : LoopRef}
  {sums before middle after : TreeMap LoopRef Int}
  {entered enteredToo enteredLast : TreeSet LoopRef} {acc : Int} {cs value : LoopRef → Int}

------------------------------------------------------------------------------------------
-- Checksums by recursion
------------------------------------------------------------------------------------------

/-- The loops a loop lists as its children, also where it is the root of a forest. -/
def childrenOf (store : LoopStore) (ref : LoopRef) : List LoopRef :=
  (store.loop ref).children.toList

/-- Some given loop reaches the loop through children. -/
def ReachedFrom (store : LoopStore) (refs : List LoopRef) (ref : LoopRef) : Prop :=
  ∃ first ∈ refs, Reaches store.childrenOf first ref

/-- The values of a loop's children, in order, folded into the checksum of its own fields. -/
def foldChildren (program : Program) (store : LoopStore) (value : LoopRef → Int) (ref : LoopRef)
    : Int :=
  absorbAll ((store.loop ref).ownChecksum program) ((store.childrenOf ref).map value)

/-- Every loop that the given ones reach has the value that folds those of its children. -/
def SumsChildren (program : Program) (store : LoopStore) (refs : List LoopRef)
    (cs : LoopRef → Int)
    : Prop :=
  ∀ ref, store.ReachedFrom refs ref → cs ref = store.foldChildren program cs ref

theorem foldChildren_congr (same : ∀ child ∈ store.childrenOf ref, value child = cs child)
    : store.foldChildren program value ref = store.foldChildren program cs ref := by
  rw [foldChildren, foldChildren, List.map_congr_left same]

namespace ReachedFrom

theorem of_mem (listed : ref ∈ refs) : store.ReachedFrom refs ref :=
  ⟨ref, listed, .refl⟩

theorem onward (reached : store.ReachedFrom refs ref) (reaches : Reaches store.childrenOf ref other)
    : store.ReachedFrom refs other := by
  obtain ⟨first, listed, before⟩ := reached
  exact ⟨first, listed, before.trans reaches⟩

theorem cons_iff
    : store.ReachedFrom (ref :: refs) other
      ↔ store.ReachedFrom [ref] other ∨ store.ReachedFrom refs other := by
  simp [ReachedFrom]

theorem singleton_iff
    : store.ReachedFrom [ref] other
      ↔ other = ref ∨ store.ReachedFrom (store.childrenOf ref) other := by
  simp only [ReachedFrom, List.mem_singleton, exists_eq_left]
  rw [Reaches, Relation.ReflTransGen.cases_head_iff, eq_comm]

end ReachedFrom

/-- The recursion leaves no choice. Witness: induction over the loops below a given one. -/
theorem SumsChildren.unique (first : store.SumsChildren program refs value)
    (second : store.SumsChildren program refs cs)
    (acyclic : ∀ ref ∈ refs, Acyclic store.childrenOf ref)
    (inTable : ∀ ref, store.ReachedFrom refs ref → ref < store.loops.size)
    (reached : store.ReachedFrom refs ref)
    : value ref = cs ref := by
  obtain ⟨top, listed, reaches⟩ := reached
  have onward {outer : LoopRef} (below : Reaches store.childrenOf ref outer)
      : store.ReachedFrom refs outer :=
    ⟨top, listed, reaches.trans below⟩
  apply ((acyclic top listed).below reaches).induction fun outer below =>
    inTable outer (onward below)
  intro outer below children
  rw [first outer (onward below), second outer (onward below)]
  exact foldChildren_congr children

------------------------------------------------------------------------------------------
-- Tables of checksums
------------------------------------------------------------------------------------------

/-- Folding known checksums succeeds where none is missing, and folds what the table holds. -/
theorem absorbChildren_eq (listed : ∀ child ∈ refs, child ∈ sums)
    : absorbChildren sums acc refs
      = some (absorbAll acc (refs.map fun ref => sums.getD ref 0)) := by
  induction refs generalizing acc with
  | nil => rfl
  | cons child rest ih =>
      obtain ⟨here, later⟩ := List.forall_mem_cons.mp listed
      have found : sums[child]? = some (sums.getD child 0) := TreeMap.getElem?_eq_some_getD here
      rw [absorbChildren, found]
      exact ih later

/-- The first table is part of the second. -/
def PartOf (before after : TreeMap LoopRef Int) : Prop :=
  ∀ ref ∈ before, after[ref]? = before[ref]?

namespace PartOf

theorem refl (sums : TreeMap LoopRef Int) : PartOf sums sums :=
  fun _ _ => rfl

theorem mem (part : PartOf before after) (recorded : ref ∈ before) : ref ∈ after := by
  rw [TreeMap.mem_iff_isSome_getElem?, part ref recorded]
  exact TreeMap.mem_iff_isSome_getElem?.mp recorded

theorem trans (first : PartOf before middle) (second : PartOf middle after)
    : PartOf before after :=
  fun ref recorded => (second ref (first.mem recorded)).trans (first ref recorded)

theorem getD_eq (part : PartOf before after) (recorded : ref ∈ before)
    : after.getD ref 0 = before.getD ref 0 := by
  rw [TreeMap.getD_eq_getD_getElem?, part ref recorded, ← TreeMap.getD_eq_getD_getElem?]

theorem insert (fresh : ref ∉ sums) (sum : Int) : PartOf sums (sums.insert ref sum) := by
  intro other recorded
  rw [TreeMap.getElem?_insert, if_neg]
  intro same
  exact fresh (compare_eq_iff_eq.mp same ▸ recorded)

end PartOf

/-- A table in which each loop has its children, and the value that folds theirs. -/
structure Settled (program : Program) (store : LoopStore) (sums : TreeMap LoopRef Int)
    : Prop where
  closed : ∀ ref ∈ sums, ∀ child ∈ store.childrenOf ref, child ∈ sums
  sum_eq : ∀ ref ∈ sums, sums.getD ref 0 = store.foldChildren program (sums.getD · 0) ref

namespace Settled

theorem empty (program : Program) (store : LoopStore) : store.Settled program ∅ :=
  ⟨fun _ recorded => absurd recorded TreeMap.not_mem_emptyc,
    fun _ recorded => absurd recorded TreeMap.not_mem_emptyc⟩

theorem mem_of_reaches (settled : store.Settled program sums) (recorded : ref ∈ sums)
    (reaches : Reaches store.childrenOf ref other)
    : other ∈ sums := by
  induction reaches with
  | refl => exact recorded
  | tail _ listed ih => exact settled.closed _ ih _ listed

/-- A loop joins the table after its children. Witness: the values folded so far stay. -/
theorem insert (settled : store.Settled program sums) (fresh : ref ∉ sums)
    (below : ∀ child ∈ store.childrenOf ref, child ∈ sums)
    : store.Settled program
        (sums.insert ref (store.foldChildren program (sums.getD · 0) ref)) := by
  have part := PartOf.insert fresh (store.foldChildren program (sums.getD · 0) ref)
  refine ⟨?_, ?_⟩
  · intro outer recorded child listed
    rcases TreeMap.mem_insert.mp recorded with same | earlier
    · obtain rfl := compare_eq_iff_eq.mp same
      exact part.mem (below child listed)
    · exact part.mem (settled.closed outer earlier child listed)
  · intro outer recorded
    rcases TreeMap.mem_insert.mp recorded with same | earlier
    · obtain rfl := compare_eq_iff_eq.mp same
      rw [TreeMap.getD_insert_self]
      exact foldChildren_congr fun child listed => (part.getD_eq (below child listed)).symm
    · rw [part.getD_eq earlier, settled.sum_eq outer earlier]
      exact foldChildren_congr fun child listed =>
        (part.getD_eq (settled.closed outer earlier child listed)).symm

end Settled

------------------------------------------------------------------------------------------
-- The pass over tasks
------------------------------------------------------------------------------------------

theorem runTasks_of_mem (recorded : ref ∈ sums) (rest : List Task)
    : store.runTasks program entered sums (Task.enter ref :: rest)
      = store.runTasks program entered sums rest := by
  rw [runTasks, if_pos recorded]

theorem runTasks_enter (missing : ref ∉ sums) (unmet : ref ∉ entered)
    (inTable : ref < store.loops.size) (rest : List Task)
    : store.runTasks program entered sums (Task.enter ref :: rest)
      = store.runTasks program (entered.insert ref) sums
          ((store.childrenOf ref).map Task.enter ++ Task.finish ref :: rest) := by
  rw [runTasks, if_neg missing, if_neg (not_or.mpr ⟨unmet, Nat.not_le.mpr inTable⟩), childrenOf]

theorem runTasks_finish (below : ∀ child ∈ store.childrenOf ref, child ∈ sums) (rest : List Task)
    : store.runTasks program entered sums (Task.finish ref :: rest)
      = store.runTasks program entered
          (sums.insert ref (store.foldChildren program (sums.getD · 0) ref)) rest := by
  have folded : absorbChildren sums ((store.loop ref).ownChecksum program)
      (store.loop ref).children.toList
      = some (store.foldChildren program (sums.getD · 0) ref) :=
    absorbChildren_eq below
  rw [runTasks]
  simp only [folded]

/-- What entering some loops in a row leaves: the loops they reach have joined the table, and the
loops entered since are in it.
-/
structure Summed (program : Program) (store : LoopStore) (refs : List LoopRef)
    (entered enteredToo : TreeSet LoopRef) (before after : TreeMap LoopRef Int)
    : Prop where
  settled : store.Settled program after
  part : PartOf before after
  mem_iff : ∀ ref, ref ∈ after ↔ ref ∈ before ∨ store.ReachedFrom refs ref
  finished : ∀ ref ∈ enteredToo, ref ∈ entered ∨ ref ∈ after

namespace Summed

theorem nil (settled : store.Settled program sums) (entered : TreeSet LoopRef)
    : store.Summed program [] entered entered sums sums :=
  ⟨settled, .refl sums, by simp [ReachedFrom], fun _ met => Or.inl met⟩

theorem cons (first : store.Summed program [ref] entered enteredToo before middle)
    (rest : store.Summed program refs enteredToo enteredLast middle after)
    : store.Summed program (ref :: refs) entered enteredLast before after := by
  refine ⟨rest.settled, first.part.trans rest.part, ?_, ?_⟩
  · intro other
    rw [rest.mem_iff, first.mem_iff, or_assoc, ← ReachedFrom.cons_iff]
  · intro other met
    rcases rest.finished other met with earlier | recorded
    · exact (first.finished other earlier).imp_right rest.part.mem
    · exact Or.inr recorded

/-- A loop in the table needs no more work, since all loops it reaches are in the table too. -/
theorem of_mem (settled : store.Settled program sums) (recorded : ref ∈ sums)
    (entered : TreeSet LoopRef)
    : store.Summed program [ref] entered entered sums sums := by
  refine ⟨settled, .refl sums, ?_, fun _ met => Or.inl met⟩
  intro other
  refine ⟨Or.inl, ?_⟩
  rintro (earlier | ⟨first, listed, reaches⟩)
  · exact earlier
  · obtain rfl := List.mem_singleton.mp listed
    exact settled.mem_of_reaches recorded reaches

/-- A loop joins the table once its children are done. -/
theorem above (below : store.Summed program (store.childrenOf ref) (entered.insert ref) enteredToo
      before after)
    (fresh : ref ∉ after)
    : store.Summed program [ref] entered enteredToo before
        (after.insert ref (store.foldChildren program (after.getD · 0) ref)) := by
  have part := PartOf.insert fresh (store.foldChildren program (after.getD · 0) ref)
  refine ⟨below.settled.insert fresh ?_, below.part.trans part, ?_, ?_⟩
  · exact fun child listed => (below.mem_iff child).mpr (Or.inr (.of_mem listed))
  · intro other
    rw [TreeMap.mem_insert, compare_eq_iff_eq, below.mem_iff, ReachedFrom.singleton_iff, eq_comm,
      or_left_comm]
  · intro other met
    rcases below.finished other met with earlier | done
    · rcases TreeSet.mem_insert.mp earlier with same | met
      · exact Or.inr (TreeMap.mem_insert.mpr (Or.inl same))
      · exact Or.inl met
    · exact Or.inr (part.mem done)

end Summed

/-- Entering the loops runs through, whatever tasks come after: from a settled table, where none
of the loops they reach is entered and not yet in it.
-/
def RunsThrough (program : Program) (store : LoopStore) (refs : List LoopRef) : Prop :=
  ∀ entered before rest,
    store.Settled program before
    → (∀ ref, store.ReachedFrom refs ref → ref ∈ entered → ref ∈ before)
    → ∃ enteredToo after,
        store.runTasks program entered before (refs.map Task.enter ++ rest)
          = store.runTasks program enteredToo after rest
        ∧ store.Summed program refs entered enteredToo before after

namespace RunsThrough

theorem nil (program : Program) (store : LoopStore) : store.RunsThrough program [] :=
  fun entered before _ settled _ => ⟨entered, before, rfl, .nil settled entered⟩

theorem cons (first : store.RunsThrough program [ref]) (rest : store.RunsThrough program refs)
    : store.RunsThrough program (ref :: refs) := by
  intro entered before later settled apart
  obtain ⟨enteredToo, middle, ran, summed⟩ := first entered before (refs.map Task.enter ++ later)
    settled fun other reached => apart other (ReachedFrom.cons_iff.mpr (Or.inl reached))
  have apartToo (other : LoopRef) (reached : store.ReachedFrom refs other)
      (met : other ∈ enteredToo)
      : other ∈ middle := by
    rcases summed.finished other met with earlier | recorded
    · exact summed.part.mem (apart other (ReachedFrom.cons_iff.mpr (Or.inr reached)) earlier)
    · exact recorded
  obtain ⟨enteredLast, after, ranToo, summedToo⟩ :=
    rest enteredToo middle later summed.settled apartToo
  exact ⟨enteredLast, after, ran.trans ranToo, summed.cons summedToo⟩

/-- A loop is passed over when it is in the table, and else finished after its children. Witness:
no child leads back to it, so it is still missing when they are done.
-/
theorem above (inTable : ref < store.loops.size)
    (apart : ∀ child ∈ store.childrenOf ref, ¬ Reaches store.childrenOf child ref)
    (below : store.RunsThrough program (store.childrenOf ref))
    : store.RunsThrough program [ref] := by
  intro entered before rest settled closed
  by_cases recorded : ref ∈ before
  · exact ⟨entered, before, runTasks_of_mem recorded rest, .of_mem settled recorded entered⟩
  · have unmet : ref ∉ entered :=
      fun met => recorded (closed ref (.of_mem (List.mem_singleton_self ref)) met)
    have closedToo (other : LoopRef) (reached : store.ReachedFrom (store.childrenOf ref) other)
        (met : other ∈ entered.insert ref)
        : other ∈ before := by
      rcases TreeSet.mem_insert.mp met with same | earlier
      · obtain rfl := compare_eq_iff_eq.mp same
        obtain ⟨child, listed, reaches⟩ := reached
        exact absurd reaches (apart child listed)
      · exact closed other (ReachedFrom.singleton_iff.mpr (Or.inr reached)) earlier
    obtain ⟨enteredToo, after, ran, summed⟩ :=
      below (entered.insert ref) before (Task.finish ref :: rest) settled closedToo
    have fresh : ref ∉ after := by
      intro again
      rcases (summed.mem_iff ref).mp again with earlier | ⟨child, listed, reaches⟩
      · exact recorded earlier
      · exact apart child listed reaches
    have children (child : LoopRef) (listed : child ∈ store.childrenOf ref) : child ∈ after :=
      (summed.mem_iff child).mpr (Or.inr (.of_mem listed))
    refine ⟨enteredToo, _, ?_, summed.above fresh⟩
    calc store.runTasks program entered before (Task.enter ref :: rest)
      _ = store.runTasks program (entered.insert ref) before
          ((store.childrenOf ref).map Task.enter ++ Task.finish ref :: rest) :=
        runTasks_enter recorded unmet inTable rest
      _ = store.runTasks program enteredToo after (Task.finish ref :: rest) := ran
      _ = _ := runTasks_finish children rest

theorem of_forall (each : ∀ ref ∈ refs, store.RunsThrough program [ref])
    : store.RunsThrough program refs := by
  induction refs with
  | nil => exact .nil program store
  | cons ref rest ih =>
      obtain ⟨here, later⟩ := List.forall_mem_cons.mp each
      exact here.cons (ih later)

end RunsThrough

/-- Entering a loop with no circle below it runs through. -/
theorem runsThrough (program : Program) (acyclic : Acyclic store.childrenOf ref)
    (inTable : ∀ other, Reaches store.childrenOf ref other → other < store.loops.size)
    : store.RunsThrough program [ref] := by
  apply acyclic.induction inTable
  intro outer reaches children
  exact .above (inTable outer reaches) (acyclic outer reaches) (.of_forall children)

/-- The pass ends with a settled table of the loops that the given ones reach. -/
theorem exists_checksums (program : Program)
    (acyclic : ∀ ref ∈ refs, Acyclic store.childrenOf ref)
    (inTable : ∀ ref, store.ReachedFrom refs ref → ref < store.loops.size)
    : ∃ sums,
        store.checksums? program refs = some sums
        ∧ store.Settled program sums
        ∧ ∀ ref, ref ∈ sums ↔ store.ReachedFrom refs ref := by
  have through : store.RunsThrough program refs := by
    apply RunsThrough.of_forall
    intro ref listed
    apply runsThrough program (acyclic ref listed)
    exact fun other reaches => inTable other ⟨ref, listed, reaches⟩
  obtain ⟨enteredToo, sums, ran, summed⟩ := through ∅ ∅ [] (.empty program store) (by simp)
  refine ⟨sums, ?_, summed.settled, ?_⟩
  · rw [List.append_nil, runTasks] at ran
    exact ran
  · intro ref
    rw [summed.mem_iff]
    simp

theorem checksum?_eq (solves : store.SumsChildren program [ref] cs)
    (acyclic : ∀ first ∈ [ref], Acyclic store.childrenOf first)
    (inTable : ∀ other, store.ReachedFrom [ref] other → other < store.loops.size)
    : store.checksum? program ref = some (cs ref) := by
  obtain ⟨sums, passed, settled, mem_iff⟩ := exists_checksums program acyclic inTable
  have solvesToo : store.SumsChildren program [ref] (sums.getD · 0) :=
    fun other reached => settled.sum_eq other ((mem_iff other).mpr reached)
  have here : store.ReachedFrom [ref] ref := .of_mem (List.mem_singleton_self ref)
  have found : sums[ref]? = some (sums.getD ref 0) :=
    TreeMap.getElem?_eq_some_getD ((mem_iff ref).mpr here)
  rw [checksum?, passed, ← solvesToo.unique solves acyclic inTable here]
  exact found

theorem forestChecksum?_eq {forest : ForestRef}
    (passed : store.checksums? program (store.forest forest).loops.toList = some sums)
    (stored : ∀ ref ∈ (store.forest forest).loops.toList, ref ∈ sums)
    (rooted : (store.forest forest).root ∈ sums)
    : store.forestChecksum? program forest
      = some (absorb
          (absorbAll (store.forest forest).loops.toList.length
            ((store.forest forest).loops.toList.map fun ref => sums.getD ref 0))
          (sums.getD (store.forest forest).root 0)) := by
  have found : sums[(store.forest forest).root]?
      = some (sums.getD (store.forest forest).root 0) :=
    TreeMap.getElem?_eq_some_getD rooted
  simp only [forestChecksum?, passed, Option.bind_eq_bind, Option.bind_some,
    absorbChildren_eq stored, found, Array.length_toList]
  rfl

/-- In loops with no circle of children the recursion has one solution. The pass finds it for
exactly the loops that the given ones reach, however often a loop is listed, and so do the
checksums of single loops and of a forest that stores the given ones.
-/
theorem checksums_eq_recursion (program : Program)
    (acyclic : ∀ ref ∈ refs, Acyclic store.childrenOf ref)
    (inTable : ∀ ref, store.ReachedFrom refs ref → ref < store.loops.size)
    : ∃ cs,
        store.SumsChildren program refs cs
        ∧ (∀ value, store.SumsChildren program refs value
          → ∀ ref, store.ReachedFrom refs ref → value ref = cs ref)
        ∧ (∃ sums,
            store.checksums? program refs = some sums
            ∧ ∀ ref sum,
                sums[ref]? = some sum ↔ store.ReachedFrom refs ref ∧ sum = cs ref)
        ∧ (∀ ref ∈ refs, store.checksum? program ref = some (cs ref))
        ∧ ∀ forest, (store.forest forest).loops.toList = refs
          → store.ReachedFrom refs (store.forest forest).root
          → store.forestChecksum? program forest
            = some (absorb (absorbAll refs.length (refs.map cs))
                (cs (store.forest forest).root)) := by
  obtain ⟨sums, passed, settled, mem_iff⟩ := exists_checksums program acyclic inTable
  have solves : store.SumsChildren program refs (sums.getD · 0) :=
    fun ref reached => settled.sum_eq ref ((mem_iff ref).mpr reached)
  refine ⟨(sums.getD · 0), solves, ?_, ⟨sums, passed, ?_⟩, ?_, ?_⟩
  · intro value solvesToo ref reached
    exact solvesToo.unique solves acyclic inTable reached
  · intro ref sum
    rw [← mem_iff]
    constructor
    · intro found
      have recorded : ref ∈ sums := by
        rw [TreeMap.mem_iff_isSome_getElem?, found]
        rfl
      have entry : sums[ref]? = some (sums.getD ref 0) := TreeMap.getElem?_eq_some_getD recorded
      exact ⟨recorded, Option.some.inj (found.symm.trans entry)⟩
    · rintro ⟨recorded, rfl⟩
      exact TreeMap.getElem?_eq_some_getD recorded
  · intro ref listed
    have inside (other : LoopRef) (reached : store.ReachedFrom [ref] other)
        : store.ReachedFrom refs other :=
      (ReachedFrom.of_mem listed).onward (by simpa [ReachedFrom] using reached)
    apply checksum?_eq
    · exact fun other reached => solves other (inside other reached)
    · simpa using acyclic ref listed
    · exact fun other reached => inTable other (inside other reached)
  · rintro forest rfl rooted
    apply forestChecksum?_eq passed
    · exact fun ref listed => (mem_iff ref).mpr (.of_mem listed)
    · exact (mem_iff _).mpr rooted

/-- A forest that stores a loop twice, which lists one child twice and shares another child, in
no forest, with the first.
-/
def sharedLoops : LoopStore where
  loops := #[{ counter := 0, synthetic := true }, { counter := 1, children := #[2, 2, 3] },
    { counter := 2, children := #[3] }, { counter := 3 }]
  forests := #[{ root := 0, loops := #[0, 1, 2, 1], nextCounter := 4 }]

/-- Shared children, stored or not, and a loop stored twice have one checksum each. Witness: each
loop stands in the table before its children, so there is no circle.
-/
theorem checksums_eq_recursion_shared
    : ∃ cs,
        sharedLoops.SumsChildren {} [0, 1, 2, 1] cs
        ∧ (∃ sums,
            sharedLoops.checksums? {} [0, 1, 2, 1] = some sums
            ∧ sums[3]? = some (cs 3))
        ∧ sharedLoops.checksum? {} 1 = some (cs 1)
        ∧ sharedLoops.forestChecksum? {} 0
          = some (absorb (absorbAll 4 [cs 0, cs 1, cs 2, cs 1]) (cs 0)) := by
  have later : ∀ outer < 4, ∀ child ∈ sharedLoops.childrenOf outer,
      outer < child ∧ child < 4 := by
    decide
  have stored : ∀ ref ∈ [0, 1, 2, 1], ref < 4 := by decide
  have acyclic (ref : LoopRef) (listed : ref ∈ [0, 1, 2, 1])
      : Acyclic sharedLoops.childrenOf ref :=
    (acyclic_of_later later (stored ref listed)).1
  have inTable (ref : LoopRef) (reached : sharedLoops.ReachedFrom [0, 1, 2, 1] ref)
      : ref < sharedLoops.loops.size := by
    obtain ⟨first, listed, reaches⟩ := reached
    exact (acyclic_of_later later (stored first listed)).2 ref reaches
  have unstored : sharedLoops.ReachedFrom [0, 1, 2, 1] 3 :=
    ⟨2, by decide, .single (by decide)⟩
  obtain ⟨cs, solves, -, ⟨sums, passed, sums_iff⟩, single, whole⟩ :=
    checksums_eq_recursion {} acyclic inTable
  exact ⟨cs, solves, ⟨sums, passed, (sums_iff 3 _).mpr ⟨unstored, rfl⟩⟩, single 1 (by decide),
    whole 0 rfl (.of_mem (by decide))⟩

end LoopNest.LoopStore
