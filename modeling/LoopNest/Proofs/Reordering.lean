import LoopNest.Proofs.Relabeling
import Mathlib.Data.List.Forall2
import Mathlib.Data.List.Perm.Basic

/-! Sweeps over the same sources in different orders. What a header gathers is a closure, with
repetitions from the back edges alone, so it is the same up to order; the representatives, the flags
and the numbers of ways in that are held against the bound do not depend on the order at all.
-/

namespace LoopNest

/-- Regions with the same header, the same flag, and the same parts in any order. -/
structure Region.Reorders (region other : Region) : Prop where
  header_eq : other.header = region.header
  parts_perm : region.parts.Perm other.parts
  reducible_eq : other.reducible = region.reducible

------------------------------------------------------------------------------------------
-- One chase
------------------------------------------------------------------------------------------

namespace Chase

variable {numbering : Numbering} {bound : Int} {entries others : Array (List Nat)} {header x : Nat}
  {rep : Nat → Nat} {seeds otherSeeds : List Nat} {chase other : Chase}

/-- What is gathered depends on the seeds and the ways in as sets. -/
theorem Gathered.mono (gathered : Gathered numbering entries header rep seeds x)
    (seeds_le : seeds ⊆ otherSeeds)
    (entries_le : ∀ number, entries.getD number [] ⊆ others.getD number [])
    : Gathered numbering others header rep otherSeeds x := by
  induction gathered with
  | seed member => exact .seed (seeds_le member)
  | chase _ entry below differs ih => exact .chase ih (entries_le _ entry) below differs

theorem gathered_iff_of_perm (seeds_perm : seeds.Perm otherSeeds)
    (entries_perm : ∀ number, (entries.getD number []).Perm (others.getD number []))
    : Gathered numbering entries header rep seeds x
      ↔ Gathered numbering others header rep otherSeeds x :=
  ⟨fun gathered => gathered.mono seeds_perm.subset fun number => (entries_perm number).subset,
    fun gathered =>
      gathered.mono seeds_perm.symm.subset fun number => (entries_perm number).symm.subset⟩

/-- Gathering from the same seeds over the same ways in, in other orders, pools the same numbers as
often and meets the same ways in from outside as often. Witness: what joins the seeds joins once.
-/
theorem Gathering.perm (gathering : Gathering numbering bound entries header rep seeds chase)
    (otherGathering : Gathering numbering bound others header rep otherSeeds other)
    (seeds_perm : seeds.Perm otherSeeds)
    (entries_perm : ∀ number, (entries.getD number []).Perm (others.getD number []))
    : chase.pool.toList.Perm other.pool.toList
      ∧ chase.outside.toList.Perm other.outside.toList := by
  obtain ⟨joined, pool_eq, distinct, apart⟩ := gathering.pool_eq
  obtain ⟨otherJoined, otherPool_eq, otherDistinct, otherApart⟩ := otherGathering.pool_eq
  -- Seeds may repeat, so the pools are no sets; but what joins them does so once on both sides.
  have pooled_iff (x : Nat) : x ∈ seeds ++ joined ↔ x ∈ otherSeeds ++ otherJoined := by
    rw [← pool_eq, ← otherPool_eq, gathering.mem_iff, otherGathering.mem_iff]
    exact gathered_iff_of_perm seeds_perm entries_perm
  have joined_iff (x : Nat) : x ∈ joined ↔ x ∈ otherJoined := by
    constructor
    · intro member
      have unseeded := mt seeds_perm.mem_iff.mpr (apart x member)
      have pooled := (pooled_iff x).mp (List.mem_append_right seeds member)
      exact (List.mem_append.mp pooled).resolve_left unseeded
    · intro member
      have unseeded := mt seeds_perm.mem_iff.mp (otherApart x member)
      have pooled := (pooled_iff x).mpr (List.mem_append_right otherSeeds member)
      exact (List.mem_append.mp pooled).resolve_left unseeded
  have pool_perm : chase.pool.toList.Perm other.pool.toList := by
    rw [pool_eq, otherPool_eq]
    exact seeds_perm.append ((List.perm_ext_iff_of_nodup distinct otherDistinct).mpr joined_iff)
  refine ⟨pool_perm, ?_⟩
  rw [gathering.outside_eq, otherGathering.outside_eq]
  exact pool_perm.flatMap fun x _ => ((entries_perm x).map rep).filter _

end Chase

------------------------------------------------------------------------------------------
-- One visit and whole sweeps
------------------------------------------------------------------------------------------

namespace Sweep

variable {sweep other : Sweep} {numbering image : Numbering} {first : Nat} {rep : Nat → Nat}

/-- Sweeps with the same sources for each number in any order, which found the same regions up to
the order of their parts.
-/
structure Reorders (sweep other : Sweep) : Prop where
  latches_perm
    : ∀ number, (sweep.latches.getD number []).Perm (other.latches.getD number [])
  entries_perm
    : ∀ number, (sweep.entries.getD number []).Perm (other.entries.getD number [])
  headed_eq : other.headed = sweep.headed
  regions_alike : List.Forall₂ Region.Reorders sweep.regions.toList other.regions.toList

theorem Steady.of_size_eq (steady : sweep.Steady image first rep)
    (size_eq : image.size = numbering.size)
    : sweep.Steady numbering first rep :=
  { steady with
    latches_size := steady.latches_size.trans size_eq
    entries_size := steady.entries_size.trans size_eq
    sets_size := steady.sets_size.trans size_eq
    headed_size := steady.headed_size.trans size_eq
    latch_lt := size_eq ▸ steady.latch_lt
    entry_lt := size_eq ▸ steady.entry_lt }

namespace Reorders

theorem part_eq (reorders : sweep.Reorders other) : other.part = sweep.part := by
  funext node
  rw [part, part, reorders.headed_eq]

theorem collapse (reorders : sweep.Reorders other) (inTable : first < sweep.entries.size)
    (otherInTable : first < other.entries.size) {chase otherChase : Chase}
    (pool_perm : chase.pool.toList.Perm otherChase.pool.toList)
    (outside_perm : chase.outside.toList.Perm otherChase.outside.toList)
    : (sweep.collapse first chase).Reorders (other.collapse first otherChase) where
  latches_perm := reorders.latches_perm
  entries_perm := by
    intro number
    rw [entries_collapse inTable, entries_collapse otherInTable]
    split
    · exact (reorders.entries_perm number).append outside_perm
    · exact reorders.entries_perm number
  headed_eq := by
    have sizes := reorders.regions_alike.length_eq
    rw [Array.length_toList, Array.length_toList] at sizes
    rw [Sweep.collapse, Sweep.collapse, reorders.headed_eq, sizes]
  regions_alike := by
    rw [Sweep.collapse, Sweep.collapse, Array.toList_push, Array.toList_push]
    refine List.rel_append reorders.regions_alike (.cons ⟨rfl, ?_, ?_⟩ .nil)
    · rw [reorders.part_eq]
      exact pool_perm.map sweep.part
    · have sizes := outside_perm.length_eq
      rw [Array.length_toList, Array.length_toList] at sizes
      rw [Array.isEmpty, Array.isEmpty, sizes]

section
variable (reorders : sweep.Reorders other) (steady : sweep.Steady numbering (first + 1) rep)
  (otherSteady : other.Steady numbering (first + 1) rep)
  (last_size : numbering.last.size = numbering.size) (known : first < numbering.size)
include reorders steady otherSteady last_size known

/-- Visits to a number in both sweeps pass it over, gather the same, or both give up. Witness: how
many ways lead into a gathered number does not depend on their order.
-/
theorem gather (bound : Int)
    : sweep.gather numbering bound first = .ok none
        ∧ other.gather numbering bound first = .ok none
      ∨ (∃ chase otherChase,
          sweep.gather numbering bound first = .ok (some chase)
          ∧ other.gather numbering bound first = .ok (some otherChase)
          ∧ Chase.Gathering numbering bound sweep.entries first rep
              (Steady.seeds sweep rep first) chase
          ∧ Chase.Gathering numbering bound other.entries first rep
              (Steady.seeds other rep first) otherChase)
      ∨ ∃ halt otherHalt,
          sweep.gather numbering bound first = .error halt
          ∧ other.gather numbering bound first = .error otherHalt := by
  have latches_perm := reorders.latches_perm first
  have seeds_perm : (Steady.seeds sweep rep first).Perm (Steady.seeds other rep first) :=
    (latches_perm.filter _).map rep
  have gathered_iff (x : Nat)
      : Chase.Gathered numbering sweep.entries first rep (Steady.seeds sweep rep first) x
        ↔ Chase.Gathered numbering other.entries first rep (Steady.seeds other rep first) x :=
    Chase.gathered_iff_of_perm seeds_perm reorders.entries_perm
  rcases steady.gather_cases last_size known bound with
    ⟨absent, nothing⟩ | ⟨present, ⟨chase, gathered, gathering⟩ | ⟨x, halted, heavy, reached⟩⟩
  · rcases otherSteady.gather_cases last_size known bound with
      ⟨-, otherNothing⟩ | ⟨otherPresent, -⟩
    · exact Or.inl ⟨nothing, otherNothing⟩
    · exact absurd (absent ▸ latches_perm).nil_eq.symm otherPresent
  · rcases otherSteady.gather_cases last_size known bound with
      ⟨otherAbsent, -⟩
        | ⟨-, ⟨otherChase, otherGathered, otherGathering⟩ | ⟨x, -, heavy, reached⟩⟩
    · exact absurd (otherAbsent ▸ latches_perm).eq_nil present
    · exact Or.inr (Or.inl ⟨chase, otherChase, gathered, otherGathered, gathering,
        otherGathering⟩)
    · -- One chase cannot end where the other meets too many ways in, as both take up the closure.
      have light := gathering.light x ((gathering.mem_iff x).mpr ((gathered_iff x).mpr reached))
      rw [(reorders.entries_perm x).length_eq] at light
      exact absurd heavy (Int.not_lt.mpr light)
  · rcases otherSteady.gather_cases last_size known bound with
      ⟨otherAbsent, -⟩ | ⟨-, ⟨otherChase, -, otherGathering⟩ | ⟨y, otherHalted, -, -⟩⟩
    · exact absurd (otherAbsent ▸ latches_perm).eq_nil present
    · have light := otherGathering.light x
        ((otherGathering.mem_iff x).mpr ((gathered_iff x).mp reached))
      rw [← (reorders.entries_perm x).length_eq] at light
      exact absurd heavy (Int.not_lt.mpr light)
    · exact Or.inr (Or.inr ⟨_, _, halted, otherHalted⟩)

/-- One visit leaves sweeps that reorder each other, with the same representatives, or both sweeps
give up.
-/
theorem visit (bound : Int) (rest : List Nat)
    : (∃ next otherNext after,
        next.Reorders otherNext
        ∧ next.Steady numbering first after
        ∧ otherNext.Steady numbering first after
        ∧ visitAll numbering bound (first :: rest) sweep = visitAll numbering bound rest next
        ∧ visitAll numbering bound (first :: rest) other
          = visitAll numbering bound rest otherNext)
      ∨ ∃ halt otherHalt,
          visitAll numbering bound (first :: rest) sweep = (sweep, some halt)
          ∧ visitAll numbering bound (first :: rest) other = (other, some otherHalt) := by
  rw [visitAll, visitAll]
  rcases reorders.gather steady otherSteady last_size known bound with
    ⟨nothing, otherNothing⟩
      | ⟨chase, otherChase, gathered, otherGathered, gathering, otherGathering⟩
      | ⟨halt, otherHalt, halted, otherHalted⟩
  · rw [nothing, otherNothing]
    exact Or.inl ⟨sweep, other, rep, reorders, steady.skip, otherSteady.skip, rfl, rfl⟩
  · rw [gathered, otherGathered]
    obtain ⟨pool_perm, outside_perm⟩ := gathering.perm otherGathering
      (((reorders.latches_perm first).filter _).map rep) reorders.entries_perm
    -- The new representatives ask only for membership in the pool.
    have otherCollapsed := otherSteady.collapse otherGathering known
    simp only [← pool_perm.mem_iff] at otherCollapsed
    have collapsed := reorders.collapse (steady.entries_size.symm ▸ known)
      (otherSteady.entries_size.symm ▸ known) pool_perm outside_perm
    exact Or.inl ⟨_, _, _, collapsed, steady.collapse gathering known, otherCollapsed, rfl, rfl⟩
  · rw [halted, otherHalted]
    exact Or.inr ⟨halt, otherHalt, rfl, rfl⟩

end

/-- Whole sweeps find the same regions up to the order of their parts, and both end or both give up.
Witness: induction on the numbers left.
-/
theorem visitAll (reorders : sweep.Reorders other) (steady : sweep.Steady numbering first rep)
    (otherSteady : other.Steady numbering first rep)
    (last_size : numbering.last.size = numbering.size) (inTable : first ≤ numbering.size)
    (bound : Int)
    : (Sweep.visitAll numbering bound (List.range first).reverse sweep).1.Reorders
          (Sweep.visitAll numbering bound (List.range first).reverse other).1
      ∧ (Sweep.visitAll numbering bound (List.range first).reverse other).2.isSome
        = (Sweep.visitAll numbering bound (List.range first).reverse sweep).2.isSome := by
  induction first generalizing sweep other rep with
  | zero => exact ⟨reorders, rfl⟩
  | succ first ih =>
      rw [List.range_succ, List.reverse_append, List.reverse_singleton, List.singleton_append]
      rcases reorders.visit steady otherSteady last_size inTable bound (List.range first).reverse
        with ⟨next, otherNext, after, onward, steadyNext, otherSteadyNext, same, otherSame⟩
          | ⟨halt, otherHalt, gaveUp, otherGaveUp⟩
      · rw [same, otherSame]
        exact ih onward steadyNext otherSteadyNext (Nat.le_of_lt inTable)
      · rw [gaveUp, otherGaveUp]
        exact ⟨reorders, rfl⟩

/-- Sweeps whose numbers have the same sources in any order start by reordering each other. -/
theorem of_start {program image : Program} {renumbering : Numbering}
    (same : renumbering.last = numbering.last) (size_eq : renumbering.size = numbering.size)
    (last_size : numbering.last.size = numbering.size)
    (sources_perm : ∀ number < numbering.size,
      (sources program numbering number).Perm (sources image renumbering number))
    (started : start program numbering = .ok sweep)
    (otherStarted : start image renumbering = .ok other)
    : sweep.Reorders other := by
  rw [start_eq program last_size] at started
  rw [start_eq image (by rw [same, last_size, size_eq]), size_eq] at otherStarted
  simp only [Numbering.outsiders_congr same, Numbering.below_congr same] at otherStarted
  obtain rfl := Except.ok.inj started
  obtain rfl := Except.ok.inj otherStarted
  refine ⟨fun number => ?_, fun number => ?_, rfl, .nil⟩
  · by_cases known : number < numbering.size
    · simpa [known] using (sources_perm number known).filter _
    · simp [known]
  · by_cases known : number < numbering.size
    · simpa [known, Numbering.outsiders] using (sources_perm number known).filter _
    · simp [known]

/-- Sweeps that start by reordering each other, over numberings with the same ranges, find the same
regions up to the order of their parts, and both end or both give up.
-/
theorem run {renumbering : Numbering} (reorders : sweep.Reorders other)
    (steady : sweep.Steady numbering numbering.size rep)
    (otherSteady : other.Steady renumbering renumbering.size rep)
    (same : renumbering.last = numbering.last) (size_eq : renumbering.size = numbering.size)
    (last_size : numbering.last.size = numbering.size) (bound : Int)
    : (sweep.run numbering bound).1.Reorders (other.run renumbering bound).1
      ∧ (other.run renumbering bound).2.isSome = (sweep.run numbering bound).2.isSome := by
  rw [run_congr same size_eq]
  exact reorders.visitAll steady (size_eq ▸ otherSteady.of_size_eq size_eq) last_size
    (Nat.le_refl _) bound

end Reorders

end Sweep

end LoopNest
