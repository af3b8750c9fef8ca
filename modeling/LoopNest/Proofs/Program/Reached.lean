import LoopNest.Proofs.Exploration
import LoopNest.Proofs.Program.Construction
import LoopNest.Sweep
import Mathlib.Data.List.Perm.Subperm

/-! The numbering of a built graph is a depth-first traversal of exactly the blocks that can be
reached from its start, and paths of numbers are paths of blocks.
-/

namespace LoopNest

namespace Numbering

variable {program : Program} {start : BlockRef} {numbering : Numbering}

theorem order_eq_some_iff {number : Nat} {ref : BlockRef}
    : numbering.order[number]? = some ref
      ↔ number < numbering.size ∧ numbering.blockOf number = ref := by
  rw [Array.getElem?_eq_some_iff]
  constructor
  · rintro ⟨known, same⟩
    exact ⟨known, by simpa [blockOf, known] using same⟩
  · rintro ⟨known, same⟩
    have inTable : number < numbering.order.size := known
    exact ⟨inTable, by simpa [blockOf, inTable] using same⟩

/-- No block has two numbers. Witness: the number of a block is that of its id. -/
theorem Sound.order_nodup (sound : Sound program numbering)
    : numbering.order.toList.Nodup := by
  rw [List.nodup_iff_getElem?_ne_getElem?]
  intro i j before inRange same
  obtain ⟨ref, listed⟩ : ∃ ref, numbering.order[j]? = some ref :=
    ⟨_, Array.getElem?_eq_getElem (by simpa using inRange)⟩
  rw [Array.getElem?_toList, Array.getElem?_toList, listed] at same
  obtain ⟨known, sameBlock⟩ := order_eq_some_iff.mp same
  obtain ⟨knownToo, sameToo⟩ := order_eq_some_iff.mp listed
  have numbered := sound.number_blockOf known
  rw [sameBlock, ← sameToo, sound.number_blockOf knownToo] at numbered
  exact absurd (Option.some.inj numbered) (Nat.ne_of_gt before)

/-- A numbering that was explored from a start block. -/
structure Whole (program : Program) (start : BlockRef) (numbering : Numbering) : Prop where
  sound : Sound program numbering
  positive : 0 < numbering.size
  blockOf_zero : numbering.blockOf 0 = start
  closed : ∀ number < numbering.size, Closed program numbering number
  met : ∀ number < numbering.size, 0 < number → MetFrom program numbering 0 number

/-- Numbering from a block enters it, explores its successors and closes it. -/
theorem Explores.number_eq {b : Block} {inner : Numbering}
    (found : program.blocks[start]? = some b)
    (inside : Explores program (({} : Numbering).enter start b.id) b.succs.toList inner)
    : program.number start = inner.close 0 := by
  simp only [Program.number, found]
  rw [inside.search_eq, search]

theorem explores_number {b : Block} (found : program.blocks[start]? = some b)
    : Explores program {} [start] (program.number start) := by
  have inside := explores_visitEach program (({} : Numbering).enter start b.id) b.succs.toList
  rw [inside.number_eq found]
  exact .visit found (by simp) inside (.done _)

theorem sound_empty (program : Program) : Sound program {} :=
  ⟨rfl, by simp [number?], by simp [size], by simp [size]⟩

/-- Every numbering is sound; one from an unused reference is empty. -/
theorem sound_number (program : Program) (start : BlockRef)
    : Sound program (program.number start) := by
  cases found : program.blocks[start]? with
  | none =>
      rw [Program.number, found]
      exact sound_empty program
  | some b => exact (explores_number found).sound (sound_empty program)

/-- Numbering from a known block explores everything below it. Witness: the start is the only
pending block, so every later number was met from an earlier one.
-/
theorem whole_number (inTable : start < program.blocks.size)
    : Whole program start (program.number start) := by
  have explores := explores_number (Array.getElem?_eq_getElem inTable)
  have sound := sound_number program start
  have explored := explores.explored (sound_empty program)
  obtain ⟨number, numbered⟩ := explored.met start List.mem_cons_self inTable
  have positive : 0 < (program.number start).size :=
    Nat.zero_lt_of_lt (sound.number_some numbered).1
  have blockOf_zero : (program.number start).blockOf 0 = start := by
    rcases explored.origin 0 (Nat.zero_le 0) positive with ⟨_, _, impossible, _⟩ | ⟨pending, -⟩
    · exact absurd impossible (Nat.not_lt_zero _)
    · exact List.mem_singleton.mp pending
  refine ⟨sound, positive, blockOf_zero, fun number => explored.closed number (Nat.zero_le _), ?_⟩
  intro number known later
  rcases explored.origin number (Nat.zero_le number) known with met | ⟨pending, -⟩
  · exact met
  · have same : (program.number start).blockOf number = (program.number start).blockOf 0 :=
      (List.mem_singleton.mp pending).trans blockOf_zero.symm
    have first := sound.number_blockOf positive
    rw [← same, sound.number_blockOf known] at first
    exact absurd (Option.some.inj first) (Nat.ne_of_gt later)

theorem Whole.below_trans {top middle number : Nat} (whole : Whole program start numbering)
    (outer : numbering.Below top middle) (inner : numbering.Below middle number)
    : numbering.Below top number := by
  have outerBounds : top ≤ middle ∧ middle ≤ numbering.lastOf top := outer
  have innerBounds : middle ≤ number ∧ number ≤ numbering.lastOf middle := inner
  cases Nat.lt_or_ge top numbering.size with
  | inl known =>
      have nested := (whole.closed top known).nested middle outerBounds.1 outerBounds.2
      exact ⟨by omega, innerBounds.2.trans nested⟩
  | inr past =>
      have outside : numbering.lastOf top = 0 := by
        simp [lastOf, whole.sound.last_size ▸ past]
      have positive := whole.positive
      omega

end Numbering

namespace Program

variable {program : Program} {g : GraphRef} {start ref other src dst : BlockRef}

/-- An edge leads from one block to another. -/
def Flows (program : Program) (src dst : BlockRef) : Prop :=
  dst ∈ (program.block src).succs

namespace Consistent

theorem flows_iff (consistent : program.Consistent) (member : src ∈ (program.graph g).blocks)
    : program.Flows src dst ↔ ⟨src, dst⟩ ∈ program.edgesOf g := by
  rw [Flows, ← Array.mem_toList_iff, consistent.succs_eq member, List.mem_map]
  constructor
  · intro ⟨edge, listed, same⟩
    obtain ⟨listed, isSource⟩ := List.mem_filter.mp listed
    rwa [← of_decide_eq_true isSource, ← same]
  · intro listed
    exact ⟨⟨src, dst⟩, List.mem_filter.mpr ⟨listed, by simp⟩, rfl⟩

theorem mem_preds_iff (consistent : program.Consistent)
    (member : dst ∈ (program.graph g).blocks)
    : src ∈ (program.block dst).preds ↔ ⟨src, dst⟩ ∈ program.edgesOf g := by
  rw [← Array.mem_toList_iff, consistent.preds_eq member, List.mem_map]
  constructor
  · intro ⟨edge, listed, same⟩
    obtain ⟨listed, isTarget⟩ := List.mem_filter.mp listed
    rwa [← of_decide_eq_true isTarget, ← same]
  · intro listed
    exact ⟨⟨src, dst⟩, List.mem_filter.mpr ⟨listed, by simp⟩, rfl⟩

theorem flows_mem (consistent : program.Consistent) (member : src ∈ (program.graph g).blocks)
    (flows : program.Flows src dst)
    : dst ∈ (program.graph g).blocks :=
  (consistent.ends_mem ((consistent.flows_iff member).mp flows)).2

/-- Edges do not enter a graph from outside either. -/
theorem mem_of_flows (consistent : program.Consistent) (member : dst ∈ (program.graph g).blocks)
    (flows : program.Flows src dst)
    : src ∈ (program.graph g).blocks := by
  by_cases loose : ∀ h, src ∉ (program.graph h).blocks
  · rw [Flows, consistent.loose_succs loose] at flows
    exact absurd flows (Array.not_mem_empty dst)
  · push Not at loose
    obtain ⟨h, srcMem⟩ := loose
    rwa [consistent.graph_unique member (consistent.flows_mem srcMem flows)]

theorem whole (consistent : program.Consistent) (registered : start ∈ (program.graph g).blocks)
    : Numbering.Whole program start (program.number start) :=
  Numbering.whole_number (consistent.block_lt registered)

/-- Only registered blocks get numbers. Witness: strong induction, as edges do not leave a
graph.
-/
theorem blockOf_mem (consistent : program.Consistent)
    (registered : start ∈ (program.graph g).blocks) {number : Nat}
    (known : number < (program.number start).size)
    : (program.number start).blockOf number ∈ (program.graph g).blocks := by
  have whole := consistent.whole registered
  induction number using Nat.strong_induction_on with
  | _ number ih =>
      rcases Nat.eq_zero_or_pos number with rfl | later
      · rw [whole.blockOf_zero]
        exact registered
      · obtain ⟨parent, -, earlier, -, edge, -⟩ := whole.met number known later
        have parentMem := ih parent earlier (earlier.trans known)
        exact consistent.flows_mem parentMem (Array.mem_toList_iff.mp edge)

theorem number?_iff (consistent : program.Consistent)
    (registered : start ∈ (program.graph g).blocks) (member : ref ∈ (program.graph g).blocks)
    {number : Nat}
    : (program.number start).number? (program.idOf ref) = some number
      ↔ number < (program.number start).size ∧ (program.number start).blockOf number = ref := by
  have sound := (consistent.whole registered).sound
  constructor
  · intro numbered
    obtain ⟨known, same⟩ := sound.number_some numbered
    exact ⟨known, consistent.eq_of_idOf_eq (consistent.blockOf_mem registered known) member same⟩
  · intro ⟨known, same⟩
    exact same ▸ sound.number_blockOf known

theorem mem_sources_iff (consistent : program.Consistent)
    (registered : start ∈ (program.graph g).blocks) {source number : Nat}
    (known : number < (program.number start).size)
    : source ∈ Sweep.sources program (program.number start) number
      ↔ source < (program.number start).size
        ∧ program.Flows ((program.number start).blockOf source)
            ((program.number start).blockOf number) := by
  have member := consistent.blockOf_mem registered known
  rw [Sweep.sources, List.mem_filterMap]
  constructor
  · intro ⟨ref, listed, numbered⟩
    have edge := (consistent.mem_preds_iff member).mp (Array.mem_toList_iff.mp listed)
    have srcMem := (consistent.ends_mem edge).1
    obtain ⟨sourceKnown, same⟩ := (consistent.number?_iff registered srcMem).mp numbered
    rw [same]
    exact ⟨sourceKnown, (consistent.flows_iff srcMem).mpr edge⟩
  · intro ⟨sourceKnown, flows⟩
    have srcMem := consistent.blockOf_mem registered sourceKnown
    have edge := (consistent.flows_iff srcMem).mp flows
    refine ⟨_, Array.mem_toList_iff.mpr ((consistent.mem_preds_iff member).mpr edge), ?_⟩
    exact (consistent.number?_iff registered srcMem).mpr ⟨sourceKnown, rfl⟩

------------------------------------------------------------------------------------------
-- The traversal of a graph
------------------------------------------------------------------------------------------

/-- The numbering from a registered block as a traversal of the graph's edges. -/
def walk (consistent : program.Consistent) (registered : start ∈ (program.graph g).blocks)
    : Traversal where
  toNumbering := program.number start
  sources := Sweep.sources program (program.number start)
  positive := (consistent.whole registered).positive
  last_size := (consistent.whole registered).sound.last_size
  source_lt := fun known member => ((consistent.mem_sources_iff registered known).mp member).1
  below_self := fun known =>
    ⟨Nat.le_refl _, ((consistent.whole registered).closed _ known).le_last⟩
  below_lt := fun known below =>
    below.2.trans_lt ((consistent.whole registered).closed _ known).last_lt
  below_trans := (consistent.whole registered).below_trans
  target_below := by
    intro source number known member forward
    have whole := consistent.whole registered
    obtain ⟨sourceKnown, flows⟩ := (consistent.mem_sources_iff registered known).mp member
    obtain ⟨target, numbered, bounded⟩ := (whole.closed source sourceKnown).successor _
      (Array.mem_toList_iff.mpr flows) (whole.sound.blockOf_lt known)
    rw [whole.sound.number_blockOf known] at numbered
    exact ⟨forward, Option.some.inj numbered ▸ bounded⟩
  parent := by
    intro number known later
    have whole := consistent.whole registered
    obtain ⟨parent, -, earlier, -, edge, around⟩ := whole.met number known later
    refine ⟨parent, ?_, earlier, fun top before => around top (Nat.zero_le top) before⟩
    exact (consistent.mem_sources_iff registered known).mpr
      ⟨earlier.trans known, Array.mem_toList_iff.mp edge⟩

section
variable (consistent : program.Consistent) (registered : start ∈ (program.graph g).blocks)
include consistent registered

/-- Edges of the traversal are the edges between the numbered blocks. -/
theorem walk_flows_iff {source target : Nat}
    : (consistent.walk registered).Flows source target
      ↔ source < (program.number start).size
        ∧ target < (program.number start).size
        ∧ program.Flows ((program.number start).blockOf source)
            ((program.number start).blockOf target) := by
  constructor
  · intro ⟨known, member⟩
    obtain ⟨sourceKnown, flows⟩ := (consistent.mem_sources_iff registered known).mp member
    exact ⟨sourceKnown, known, flows⟩
  · intro ⟨sourceKnown, known, flows⟩
    exact ⟨known, (consistent.mem_sources_iff registered known).mpr ⟨sourceKnown, flows⟩⟩

theorem blockOf_injOn
    : Set.InjOn (program.number start).blockOf { n | n < (program.number start).size } := by
  intro first known second knownToo same
  have sound := (consistent.whole registered).sound
  have numbered := sound.number_blockOf known
  rw [same, sound.number_blockOf knownToo] at numbered
  exact (Option.some.inj numbered).symm

/-- Exactly the blocks that can be reached from the start get numbers. Witness: a reached block's
successors are closed into its range, and tree paths reach every number.
-/
theorem reached_iff
    : Within program.Flows Set.univ start ref
      ↔ ∃ number < (program.number start).size, (program.number start).blockOf number = ref := by
  have whole := consistent.whole registered
  constructor
  · intro connected
    refine connected.tail_induction
      (motive := fun ref => ∃ number < (program.number start).size,
        (program.number start).blockOf number = ref)
      ⟨0, whole.positive, whole.blockOf_zero⟩ ?_
    intro x y _ flows _ ⟨number, known, same⟩
    subst same
    have srcMem := consistent.blockOf_mem registered known
    have dstMem := consistent.flows_mem srcMem flows
    obtain ⟨target, numbered, -⟩ := (whole.closed number known).successor y
      (Array.mem_toList_iff.mpr flows) (consistent.block_lt dstMem)
    exact ⟨target, (consistent.number?_iff registered dstMem).mp numbered⟩
  · intro ⟨number, known, same⟩
    have around := (consistent.walk registered).within_around known
    have mapped : Within program.Flows Set.univ ((program.number start).blockOf 0)
        ((program.number start).blockOf number) :=
      around.map (program.number start).blockOf (fun _ _ => trivial)
        fun _ _ _ _ flows => ((consistent.walk_flows_iff registered).mp flows).2.2
    rwa [same, whole.blockOf_zero] at mapped

/-- Edges lead from numbered blocks to numbered blocks. -/
theorem exists_flows {number : Nat} (known : number < (program.number start).size)
    (flows : program.Flows ((program.number start).blockOf number) ref)
    : ∃ target < (program.number start).size,
        (program.number start).blockOf target = ref
        ∧ (consistent.walk registered).Flows number target := by
  have reached := (consistent.reached_iff registered).mpr ⟨number, known, rfl⟩
  obtain ⟨target, targetKnown, rfl⟩ :=
    (consistent.reached_iff registered).mp (reached.tail flows trivial)
  exact ⟨target, targetKnown, rfl,
    (consistent.walk_flows_iff registered).mpr ⟨known, targetKnown, flows⟩⟩

/-- The numbers fit into the graph. Witness: different numbers have different blocks. -/
theorem number_size_le : (program.number start).size ≤ (program.graph g).size := by
  have included : (program.number start).order.toList ⊆ (program.graph g).blocks.toList := by
    intro ref listed
    obtain ⟨number, found⟩ := Array.mem_iff_getElem?.mp (Array.mem_toList_iff.mp listed)
    obtain ⟨known, rfl⟩ := Numbering.order_eq_some_iff.mp found
    exact Array.mem_toList_iff.mpr (consistent.blockOf_mem registered known)
  have nodup := (consistent.whole registered).sound.order_nodup
  have fits := (List.subperm_of_subset nodup included).length_le
  rwa [Array.length_toList, Array.length_toList] at fits

theorem flows_blockOf_iff {scope : Set Nat}
    (inTable : ∀ number ∈ scope, number < (program.number start).size)
    : ∀ x ∈ scope, ∀ y ∈ scope,
        program.Flows ((program.number start).blockOf x) ((program.number start).blockOf y)
        ↔ (consistent.walk registered).Flows x y := by
  intro x known y knownToo
  rw [walk_flows_iff, and_iff_right (inTable x known), and_iff_right (inTable y knownToo)]

/-- Paths inside a set of numbers are paths inside the set of their blocks. -/
theorem within_blockOf_iff {scope : Set Nat}
    (inTable : ∀ number ∈ scope, number < (program.number start).size) {source target : Nat}
    (sourceIn : source ∈ scope) (targetIn : target ∈ scope)
    : Within program.Flows ((program.number start).blockOf '' scope)
        ((program.number start).blockOf source) ((program.number start).blockOf target)
      ↔ Within (consistent.walk registered).Flows scope source target :=
  Within.image_iff ((consistent.blockOf_injOn registered).mono inTable)
    (consistent.flows_blockOf_iff registered inTable) sourceIn targetIn

theorem linked_blockOf_iff {scope : Set Nat}
    (inTable : ∀ number ∈ scope, number < (program.number start).size) {source target : Nat}
    (sourceIn : source ∈ scope) (targetIn : target ∈ scope)
    : Linked program.Flows ((program.number start).blockOf '' scope)
        ((program.number start).blockOf source) ((program.number start).blockOf target)
      ↔ Linked (consistent.walk registered).Flows scope source target :=
  Linked.image_iff ((consistent.blockOf_injOn registered).mono inTable)
    (consistent.flows_blockOf_iff registered inTable) sourceIn targetIn

theorem isCyclicComponent_blockOf_iff {scope part : Set Nat}
    (inTable : ∀ number ∈ scope, number < (program.number start).size) (included : part ⊆ scope)
    : IsCyclicComponent program.Flows ((program.number start).blockOf '' scope)
        ((program.number start).blockOf '' part)
      ↔ IsCyclicComponent (consistent.walk registered).Flows scope part :=
  IsCyclicComponent.image_iff ((consistent.blockOf_injOn registered).mono inTable)
    (consistent.flows_blockOf_iff registered inTable) included

end

end Consistent

end Program

end LoopNest
