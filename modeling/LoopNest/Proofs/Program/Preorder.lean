import LoopNest.Proofs.Program.Reached

/-! Numberings told without their search: a numbering is the recursive one, it lists what can be
reached from its start, and its subtree test asks for a path that meets no earlier number.
-/

namespace LoopNest

namespace Program

/-- The numbering of the recursive visit of a start block. -/
def numberRecursively (program : Program) (start : BlockRef) : Numbering :=
  (Numbering.visitEach program {} [start]).1

/-- The search with open frames gives every table of the recursive numbering, whatever the blocks
and their successors. Witness: the recursive numbering explores, and the search ends where the
exploration does.
-/
theorem number_eq_numberRecursively (program : Program) (start : BlockRef)
    : program.number start = program.numberRecursively start := by
  cases found : program.blocks[start]? with
  | none =>
      have met : ∀ b, program.blocks[start]? = some b → b.id ∈ ({} : Numbering).numbers := by
        simp [found]
      rw [numberRecursively, Numbering.visitEach_skip met, Numbering.visitEach, number, found]
  | some b =>
      have inside :=
        Numbering.explores_visitEach program (({} : Numbering).enter start b.id) b.succs.toList
      rw [inside.number_eq found, numberRecursively, Numbering.visitEach_visit found (by simp),
        Numbering.visit, Numbering.visitEach]
      rfl

end Program

------------------------------------------------------------------------------------------
-- Subtrees and paths
------------------------------------------------------------------------------------------

namespace Numbering

/-- The blocks whose ids have a number not before the first one. -/
def numberedFrom (numbering : Numbering) (program : Program) (first : Nat) : Set BlockRef :=
  { ref | ∃ number, numbering.number? (program.idOf ref) = some number ∧ first ≤ number }

/-- A numbering is the preorder of what can be reached from a start block: it lists each such block
once, numbers their ids by their places, and its subtree test answers whether a path leads from
the top to the other block over blocks that do not come before the top.
-/
structure IsPreorderFrom (numbering : Numbering) (program : Program) (start : BlockRef) : Prop where
  nodup : numbering.order.toList.Nodup
  mem_iff : ∀ ref, ref ∈ numbering.order ↔ Within program.Flows Set.univ start ref
  number_iff
    : ∀ id (number : Nat),
        numbering.number? id = some number
        ↔ ∃ ref, numbering.order[number]? = some ref ∧ program.idOf ref = id
  inSubtree_iff
    : ∀ (w v : Nat) top block,
        numbering.order[w]? = some top → numbering.order[v]? = some block
        → ∃ answer,
            numbering.inSubtree w v = .ok answer
            ∧ (answer = true
              ↔ Within program.Flows (numbering.numberedFrom program w) top block)

end Numbering

namespace Program

variable {program : Program} {g : GraphRef} {start : BlockRef} {top number : Nat}

/-- A subtree is what its top reaches over blocks not before it. Witness: the path of blocks is one
of numbers, as edges do not leave the graph.
-/
theorem Consistent.below_iff_within (consistent : program.Consistent)
    (registered : start ∈ (program.graph g).blocks) (known : top < (program.number start).size)
    : (program.number start).Below top number
      ↔ number < (program.number start).size
        ∧ Within program.Flows ((program.number start).numberedFrom program top)
            ((program.number start).blockOf top) ((program.number start).blockOf number) := by
  have sound := (consistent.whole registered).sound
  let later : Set Nat := { n | top ≤ n ∧ n < (program.number start).size }
  have inTable : ∀ n ∈ later, n < (program.number start).size := fun _ inside => inside.2
  have topIn : top ∈ later := ⟨Nat.le_refl top, known⟩
  constructor
  · intro below
    have knownToo := (consistent.walk registered).below_lt known below
    have near : (consistent.walk registered).Below top number := below
    have connected : Within (consistent.walk registered).Flows later top number :=
      (Traversal.within_of_below near).mono fun _ inside => ⟨inside.1, Traversal.number_lt inside⟩
    have mapped := (consistent.within_blockOf_iff registered inTable topIn
      ⟨below.1, knownToo⟩).mpr connected
    refine ⟨knownToo, mapped.mono ?_⟩
    rintro ref ⟨n, ⟨after, inRange⟩, rfl⟩
    exact ⟨n, sound.number_blockOf inRange, after⟩
  · rintro ⟨knownToo, connected⟩
    have mapped : Within program.Flows ((program.number start).blockOf '' later)
        ((program.number start).blockOf top) ((program.number start).blockOf number) := by
      refine connected.tail_induction
        (motive := Within program.Flows ((program.number start).blockOf '' later)
          ((program.number start).blockOf top))
        (.refl ⟨top, topIn, rfl⟩) ?_
      intro x y _ flows inside reached
      obtain ⟨n, ⟨_, inRange⟩, rfl⟩ := reached.target_mem
      have member := consistent.flows_mem (consistent.blockOf_mem registered inRange) flows
      obtain ⟨m, numbered, after⟩ := inside
      obtain ⟨inRangeToo, same⟩ := (consistent.number?_iff registered member).mp numbered
      exact reached.tail flows ⟨m, ⟨after, inRangeToo⟩, same⟩
    obtain ⟨n, inside, same⟩ := mapped.target_mem
    obtain rfl := consistent.blockOf_injOn registered inside.2 knownToo same
    have walked := (consistent.within_blockOf_iff registered inTable topIn inside).mp mapped
    have near : (consistent.walk registered).Below top n :=
      Traversal.below_of_within known (walked.mono fun _ inside => inside.1)
    exact near

/-- The numbering from a registered block of a built graph is a preorder of what can be reached from
it.
-/
theorem number_isPreorderFrom (calls : List BuildCall)
    (registered : start ∈ ((build calls).graph g).blocks)
    : ((build calls).number start).IsPreorderFrom (build calls) start := by
  have consistent := consistent_build calls
  have sound := (consistent.whole registered).sound
  refine ⟨sound.order_nodup, ?_, ?_, ?_⟩
  · intro ref
    rw [consistent.reached_iff registered, Array.mem_iff_getElem?]
    exact exists_congr fun number => Numbering.order_eq_some_iff
  · intro id number
    constructor
    · intro numbered
      obtain ⟨known, same⟩ := sound.number_some numbered
      exact ⟨_, Numbering.order_eq_some_iff.mpr ⟨known, rfl⟩, same⟩
    · rintro ⟨ref, listed, rfl⟩
      obtain ⟨known, rfl⟩ := Numbering.order_eq_some_iff.mp listed
      exact sound.number_blockOf known
  · intro w v top block isTop isBlock
    obtain ⟨known, rfl⟩ := Numbering.order_eq_some_iff.mp isTop
    obtain ⟨knownToo, rfl⟩ := Numbering.order_eq_some_iff.mp isBlock
    refine ⟨_, Numbering.inSubtree_eq (sound.last_size ▸ known) v, ?_⟩
    rw [decide_eq_true_eq, consistent.below_iff_within registered known, and_iff_right knownToo]

/-- A start in the middle of its graph, with a cross edge and a forward edge. -/
theorem number_isPreorderFrom_crossing
    : let program := build (BuildCall.ofEdges 6
        [(0, 1), (1, 2), (2, 3), (1, 3), (3, 2), (1, 4), (4, 3), (4, 1), (5, 1)])
      1 ∈ (program.graph 0).blocks
      ∧ (program.number 1).order = #[1, 2, 3, 4]
      ∧ (program.number 1).IsPreorderFrom program 1 := by
  intro program
  have registered : 1 ∈ (program.graph 0).blocks := by decide +kernel
  exact ⟨registered, by decide +kernel, number_isPreorderFrom _ registered⟩

end Program

end LoopNest
