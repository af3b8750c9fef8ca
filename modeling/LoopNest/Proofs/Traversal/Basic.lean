import LoopNest.Numbering
import LoopNest.Proofs.Paths

/-! Depth-first traversals of a graph on numbers. A traversal keeps what the number ranges of
subtrees say about the edges; all later facts about loops rest on these laws alone.
-/

namespace LoopNest

namespace Numbering

/-- A number lies in the subtree of a top number: in the range from the top to the last number
below it.
-/
def Below (numbering : Numbering) (top number : Nat) : Prop :=
  top ≤ number ∧ number ≤ numbering.last.getD top 0

instance (numbering : Numbering) (top number : Nat) : Decidable (numbering.Below top number) :=
  inferInstanceAs (Decidable (_ ∧ _))

/-- The subtree test of a known top never fails. Witness: its lookup is in range. -/
theorem inSubtree_eq {numbering : Numbering} {top : Nat} (known : top < numbering.last.size)
    (number : Nat)
    : numbering.inSubtree top number = .ok (decide (numbering.Below top number)) := by
  unfold inSubtree lastBelow Below
  by_cases ordered : top ≤ number
  · have notNegative : ¬ (top : Int) < 0 := by omega
    simp [ordered, notNegative, known, bind, Except.bind, pure, Except.pure]
  · simp [ordered, pure, Except.pure]

end Numbering

/-- A depth-first traversal: a numbering, and for each number the sources of the edges into it,
one for each edge.
-/
structure Traversal extends Numbering where
  sources : Nat → List Nat
  positive : 0 < toNumbering.size
  last_size : toNumbering.last.size = toNumbering.size
  source_lt
    : ∀ {source number},
        number < toNumbering.size → source ∈ sources number → source < toNumbering.size
  below_self : ∀ {number}, number < toNumbering.size → toNumbering.Below number number
  below_lt
    : ∀ {top number},
        top < toNumbering.size → toNumbering.Below top number → number < toNumbering.size
  below_trans
    : ∀ {top middle number},
        toNumbering.Below top middle → toNumbering.Below middle number
        → toNumbering.Below top number
  /-- No edge leads to a larger number outside the subtree of its source. -/
  target_below
    : ∀ {source number},
        number < toNumbering.size → source ∈ sources number → source ≤ number
        → toNumbering.Below source number
  /-- Every number but the first was met over an edge from the next smaller subtree around
  it. -/
  parent
    : ∀ {number},
        number < toNumbering.size → 0 < number
        → ∃ source ∈ sources number,
            source < number
            ∧ ∀ top < number, toNumbering.Below top number → toNumbering.Below top source

namespace Traversal

variable {walk : Traversal} {top middle number source target : Nat}

/-- There is an edge between two numbers. -/
def Flows (walk : Traversal) (source target : Nat) : Prop :=
  target < walk.size ∧ source ∈ walk.sources target

theorem Flows.source_lt (flows : walk.Flows source target) : source < walk.size :=
  walk.source_lt flows.1 flows.2

/-- Only numbers have subtrees. Witness: past the table every last number reads as zero. -/
theorem top_lt (below : walk.Below top number) : top < walk.size := by
  by_contra large
  have outside : walk.last.getD top 0 = 0 := by
    have past : walk.last.size ≤ top := by
      rw [walk.last_size]
      omega
    simp [Array.getD_eq_getD_getElem?, past]
  have positive := walk.positive
  have bounds : top ≤ number ∧ number ≤ walk.last.getD top 0 := below
  omega

theorem number_lt (below : walk.Below top number) : number < walk.size :=
  walk.below_lt (top_lt below) below

/-- Subtrees are ranges. -/
theorem below_of_le (below : walk.Below top number) (lower : top ≤ middle)
    (upper : middle ≤ number)
    : walk.Below top middle :=
  ⟨lower, upper.trans below.2⟩

/-- An edge from inside a subtree stays in it, unless it leads to a number before the top. -/
theorem below_of_flows (below : walk.Below top source) (flows : walk.Flows source target)
    (after : top ≤ target)
    : walk.Below top target := by
  cases Nat.le_total source target with
  | inl forward => exact walk.below_trans below (walk.target_below flows.1 flows.2 forward)
  | inr backward => exact below_of_le below after backward

/-- A path that meets no number before its start stays in the subtree of its start. -/
theorem below_of_within (known : top < walk.size)
    (connected : Within walk.Flows { y | top ≤ y } top number)
    : walk.Below top number :=
  connected.tail_induction (motive := walk.Below top) (walk.below_self known)
    fun _ _ _ flows after below => below_of_flows below flows after

/-- The tree path: a top reaches every number of its subtree inside that subtree. Witness:
strong induction on the number, by way of its parent.
-/
theorem within_of_below (below : walk.Below top number)
    : Within walk.Flows { y | walk.Below top y } top number := by
  induction number using Nat.strong_induction_on with
  | _ number ih =>
      rcases Nat.eq_or_lt_of_le below.1 with rfl | later
      · exact .refl below
      · obtain ⟨source, edge, earlier, around⟩ :=
          walk.parent (number_lt below) (Nat.zero_lt_of_lt later)
        have parentBelow := around top later below
        exact (ih source earlier parentBelow).tail ⟨number_lt below, edge⟩ below

/-- The subtree of a number is what it reaches over numbers not before it. -/
theorem below_iff_within (known : top < walk.size)
    : walk.Below top number ↔ Within walk.Flows { y | top ≤ y } top number :=
  ⟨fun below => (within_of_below below).mono fun _ near => near.1, below_of_within known⟩

/-- The numbers around a number lead to it from the first one. Witness: strong induction, as
the numbers around the parent are around the number too.
-/
theorem within_around (known : number < walk.size)
    : Within walk.Flows { y | walk.Below y number } 0 number := by
  induction number using Nat.strong_induction_on with
  | _ number ih =>
      rcases Nat.eq_zero_or_pos number with rfl | positive
      · exact .refl (walk.below_self known)
      · obtain ⟨source, edge, earlier, -⟩ := walk.parent known positive
        have below := walk.target_below known edge earlier.le
        have toSource := ih source earlier (earlier.trans known)
        exact (toSource.mono fun _ near => walk.below_trans near below).tail ⟨known, edge⟩
          (walk.below_self known)

end Traversal

end LoopNest
