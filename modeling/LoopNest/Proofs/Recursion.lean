import LoopNest.Numbering

/-! The recursive numbering: a block gets the next number, then each successor that still has none
is visited in stored order, and then the block's subtree ends at the newest number.
-/

namespace LoopNest.Numbering

variable {program : Program} {numbering before after : Numbering} {next : BlockRef}
  {rest : List BlockRef}

/-- Every id that one numbering has a number for has one in the other. -/
def Keeps (before after : Numbering) : Prop :=
  ∀ id, id ∈ before.numbers → id ∈ after.numbers

theorem unmetWeight_le_of_keeps (blocks : List Block) (keeps : before.Keeps after)
    : unmetWeight after blocks ≤ unmetWeight before blocks := by
  induction blocks with
  | nil => exact Nat.le_refl _
  | cons b rest ih =>
      simp only [unmetWeight]
      by_cases known : b.id ∈ before.numbers
      · simp only [known, keeps _ known, if_true]
        omega
      · simp only [known, if_false]
        split <;> omega

theorem keeps_enter (numbering : Numbering) (ref : BlockRef) (id : Int)
    : numbering.Keeps (numbering.enter ref id) := by
  intro other known
  simp [enter, known]

mutual

/-- Visits a block whose id has no number: it gets the next one, its successors are visited in
stored order, and the newest number then is the last one below it.
-/
def visit (program : Program) (numbering : Numbering) (ref : BlockRef) {b : Block}
    (_found : program.blocks[ref]? = some b) (_fresh : b.id ∉ numbering.numbers)
    : { after : Numbering // numbering.Keeps after } :=
  let inner := visitEach program (numbering.enter ref b.id) b.succs.toList
  ⟨inner.1.close numbering.size,
    fun id known => inner.2 id (keeps_enter numbering ref b.id id known)⟩
termination_by unmetWeight numbering program.blocks.toList
decreasing_by
  have member : b ∈ program.blocks.toList :=
    Array.mem_toList_iff.mpr (Array.mem_of_getElem? _found)
  have paid := unmetWeight_enter_add_le numbering ref member _fresh
  rw [Array.length_toList]
  omega

/-- Visits blocks in order, each one unless its id has a number by then. A reference without a block
is passed over.
-/
def visitEach (program : Program) (numbering : Numbering)
    : List BlockRef → { after : Numbering // numbering.Keeps after }
  | [] => ⟨numbering, fun _ known => known⟩
  | next :: rest =>
      match found : program.blocks[next]? with
      | none => visitEach program numbering rest
      | some b =>
          if met : b.id ∈ numbering.numbers then visitEach program numbering rest
          else
            let visited := visit program numbering next found met
            let after := visitEach program visited.1 rest
            ⟨after.1, fun id known => after.2 id (visited.2 id known)⟩
termination_by pending => unmetWeight numbering program.blocks.toList + pending.length
decreasing_by
  all_goals simp only [List.length_cons]
  · omega
  · omega
  · omega
  · have fewer := unmetWeight_le_of_keeps program.blocks.toList visited.2
    exact Nat.lt_succ_of_le (Nat.add_le_add_right fewer rest.length)

end

theorem visitEach_skip
    (met : ∀ b, program.blocks[next]? = some b → b.id ∈ numbering.numbers)
    : (visitEach program numbering (next :: rest)).1
      = (visitEach program numbering rest).1 := by
  rw [visitEach]
  split
  · rfl
  · next b found => rw [dif_pos (met b found)]

theorem visitEach_visit {b : Block} (found : program.blocks[next]? = some b)
    (fresh : b.id ∉ numbering.numbers)
    : (visitEach program numbering (next :: rest)).1
      = (visitEach program (visit program numbering next found fresh).1 rest).1 := by
  rw [visitEach]
  split
  · next missing => cases missing.symm.trans found
  · next again =>
      obtain rfl := Option.some.inj (found.symm.trans again)
      rw [dif_neg fresh]

end LoopNest.Numbering
