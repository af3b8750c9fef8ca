import LoopNest.Proofs.Collapsing
import LoopNest.Proofs.Program.Reached

/-! What an analysis sees of a program. Ids matter only as far as they tell blocks apart, so a
numbering can be carried along a map of blocks that keeps successors in order; and a sweep sees of a
numbering nothing but its subtree ranges, and of the program nothing but the sources of each number.
-/

namespace LoopNest

------------------------------------------------------------------------------------------
-- Numberings along a map of blocks
------------------------------------------------------------------------------------------

/-- A map of blocks carries a part of a program that no edge leaves into another program: it keeps
the successors of each block in order, and ids tell the images apart as they tell the blocks apart.
-/
structure Program.Carries (program other : Program) (label : BlockRef → BlockRef)
    (scope : Set BlockRef) : Prop where
  block_lt : ∀ {ref}, ref ∈ scope → ref < program.blocks.size
  label_lt : ∀ {ref}, ref ∈ scope → label ref < other.blocks.size
  succ_mem : ∀ {ref succ}, ref ∈ scope → succ ∈ (program.block ref).succs.toList → succ ∈ scope
  succs_eq
    : ∀ {ref}, ref ∈ scope
      → (other.block (label ref)).succs.toList = (program.block ref).succs.toList.map label
  idOf_iff
    : ∀ {a b}, a ∈ scope → b ∈ scope
      → (other.idOf (label a) = other.idOf (label b) ↔ program.idOf a = program.idOf b)

namespace Numbering

variable {program other : Program} {label : BlockRef → BlockRef} {scope : Set BlockRef}
  {numbering image before after : Numbering} {pending : List BlockRef} {start ref : BlockRef}
  {number : Nat}

/-- A numbering of blocks in the scope and one of their images, with the same subtree ranges. -/
structure Carried (program other : Program) (label : BlockRef → BlockRef) (scope : Set BlockRef)
    (numbering image : Numbering) : Prop where
  sound : Sound program numbering
  image_sound : Sound other image
  blockOf_mem : ∀ {number}, number < numbering.size → numbering.blockOf number ∈ scope
  order_eq : image.order = numbering.order.map label
  last_eq : image.last = numbering.last

namespace Carried

theorem size_eq (carried : Carried program other label scope numbering image)
    : image.size = numbering.size := by
  rw [size, size, carried.order_eq, Array.size_map]

theorem blockOf_eq (carried : Carried program other label scope numbering image)
    (known : number < numbering.size)
    : image.blockOf number = label (numbering.blockOf number) := by
  have inTable : number < numbering.order.size := known
  simp [blockOf, carried.order_eq, inTable]

/-- A block and its image have the same number, or none. -/
theorem number?_eq (carried : Carried program other label scope numbering image)
    (carries : program.Carries other label scope) (member : ref ∈ scope)
    : image.number? (other.idOf (label ref)) = numbering.number? (program.idOf ref) := by
  ext number
  constructor
  · intro numbered
    obtain ⟨known, same⟩ := carried.image_sound.number_some numbered
    rw [carried.size_eq] at known
    rw [carried.blockOf_eq known, carries.idOf_iff (carried.blockOf_mem known) member] at same
    exact same ▸ carried.sound.number_blockOf known
  · intro numbered
    obtain ⟨known, same⟩ := carried.sound.number_some numbered
    rw [← carries.idOf_iff (carried.blockOf_mem known) member, ← carried.blockOf_eq known] at same
    exact same ▸ carried.image_sound.number_blockOf (carried.size_eq ▸ known)

theorem mem_numbers_iff (carried : Carried program other label scope numbering image)
    (carries : program.Carries other label scope) (member : ref ∈ scope)
    : other.idOf (label ref) ∈ image.numbers ↔ program.idOf ref ∈ numbering.numbers := by
  rw [Numbering.mem_numbers_iff, Numbering.mem_numbers_iff, carried.number?_eq carries member]

theorem enter (carried : Carried program other label scope numbering image)
    (carries : program.Carries other label scope) (member : ref ∈ scope) {b c : Block}
    (found : program.blocks[ref]? = some b) (foundImage : other.blocks[label ref]? = some c)
    (fresh : b.id ∉ numbering.numbers)
    : Carried program other label scope (numbering.enter ref b.id)
        (image.enter (label ref) c.id) where
  sound := carried.sound.enter found fresh
  image_sound := by
    refine carried.image_sound.enter foundImage fun known => fresh ?_
    rw [← idOf_eq foundImage, carried.mem_numbers_iff carries member] at known
    exact idOf_eq found ▸ known
  blockOf_mem := by
    intro number known
    rw [size_enter] at known
    rcases Nat.lt_succ_iff_lt_or_eq.mp known with old | rfl
    · rw [blockOf_enter old]
      exact carried.blockOf_mem old
    · rw [blockOf_enter_size]
      exact member
  order_eq := by rw [Numbering.enter, Numbering.enter, carried.order_eq, Array.map_push]
  last_eq := by rw [Numbering.enter, Numbering.enter, carried.last_eq, carried.size_eq]

theorem close (carried : Carried program other label scope numbering image) (number : Nat)
    : Carried program other label scope (numbering.close number) (image.close number) where
  sound := carried.sound.close number
  image_sound := carried.image_sound.close number
  blockOf_mem := carried.blockOf_mem
  order_eq := carried.order_eq
  last_eq := by rw [Numbering.close, Numbering.close, carried.last_eq, carried.size_eq]

end Carried

/-- Exploring the images goes as exploring the blocks. Witness: induction on the exploration; a
block was met exactly if its image was.
-/
theorem Explores.carry (explores : Explores program before pending after)
    (carries : program.Carries other label scope)
    (carried : Carried program other label scope before image)
    (inScope : ∀ ref ∈ pending, ref ∈ scope)
    : ∃ imageAfter,
        Explores other image (pending.map label) imageAfter
        ∧ Carried program other label scope after imageAfter := by
  have foundImage {ref : BlockRef} (member : ref ∈ scope)
      : other.blocks[label ref]? = some (other.block (label ref)) := by
    have found := Array.getElem?_eq_getElem (carries.label_lt member)
    rw [block_eq found, found]
  induction explores generalizing image with
  | done numbering => exact ⟨image, .done image, carried⟩
  | @skip numbering after next rest met _ ih =>
      obtain ⟨nextIn, restIn⟩ := List.forall_mem_cons.mp inScope
      obtain ⟨imageAfter, onward, carriedAfter⟩ := ih carried restIn
      refine ⟨imageAfter, .skip ?_ onward, carriedAfter⟩
      intro c found
      have known := met _ (Array.getElem?_eq_getElem (carries.block_lt nextIn))
      rw [← idOf_eq (Array.getElem?_eq_getElem (carries.block_lt nextIn)),
        ← carried.mem_numbers_iff carries nextIn] at known
      exact idOf_eq found ▸ known
  | @visit numbering inner after next rest b found fresh _ _ ihInside ihOnward =>
      obtain ⟨nextIn, restIn⟩ := List.forall_mem_cons.mp inScope
      have entered := carried.enter carries nextIn found (foundImage nextIn) fresh
      have succsIn : ∀ succ ∈ b.succs.toList, succ ∈ scope := by
        intro succ listed
        exact carries.succ_mem nextIn (block_eq found ▸ listed)
      have succs_eq : (other.block (label next)).succs.toList = b.succs.toList.map label := by
        rw [carries.succs_eq nextIn, block_eq found]
      obtain ⟨imageInner, inside, carriedInner⟩ := ihInside entered succsIn
      obtain ⟨imageAfter, onward, carriedAfter⟩ :=
        ihOnward (carriedInner.close numbering.size) restIn
      -- Both blocks get the same number, so both subtrees are closed at it.
      refine ⟨imageAfter, .visit (foundImage nextIn) ?_ (succs_eq ▸ inside) ?_, carriedAfter⟩
      · intro known
        rw [← Program.idOf, carried.mem_numbers_iff carries nextIn, idOf_eq found] at known
        exact fresh known
      · rw [carried.size_eq]
        exact onward

/-- Numbering from the image of a block is numbering from the block. -/
theorem carried_number (carries : program.Carries other label scope) (member : start ∈ scope)
    : Carried program other label scope (program.number start) (other.number (label start)) := by
  obtain ⟨b, found⟩ : ∃ b, program.blocks[start]? = some b :=
    ⟨_, Array.getElem?_eq_getElem (carries.block_lt member)⟩
  have foundImage := Array.getElem?_eq_getElem (carries.label_lt member)
  have empty : Carried program other label scope {} {} :=
    ⟨sound_empty program, sound_empty other, (fun known => nomatch known), by simp, rfl⟩
  have entered := empty.enter carries member found foundImage (by simp)
  have inside := explores_visitEach program (({} : Numbering).enter start b.id) b.succs.toList
  obtain ⟨imageInner, insideImage, carriedInner⟩ := inside.carry carries entered fun succ listed =>
    carries.succ_mem member (block_eq found ▸ listed)
  rw [← block_eq found, ← carries.succs_eq member, block_eq foundImage] at insideImage
  rw [inside.number_eq found, insideImage.number_eq foundImage]
  exact carriedInner.close 0

end Numbering

------------------------------------------------------------------------------------------
-- Sweeps over numberings with the same subtree ranges
------------------------------------------------------------------------------------------

section
variable {numbering other : Numbering} (same : other.last = numbering.last)
include same

theorem Numbering.inSubtree_congr (top number : Int)
    : other.inSubtree top number = numbering.inSubtree top number := by
  rw [inSubtree, inSubtree, lastBelow, lastBelow, same]

theorem Numbering.below_congr (top number : Nat)
    : other.Below top number ↔ numbering.Below top number := by
  rw [Below, Below, same]

theorem Numbering.outsiders_congr (header : Nat) (numbers : List Nat)
    : other.outsiders header numbers = numbering.outsiders header numbers := by
  simp only [outsiders, below_congr same]

theorem Chase.scan_congr (header : Nat) (chase : Chase) (sources : List Nat)
    : chase.scan other header sources = chase.scan numbering header sources := by
  induction sources generalizing chase with
  | nil => rfl
  | cons source rest ih => simp only [scan, Numbering.inSubtree_congr same, ih]

/-- A chase asks its numbering for the ranges of subtrees only. Witness: induction on the recursion
of the chase.
-/
theorem Chase.run_congr (bound : Int) (entries : Array (List Nat)) (header : Nat) (chase : Chase)
    (position : Nat)
    : chase.run other bound entries header position
      = chase.run numbering bound entries header position := by
  fun_induction Chase.run numbering bound entries header chase position with
  | case1 chase position more node missing =>
      rw [Chase.run, dif_pos more]
      simp only [node] at missing
      simp only [missing]
  | case2 chase position more node sources found heavy =>
      rw [Chase.run, dif_pos more]
      simp only [node] at found
      simp only [found, if_pos heavy, node]
  | case3 chase position more node sources found light halt scanned =>
      rw [Chase.run, dif_pos more]
      simp only [node] at found
      simp only [found, if_neg light]
      rw [← Chase.scan_congr same] at scanned
      split
      · next failed => rw [scanned] at failed; exact failed.symm
      · next again => rw [scanned] at again; cases again
  | case4 chase position more node sources found light next scanned ih =>
      rw [Chase.run, dif_pos more]
      simp only [node] at found
      simp only [found, if_neg light]
      rw [← Chase.scan_congr same] at scanned
      split
      · next failed => rw [scanned] at failed; cases failed
      · next again =>
          rw [scanned] at again
          cases again
          exact ih
  | case5 chase position done => rw [Chase.run, dif_neg done]

theorem Sweep.gather_congr (bound : Int) (sweep : Sweep) (number : Nat)
    : sweep.gather other bound number = sweep.gather numbering bound number := by
  rw [gather, gather]
  simp only [Chase.run_congr same]

theorem Sweep.visitAll_congr (bound : Int) (numbers : List Nat) (sweep : Sweep)
    : visitAll other bound numbers sweep = visitAll numbering bound numbers sweep := by
  induction numbers generalizing sweep with
  | nil => rfl
  | cons number rest ih => simp only [visitAll, Sweep.gather_congr same, ih]

theorem Sweep.run_congr (size_eq : other.size = numbering.size) (bound : Int) (sweep : Sweep)
    : sweep.run other bound = sweep.run numbering bound := by
  rw [run, run, size_eq, Sweep.visitAll_congr same]

/-- Sweeps with the same sources for each number start alike. -/
theorem Sweep.start_congr {program image : Program} (size_eq : other.size = numbering.size)
    (last_size : numbering.last.size = numbering.size)
    (sources_eq : ∀ number < numbering.size,
      sources image other number = sources program numbering number)
    : start image other = start program numbering := by
  rw [start_eq program last_size, start_eq image (by rw [same, last_size, size_eq]), size_eq]
  simp only [Numbering.outsiders_congr same, Numbering.below_congr same]
  congr 3
  · refine List.map_congr_left fun number inRange => ?_
    rw [sources_eq number (List.mem_range.mp inRange)]
  · refine List.map_congr_left fun number inRange => ?_
    rw [sources_eq number (List.mem_range.mp inRange)]

end

end LoopNest
