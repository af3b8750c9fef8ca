import LoopNest.Proofs.Collapsing
import LoopNest.Proofs.Bounds

/-! Links go back: no element of a sweep's partition is linked to a later one. Finding keeps this,
since what is passed on the way up stands after the top, and so does collapsing a loop into its
header, which stands before all that was gathered.
-/

namespace LoopNest

namespace Partition

variable {sets : Partition} {steps x y target : Nat} {elements : List Nat}

/-- Every element is linked to itself or to an earlier one. -/
def LinksBack (sets : Partition) : Prop :=
  ∀ x, sets.parent x ≤ x

theorem linksBack_singletons (size : Nat) : (singletons size).LinksBack :=
  fun x => Nat.le_of_eq (parent_singletons size x)

theorem LinksBack.climb_le (linksBack : sets.LinksBack) (steps x : Nat)
    : sets.climb steps x ≤ x := by
  induction steps generalizing x with
  | zero => exact Nat.le_refl x
  | succ steps ih =>
      rw [climb]
      split
      · exact Nat.le_refl x
      · exact (ih (sets.parent x)).trans (linksBack x)

/-- The top comes before all elements passed on the way to it. Witness: induction on the steps. -/
theorem LinksBack.climb_le_of_mem_trail (linksBack : sets.LinksBack)
    (passed : y ∈ sets.trail steps x)
    : sets.climb steps x ≤ y := by
  induction steps generalizing x with
  | zero => exact absurd passed List.not_mem_nil
  | succ steps ih =>
      rw [trail] at passed
      rw [climb]
      split at passed
      · exact absurd passed List.not_mem_nil
      · next linked =>
          rw [if_neg linked]
          rcases List.mem_cons.mp passed with rfl | later
          · exact (linksBack.climb_le steps _).trans (linksBack y)
          · exact ih later

theorem LinksBack.relink (linksBack : sets.LinksBack) (after : ∀ x ∈ elements, target ≤ x)
    : (sets.relink elements target).LinksBack := by
  intro x
  rw [parent_relink]
  split
  · next listed => exact after x listed.1
  · exact linksBack x

theorem LinksBack.find (linksBack : sets.LinksBack) (x : Nat) : (sets.find x).2.LinksBack :=
  linksBack.relink fun _ passed => linksBack.climb_le_of_mem_trail passed

theorem find_of_find? {shorter : Partition} (found : sets.find? x = some (y, shorter))
    : sets.find x = (y, shorter) := by
  rw [find?] at found
  split at found
  · exact Option.some.inj found
  · cases found

end Partition

------------------------------------------------------------------------------------------
-- Chases change their partition by finding only
------------------------------------------------------------------------------------------

namespace Chase

variable {keeps : Partition → Prop} {numbering : Numbering} {bound : Int}
  {entries : Array (List Nat)} {header position : Nat} {sources : List Nat} {chase after : Chase}

theorem seed_keeps (finds : ∀ sets x, keeps sets → keeps (sets.find x).2)
    (seeded : chase.seed sources = .ok after) (before : keeps chase.sets)
    : keeps after.sets := by
  induction sources generalizing chase with
  | nil => exact Except.ok.inj seeded ▸ before
  | cons source rest ih =>
      rw [seed] at seeded
      split at seeded
      · cases seeded
      · next top shorter found =>
          have shortened := finds _ source before
          rw [Partition.find_of_find? found] at shortened
          exact ih seeded shortened

theorem scan_keeps (finds : ∀ sets x, keeps sets → keeps (sets.find x).2)
    (scanned : chase.scan numbering header sources = .ok after) (before : keeps chase.sets)
    : keeps after.sets := by
  induction sources generalizing chase with
  | nil => exact Except.ok.inj scanned ▸ before
  | cons source rest ih =>
      rw [scan] at scanned
      split at scanned
      · cases scanned
      · next top shorter found =>
          have shortened := finds _ source before
          rw [Partition.find_of_find? found] at shortened
          split at scanned
          · cases scanned
          · exact ih scanned shortened
          · split at scanned
            · exact ih scanned shortened
            · exact ih scanned shortened

/-- What finding keeps is kept by a chase that ends. Witness: induction on the recursion of the
chase, each step of which scans the sources of one node.
-/
theorem run_keeps (finds : ∀ sets x, keeps sets → keeps (sets.find x).2)
    (ended : chase.run numbering bound entries header position = .ok after)
    (before : keeps chase.sets)
    : keeps after.sets := by
  fun_induction Chase.run numbering bound entries header chase position with
  | case1 => cases ended
  | case2 => cases ended
  | case3 => cases ended
  | case4 chase position more node sources found light next scanned ih =>
      exact ih ended (scan_keeps finds scanned before)
  | case5 chase position done => exact Except.ok.inj ended ▸ before

end Chase

/-- What finding keeps is kept while a visit gathers. -/
theorem Sweep.gather_keeps {keeps : Partition → Prop} {numbering : Numbering} {bound : Int}
    {sweep : Sweep} {number : Nat} {chase : Chase}
    (finds : ∀ sets x, keeps sets → keeps (sets.find x).2)
    (gathered : sweep.gather numbering bound number = .ok (some chase))
    (before : keeps sweep.sets)
    : keeps chase.sets := by
  rcases gather_eq_ok gathered with
    ⟨-, impossible⟩ | ⟨latch, rest, seeded, last, -, seeds, ran, same⟩
  · cases impossible
  · obtain rfl := Option.some.inj same
    exact Chase.run_keeps finds ran (Chase.seed_keeps finds seeds before)

theorem Sweep.linksBack_start {program : Program} {numbering : Numbering} {sweep : Sweep}
    (last_size : numbering.last.size = numbering.size)
    (started : Sweep.start program numbering = .ok sweep)
    : sweep.sets.LinksBack := by
  rw [Sweep.start_eq program last_size] at started
  obtain rfl := Except.ok.inj started
  exact Partition.linksBack_singletons numbering.size

/-- A visit keeps links going back. Witness: what is linked to the header was visited before
it, so it comes later.
-/
theorem Sweep.Steady.linksBack_visit {numbering : Numbering} {first : Nat} {rep : Nat → Nat}
    {sweep state : Sweep} {bound : Int} (steady : sweep.Steady numbering (first + 1) rep)
    (last_size : numbering.last.size = numbering.size) (known : first < numbering.size)
    (linksBack : sweep.sets.LinksBack)
    (visited : Sweep.visitAll numbering bound [first] sweep = (state, none))
    : state.sets.LinksBack := by
  rw [Sweep.visitAll] at visited
  rcases steady.gather_cases last_size known bound with
    ⟨-, nothing⟩ | ⟨-, ⟨chase, gathered, gathering⟩ | ⟨x, halted, -, -⟩⟩
  · rw [nothing] at visited
    obtain rfl := (Prod.mk.inj visited).1
    exact linksBack
  · rw [gathered] at visited
    obtain rfl := (Prod.mk.inj visited).1
    have gatheredBack := Sweep.gather_keeps (fun _ x back => back.find x) gathered linksBack
    refine gatheredBack.relink fun x pooled => ?_
    exact (steady.pooled gathering pooled).1.le
  · rw [halted] at visited
    cases visited

end LoopNest
