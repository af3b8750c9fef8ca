import LoopNest.Proofs.Collapsing
import LoopNest.Proofs.Traversal.Pools

/-! The sweep over a traversal collapses, number by number from the last to the first, exactly
the clusters that have a back edge. What holds between two visits is kept by each visit.
-/

namespace LoopNest

namespace Traversal

variable {walk : Traversal} {first number x : Nat} {sweep : Sweep} {bound : Int}

/-- What the sweep has found for a header: its parts are what stands directly inside the
header's cluster, each header among them as its loop, and the flag says whether the header is the
only way in.
-/
structure Describes (walk : Traversal) (regions : Array Region) (region : Region)
    : Prop where
  parts_eq
    : ∃ pool,
        region.parts.map (Part.number? regions) = pool.map some
        ∧ walk.Pools region.header pool
  block_plain : ∀ number, Part.block number ∈ region.parts → ¬ walk.Heads number
  reducible_iff : region.reducible = true ↔ walk.SingleEntry region.header

theorem Describes.push {regions : Array Region} {region : Region}
    (described : walk.Describes regions region) (newest : Region)
    : walk.Describes (regions.push newest) region := by
  obtain ⟨pool, parts_eq, pools⟩ := described.parts_eq
  refine ⟨⟨pool, ?_, pools⟩, described.block_plain, described.reducible_iff⟩
  rw [← parts_eq]
  refine List.map_congr_left fun part member => ?_
  have listed : part.number? regions ∈ pool.map some := parts_eq ▸ List.mem_map_of_mem member
  obtain ⟨number, -, found⟩ := List.mem_map.mp listed
  rw [Part.number?_push newest found.symm, found]

/-- The state of a sweep that has visited the numbers from the first one on: it is steady, the
outermost clusters of the numbers visited are collapsed, and their loops are described.
-/
structure Swept (walk : Traversal) (first : Nat) (sweep : Sweep) : Prop
    extends steady : Sweep.Steady walk.toNumbering first (walk.outermost first) sweep where
  latches_eq : ∀ number < walk.size, sweep.latches.getD number [] = walk.latches number
  waiting : ∀ number < first, number < walk.size
    → sweep.entries.getD number [] = walk.entries number
  folded
    : ∀ number, first ≤ number → number < walk.size
      → ∃ pool, walk.Folds (fun n => sweep.entries.getD n []) number pool
  headers_eq : sweep.regions.toList.map Region.header = walk.headers first
  described : ∀ region ∈ sweep.regions, walk.Describes sweep.regions region

theorem Swept.faithful (swept : walk.Swept first sweep) (after : first ≤ number)
    (known : number < walk.size)
    : walk.Faithful (fun n => sweep.entries.getD n []) number :=
  faithful_of_folds swept.folded number after known

/-- Finding a number's representative finds the top of the outermost cluster around it. -/
theorem Swept.find_eq (swept : walk.Swept first sweep) (x : Nat)
    : (sweep.sets.find x).1 = walk.outermost first x :=
  swept.shown.representative_eq x

/-- Loops were found for exactly the headers visited. -/
theorem Swept.header_iff (swept : walk.Swept first sweep)
    : (∃ region ∈ sweep.regions, region.header = x) ↔ first ≤ x ∧ walk.Heads x := by
  rw [← mem_headers, ← swept.headers_eq, List.mem_map]
  simp

theorem Swept.seeds_eq (swept : walk.Swept (first + 1) sweep) (known : first < walk.size)
    : Sweep.Steady.seeds sweep (walk.outermost (first + 1)) first = walk.seeds first := by
  rw [Sweep.Steady.seeds, swept.latches_eq first known, seeds]

theorem Swept.gathered_iff (swept : walk.Swept (first + 1) sweep) (known : first < walk.size)
    : Chase.Gathered walk.toNumbering sweep.entries first (walk.outermost (first + 1))
        (Sweep.Steady.seeds sweep (walk.outermost (first + 1)) first) x
      ↔ walk.Inner first x := by
  rw [swept.seeds_eq known]
  refine Traversal.gathered_iff known fun x inner => ?_
  exact swept.faithful inner.1 (number_lt (inner.2.1.below known))

/-- A sweep can start, with nothing collapsed. -/
theorem swept_start (walk : Traversal) (program : Program)
    (sources_eq : ∀ number < walk.size,
      Sweep.sources program walk.toNumbering number = walk.sources number)
    : ∃ sweep, Sweep.start program walk.toNumbering = .ok sweep ∧ walk.Swept walk.size sweep := by
  obtain ⟨sweep, started, steady⟩ := Sweep.steady_start program walk.last_size (by
    intro number known y listed
    rw [sources_eq number known] at listed
    exact walk.source_lt known listed)
  have unmoved : walk.outermost walk.size = id := funext walk.outermost_size
  rw [← unmoved] at steady
  refine ⟨sweep, started, ?_⟩
  rw [Sweep.start_eq program walk.last_size] at started
  obtain rfl := Except.ok.inj started
  exact {
    steady
    latches_eq := fun number known => by simp [known, sources_eq number known, latches]
    waiting := fun number _ known => by simp [known, sources_eq number known, entries]
    folded := fun number after known => absurd known (Nat.not_lt.mpr after)
    headers_eq := by simp [headers_size]
    described := fun region recorded => absurd recorded (Array.not_mem_empty region)
  }

theorem pools_nil (known : first < walk.size) (absent : walk.latches first = [])
    : walk.Pools first [] := by
  refine ⟨⟨[], by simp [seeds, absent], .nil, by simp⟩, fun x => ?_⟩
  refine ⟨fun impossible => absurd impossible List.not_mem_nil, fun inner => ?_⟩
  have heads := inner.2.1.heads (Nat.ne_of_gt inner.1)
  exact absurd absent ((heads_iff known).mp heads)

/-- A number without back edges is a cluster of its own. -/
theorem Swept.skip (swept : walk.Swept (first + 1) sweep) (known : first < walk.size)
    (absent : walk.latches first = [])
    : walk.Swept first sweep := by
  have pools := pools_nil known absent
  have unchanged : walk.outermost first = walk.outermost (first + 1) := by
    rw [outermost_eq_ite pools]
    simp
  refine {
    steady := unchanged ▸ swept.steady.skip
    latches_eq := swept.latches_eq
    described := swept.described
    waiting := fun number before => swept.waiting number (Nat.lt_succ_of_lt before)
    folded := ?_
    headers_eq := ?_ }
  · intro number after inTable
    rcases Nat.eq_or_lt_of_le after with rfl | later
    · refine ⟨[], pools, ?_⟩
      rw [swept.waiting first (Nat.lt_succ_self first) known, List.flatMap_nil,
        List.append_nil]
    · exact swept.folded number later inTable
  · rw [swept.headers_eq, headers_of_lt known, absent]
    simp

------------------------------------------------------------------------------------------
-- A visit that collapses a loop
------------------------------------------------------------------------------------------

theorem Folds.congr {kept changed : Nat → List Nat} {pool : List Nat}
    (folds : walk.Folds kept number pool)
    (same : ∀ n, number ≤ n → changed n = kept n)
    : walk.Folds changed number pool := by
  refine ⟨folds.pools, ?_⟩
  rw [same number (Nat.le_refl number), folds.kept_eq]
  refine congrArg (walk.entries number ++ ·) (List.flatMap_congr fun x member => ?_)
  rw [same x (((folds.pools.mem_iff x).mp member).1.le)]

/-- The loop that is recorded for a header describes its cluster. -/
theorem Swept.describes (swept : walk.Swept (first + 1) sweep) (known : first < walk.size)
    {chase : Chase} (pools : walk.Pools first chase.pool.toList)
    (outside_eq : chase.outside.toList
      = chase.pool.toList.flatMap fun x =>
          walk.outsiders first ((sweep.entries.getD x []).map (walk.outermost (first + 1))))
    : walk.Describes sweep.regions
        { header := first
          parts := chase.pool.toList.map sweep.part
          reducible := chase.outside.isEmpty } := by
  refine ⟨⟨chase.pool.toList, ?_, pools⟩, ?_, ?_⟩
  · rw [List.map_map]
    exact List.map_congr_left fun x _ => swept.indexed.number?_part x
  · intro number member heads
    obtain ⟨x, pooled, same⟩ := List.mem_map.mp member
    have numbered := swept.indexed.number?_part x
    rw [same] at numbered
    obtain rfl : number = x := Option.some.inj numbered
    have later := ((pools.mem_iff number).mp pooled).1
    obtain ⟨region, recorded, isHeader⟩ := swept.header_iff.mpr ⟨later, heads⟩
    obtain ⟨i, inRange, found⟩ := Array.mem_iff_getElem.mp recorded
    have headed : sweep.headed.getD number none = some i := by
      rw [swept.indexed, Array.getElem?_eq_getElem inRange, found, Option.map_some, isHeader]
    rw [Sweep.part, headed] at same
    cases same
  · have faithful (x : Nat) (inner : walk.Inner first x) :=
      swept.faithful inner.1 (number_lt (inner.2.1.below known))
    rw [← pools.outside_eq_nil_iff known faithful, ← outside_eq]
    simp

/-- Collapsing the gathered numbers into a header extends the sweep by that header. -/
theorem Swept.collapse (swept : walk.Swept (first + 1) sweep) (known : first < walk.size)
    (present : walk.latches first ≠ []) {chase : Chase}
    (gathering : Chase.Gathering walk.toNumbering bound sweep.entries first
      (walk.outermost (first + 1)) (Sweep.Steady.seeds sweep (walk.outermost (first + 1)) first)
      chase)
    : walk.Swept first (sweep.collapse first chase) := by
  have pools : walk.Pools first chase.pool.toList :=
    ⟨swept.seeds_eq known ▸ gathering.pool_eq,
      fun x => (gathering.mem_iff x).trans (swept.gathered_iff known)⟩
  have entries_eq := Sweep.entries_collapse (swept.entries_size.symm ▸ known) chase
  have later (n : Nat) (after : first + 1 ≤ n)
      : (sweep.collapse first chase).entries.getD n [] = sweep.entries.getD n [] := by
    rw [entries_eq, if_neg (by omega)]
  have described := swept.describes known pools gathering.outside_eq
  refine {
    steady := outermost_eq_ite pools ▸ swept.steady.collapse gathering known
    latches_eq := swept.latches_eq
    waiting := ?_
    folded := ?_
    headers_eq := ?_
    described := ?_
  }
  · intro number before inTable
    rw [entries_eq, if_neg (Nat.ne_of_lt before)]
    exact swept.waiting number (Nat.lt_succ_of_lt before) inTable
  · intro number after inTable
    rcases Nat.eq_or_lt_of_le after with rfl | afterFirst
    · refine ⟨chase.pool.toList, pools, ?_⟩
      rw [entries_eq, if_pos rfl, swept.waiting first (Nat.lt_succ_self first) known,
        gathering.outside_eq]
      refine congrArg (walk.entries first ++ ·) (List.flatMap_congr fun x pooled => ?_)
      rw [later x ((pools.mem_iff x).mp pooled).1]
    · obtain ⟨pool, folds⟩ := swept.folded number afterFirst inTable
      exact ⟨pool, folds.congr fun n after => later n (afterFirst.trans_le after)⟩
  · rw [headers_of_lt known, if_pos present, ← swept.headers_eq]
    simp [Sweep.collapse]
  · intro region recorded
    rcases Array.mem_push.mp recorded with old | rfl
    · exact (swept.described region old).push _
    · exact described.push _

------------------------------------------------------------------------------------------
-- Visits and the whole sweep
------------------------------------------------------------------------------------------

/-- A visit extends the sweep by its number, if no number directly inside its cluster has too many
ways in, or gives up at one that has.
-/
theorem Swept.visit (swept : walk.Swept (first + 1) sweep) (known : first < walk.size)
    (bound : Int) (rest : List Nat)
    : (∃ next,
        walk.Swept first next
        ∧ (∀ x, walk.Inner first x → ((sweep.entries.getD x []).length : Int) ≤ bound)
        ∧ Sweep.visitAll walk.toNumbering bound (first :: rest) sweep
          = Sweep.visitAll walk.toNumbering bound rest next)
      ∨ ∃ x,
          walk.Inner first x
          ∧ bound < (sweep.entries.getD x []).length
          ∧ Sweep.visitAll walk.toNumbering bound (first :: rest) sweep
            = (sweep, some (.overload x (sweep.entries.getD x []).length)) := by
  have course := swept.steady.visit_cases walk.last_size known bound rest
  simp only [swept.latches_eq first known, swept.gathered_iff known] at course
  rcases course with ⟨absent, same⟩ | ⟨present, ⟨chase, gathering, same⟩ | gaveUp⟩
  · refine Or.inl ⟨sweep, swept.skip known absent, fun x inner => ?_, same⟩
    exact absurd (((pools_nil known absent).mem_iff x).mpr inner) List.not_mem_nil
  · refine Or.inl ⟨_, swept.collapse known present gathering, fun x inner => ?_, same⟩
    exact gathering.light x ((gathering.mem_iff x).mpr ((swept.gathered_iff known).mpr inner))
  · exact Or.inr gaveUp

/-- A sweep ends with every number visited, or gives up at some number. -/
theorem Swept.visitAll (swept : walk.Swept first sweep) (inTable : first ≤ walk.size)
    (bound : Int)
    : ∃ final,
        (walk.Swept 0 final
          ∧ Sweep.visitAll walk.toNumbering bound (List.range first).reverse sweep
            = (final, none))
        ∨ ∃ header x,
            header < first
            ∧ walk.Swept (header + 1) final
            ∧ walk.Inner header x
            ∧ bound < (final.entries.getD x []).length
            ∧ Sweep.visitAll walk.toNumbering bound (List.range first).reverse sweep
              = (final, some (.overload x (final.entries.getD x []).length)) := by
  have course := Sweep.visitAll_induction walk.Swept
    (fun header sweep halt => ∃ x, walk.Inner header x
      ∧ bound < (sweep.entries.getD x []).length
      ∧ halt = .overload x (sweep.entries.getD x []).length)
    (by
      intro first sweep swept known rest
      rcases swept.visit known bound rest with
        ⟨next, onward, -, same⟩ | ⟨x, inner, heavy, gaveUp⟩
      · exact Or.inl ⟨next, onward, same⟩
      · exact Or.inr ⟨_, ⟨x, inner, heavy, rfl⟩, gaveUp⟩)
    swept inTable
  obtain ⟨final, ended | ⟨header, _, before, stopped, ⟨x, inner, heavy, rfl⟩, gaveUp⟩⟩ := course
  · exact ⟨final, Or.inl ended⟩
  · exact ⟨final, Or.inr ⟨header, x, before, stopped, inner, heavy, gaveUp⟩⟩

end Traversal

end LoopNest
