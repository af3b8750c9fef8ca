import LoopNest.Proofs.Gathering

/-! What every sweep keeps, whatever the edges of its numbering say: its tables hold all numbers
it meets, representatives stand before what they represent, and each region nests earlier regions
only, none of which another region nests. So a sweep never fails, and only a fan-in ends it early.
-/

namespace LoopNest

/-- The number that a part stands for: a block's own, or that of the header of a loop found
before.
-/
def Part.number? (regions : Array Region) : Part → Option Nat
  | .block number => some number
  | .loop index => regions[index]?.map Region.header

theorem Part.number?_push {regions : Array Region} {part : Part} {number : Nat}
    (region : Region) (found : part.number? regions = some number)
    : part.number? (regions.push region) = some number := by
  cases part with
  | block => exact found
  | loop index =>
      obtain ⟨old, known, same⟩ := Option.map_eq_some_iff.mp found
      have inRange := (Array.getElem?_eq_some_iff.mp known).1
      rw [Part.number?, Array.getElem?_push_lt inRange, ← Array.getElem?_eq_getElem inRange]
      exact found

/-- The representative of a representative is that representative. -/
theorem Partition.Represents.rep_rep {sets : Partition} {rep : Nat → Nat}
    (shown : sets.Represents rep) (x : Nat)
    : rep (rep x) = rep x := by
  rw [← shown.representative_eq (rep x)]
  exact representative_of_parent_eq (shown.own x)

namespace Sweep

variable {sweep : Sweep} {numbering : Numbering} {header number first : Nat} {bound : Int}
  {rep : Nat → Nat}

theorem entries_collapse (inTable : header < sweep.entries.size) (chase : Chase) (n : Nat)
    : (sweep.collapse header chase).entries.getD n []
      = if n = header then sweep.entries.getD n [] ++ chase.outside.toList
        else sweep.entries.getD n [] := by
  split
  case isTrue same =>
    subst n
    simp [collapse, Array.getD_eq_getD_getElem?, Array.getElem_modify, inTable]
  case isFalse differs =>
    simp [collapse, Array.getD_eq_getD_getElem?, Array.getElem?_modify, Ne.symm differs]

theorem headed_collapse (inTable : header < sweep.headed.size) (chase : Chase) (x : Nat)
    : (sweep.collapse header chase).headed.getD x none
      = if x = header then some sweep.regions.size else sweep.headed.getD x none := by
  split
  case isTrue same =>
    subst x
    simp [collapse, Array.getD_eq_getD_getElem?, inTable]
  case isFalse differs =>
    simp [collapse, Array.getD_eq_getD_getElem?, Ne.symm differs]

theorem regions_collapse (chase : Chase) (i : Nat)
    : (sweep.collapse header chase).regions[i]?.map Region.header
      = if i = sweep.regions.size then some header
        else sweep.regions[i]?.map Region.header := by
  split
  case isTrue newest => simp [collapse, newest]
  case isFalse older => simp [collapse, older, Array.getElem?_push]

/-- The table of headers and the regions are in step: a number heads the region at a position
exactly if it is the header of that region.
-/
def Indexed (sweep : Sweep) : Prop :=
  ∀ x i, sweep.headed.getD x none = some i ↔ sweep.regions[i]?.map Region.header = some x

theorem Indexed.number?_part (indexed : sweep.Indexed) (x : Nat)
    : (sweep.part x).number? sweep.regions = some x := by
  unfold Sweep.part
  cases found : sweep.headed.getD x none with
  | none => rfl
  | some index => exact (indexed x index).mp found

/-- A collapse keeps the table of headers and the regions in step, if its header is new. -/
theorem Indexed.collapse (indexed : sweep.Indexed) (inTable : header < sweep.headed.size)
    (fresh : ∀ region ∈ sweep.regions, region.header ≠ header) (chase : Chase)
    : (sweep.collapse header chase).Indexed := by
  intro x i
  have old_ne : sweep.regions[i]?.map Region.header ≠ some header := by
    intro found
    obtain ⟨region, old, same⟩ := Option.map_eq_some_iff.mp found
    exact fresh region (Array.mem_of_getElem? old) same
  have old_lt {j : Nat} (found : sweep.regions[j]?.map Region.header = some x)
      : j < sweep.regions.size := by
    obtain ⟨region, old, -⟩ := Option.map_eq_some_iff.mp found
    exact (Array.getElem?_eq_some_iff.mp old).1
  rw [headed_collapse inTable, regions_collapse]
  split
  case isTrue isHeader =>
    subst x
    split
    case isTrue newest => simp [newest]
    case isFalse older =>
      simp only [old_ne, iff_false]
      exact fun same => older (Option.some.inj same).symm
  case isFalse differs =>
    split
    case isTrue newest =>
      rw [indexed]
      refine ⟨fun found => absurd newest (Nat.ne_of_lt (old_lt found)), fun same => ?_⟩
      exact absurd (Option.some.inj same).symm differs
    case isFalse older => exact indexed x i

------------------------------------------------------------------------------------------
-- The start of a sweep
------------------------------------------------------------------------------------------

/-- Lookups that all succeed succeed together. -/
theorem mapM_eq_ok {α β ε : Type} {lookup : α → Except ε β} {value : α → β} {xs : List α}
    (each : ∀ x ∈ xs, lookup x = .ok (value x))
    : xs.mapM lookup = .ok (xs.map value) := by
  induction xs with
  | nil => rfl
  | cons x rest ih =>
      rw [List.mapM_cons, each x List.mem_cons_self,
        ih fun y listed => each y (List.mem_cons_of_mem x listed)]
      rfl

/-- Splitting tells back edges from the others, in order. Witness: induction on the sources. -/
theorem split_eq (known : number < numbering.last.size) (latches entries : Array Nat)
    (sources : List Nat)
    : split numbering number latches entries sources
      = .ok (latches.toList ++ sources.filter (numbering.Below number ·),
          entries.toList ++ numbering.outsiders number sources) := by
  induction sources generalizing latches entries with
  | nil => simp [split, Numbering.outsiders]
  | cons source rest ih =>
      rw [split, Numbering.inSubtree_eq known]
      by_cases below : numbering.Below number source
      · simp [below, ih, Numbering.outsiders]
      · simp [below, ih, Numbering.outsiders]

/-- A sweep over a numbering with a last number for each of its numbers can start. -/
theorem start_eq (program : Program) (last_size : numbering.last.size = numbering.size)
    : start program numbering
      = .ok {
          latches := ((List.range numbering.size).map fun number =>
            (sources program numbering number).filter (numbering.Below number ·)).toArray
          entries := ((List.range numbering.size).map fun number =>
            numbering.outsiders number (sources program numbering number)).toArray
          sets := .singletons numbering.size
          headed := Array.replicate numbering.size none } := by
  have rows : ((List.range numbering.size).mapM fun number =>
        split numbering number #[] #[] (sources program numbering number))
      = .ok ((List.range numbering.size).map fun number =>
          ((sources program numbering number).filter (numbering.Below number ·),
            numbering.outsiders number (sources program numbering number))) := by
    refine mapM_eq_ok fun number inRange => ?_
    rw [split_eq (last_size.symm ▸ List.mem_range.mp inRange)]
    rfl
  rw [start, rows]
  simp only [bind, Except.bind, pure, Except.pure, List.map_map, Function.comp_def]

------------------------------------------------------------------------------------------
-- What every visit keeps
------------------------------------------------------------------------------------------

/-- The state of a sweep that has visited the numbers from the first one on, over any numbering.
Numbers not yet visited stand for themselves, and what a region nests is no representative any
more.
-/
structure Steady (numbering : Numbering) (first : Nat) (rep : Nat → Nat) (sweep : Sweep)
    : Prop where
  latches_size : sweep.latches.size = numbering.size
  entries_size : sweep.entries.size = numbering.size
  sets_size : sweep.sets.size = numbering.size
  headed_size : sweep.headed.size = numbering.size
  latch_lt : ∀ number, ∀ y ∈ sweep.latches.getD number [], number ≤ y ∧ y < numbering.size
  entry_lt : ∀ number, ∀ y ∈ sweep.entries.getD number [], y < numbering.size
  shown : sweep.sets.Represents rep
  rep_le : ∀ x, rep x ≤ x
  rep_of_lt : ∀ x < first, rep x = x
  le_rep : ∀ x, first ≤ x → first ≤ rep x
  indexed : sweep.Indexed
  le_header : ∀ region ∈ sweep.regions, first ≤ region.header
  nested
    : ∀ {i index : Nat} {region : Region}, sweep.regions[i]? = some region
      → Part.loop index ∈ region.parts
      → ∃ inner,
          index < i ∧ sweep.regions[index]? = some inner ∧ rep inner.header ≠ inner.header
  once
    : ∀ {i j index : Nat} {outer other : Region}, sweep.regions[i]? = some outer
      → sweep.regions[j]? = some other → Part.loop index ∈ outer.parts
      → Part.loop index ∈ other.parts → i = j

/-- A sweep can start, with every number standing for itself. -/
theorem steady_start (program : Program) (last_size : numbering.last.size = numbering.size)
    (source_lt : ∀ number < numbering.size, ∀ y ∈ sources program numbering number,
      y < numbering.size)
    : ∃ sweep, start program numbering = .ok sweep ∧ sweep.Steady numbering numbering.size id := by
  refine ⟨_, start_eq program last_size, ?_⟩
  refine {
    latches_size := by simp
    entries_size := by simp
    sets_size := by simp [Partition.singletons, Partition.size]
    headed_size := by simp
    latch_lt := ?_
    entry_lt := ?_
    shown := Partition.represents_singletons numbering.size
    rep_le := fun x => Nat.le_refl x
    rep_of_lt := fun _ _ => rfl
    le_rep := fun _ after => after
    indexed := fun x i => by by_cases known : x < numbering.size <;> simp [known]
    le_header := fun region recorded => absurd recorded (Array.not_mem_empty region)
    nested := fun found => by simp at found
    once := fun found => by simp at found
  }
  · intro number y latch
    by_cases known : number < numbering.size
    · simp [known] at latch
      exact ⟨latch.2.1, source_lt number known y latch.1⟩
    · simp [known] at latch
  · intro number y entry
    by_cases known : number < numbering.size
    · simp [known] at entry
      exact source_lt number known y (List.mem_filter.mp entry).1
    · simp [known] at entry

namespace Steady

/-- The representatives of the sources of back edges from other numbers. -/
abbrev seeds (sweep : Sweep) (rep : Nat → Nat) (number : Nat) : List Nat :=
  ((sweep.latches.getD number []).filter (· ≠ number)).map rep

/-- Gathered numbers are representatives that were visited already. -/
theorem gathered (steady : sweep.Steady numbering (first + 1) rep) {x : Nat}
    (gathered : Chase.Gathered numbering sweep.entries first rep (seeds sweep rep first) x)
    : first < x ∧ x < numbering.size ∧ rep x = x := by
  cases gathered with
  | seed member =>
      obtain ⟨y, latch, rfl⟩ := List.mem_map.mp member
      obtain ⟨latch, differs⟩ := List.mem_filter.mp latch
      obtain ⟨after, known⟩ := steady.latch_lt first y latch
      have later : first < y := Nat.lt_of_le_of_ne after (Ne.symm (of_decide_eq_true differs))
      exact ⟨steady.le_rep y later, (steady.rep_le y).trans_lt known, steady.shown.rep_rep y⟩
  | @chase z y _ entry below differs =>
      have known := steady.entry_lt z y entry
      exact ⟨Nat.lt_of_le_of_ne below.1 (Ne.symm differs), (steady.rep_le y).trans_lt known,
        steady.shown.rep_rep y⟩

theorem inTables (steady : sweep.Steady numbering (first + 1) rep)
    (last_size : numbering.last.size = numbering.size) (known : first < numbering.size)
    : Chase.InTables numbering sweep.entries first rep (seeds sweep rep first) := by
  refine ⟨last_size ▸ known, ?_, ?_, ?_⟩
  · intro x inTable
    exact (steady.rep_le x).trans_lt inTable
  · intro x member
    rw [steady.entries_size]
    exact (steady.gathered (.seed member)).2.1
  · intro x y entry
    rw [steady.entries_size]
    exact steady.entry_lt x y entry

/-- A number without back edges is passed over. -/
theorem skip (steady : sweep.Steady numbering (first + 1) rep)
    : sweep.Steady numbering first rep := by
  refine { steady with
    rep_of_lt := fun x before => steady.rep_of_lt x (Nat.lt_succ_of_lt before)
    le_rep := ?_
    le_header := fun region recorded => (Nat.le_succ first).trans (steady.le_header region recorded)
  }
  intro x after
  cases Nat.eq_or_lt_of_le after with
  | inl same => rw [steady.rep_of_lt x (same ▸ Nat.lt_succ_self first), same]
  | inr later => exact (Nat.le_succ first).trans (steady.le_rep x later)

/-- A region found before, or the newest one. -/
theorem regions_collapse_cases {chase : Chase} {i : Nat} {region : Region}
    (found : (sweep.collapse first chase).regions[i]? = some region)
    : sweep.regions[i]? = some region
      ∨ i = sweep.regions.size ∧ region.parts = chase.pool.toList.map sweep.part := by
  rw [Sweep.collapse, Array.getElem?_push] at found
  split at found
  · next newest =>
      obtain rfl := Option.some.inj found
      exact Or.inr ⟨newest, rfl⟩
  · exact Or.inl found

/-- A gathered number that adds a loop to a region heads that loop. -/
theorem header_of_part (indexed : sweep.Indexed) {x index : Nat}
    (adds : sweep.part x = .loop index)
    : ∃ inner, sweep.regions[index]? = some inner ∧ inner.header = x := by
  have numbered := indexed.number?_part x
  rw [adds] at numbered
  exact Option.map_eq_some_iff.mp numbered

section
variable {chase : Chase} (steady : sweep.Steady numbering (first + 1) rep)
  (gathering : Chase.Gathering numbering bound sweep.entries first rep (seeds sweep rep first)
    chase)
include steady gathering

theorem pooled {x : Nat} (listed : x ∈ chase.pool.toList)
    : first < x ∧ x < numbering.size ∧ rep x = x :=
  steady.gathered ((gathering.mem_iff x).mp listed)

/-- The ways in that a header collects are known numbers. -/
theorem entry_lt_collapse (known : first < numbering.size) (number y : Nat)
    (entry : y ∈ (sweep.collapse first chase).entries.getD number [])
    : y < numbering.size := by
  rw [entries_collapse (steady.entries_size.symm ▸ known)] at entry
  split at entry
  · rcases List.mem_append.mp entry with old | outside
    · exact steady.entry_lt number y old
    · rw [gathering.outside_eq, List.mem_flatMap] at outside
      obtain ⟨x, -, outside⟩ := outside
      obtain ⟨z, wayIn, rfl⟩ := List.mem_map.mp (List.mem_filter.mp outside).1
      exact (steady.rep_le z).trans_lt (steady.entry_lt x z wayIn)
  · exact steady.entry_lt number y entry

/-- What was nested stays nested, and what is pooled now is represented by the header. -/
theorem rep_collapse_ne {x : Nat} (after : first < x)
    (nested : rep x ≠ x ∨ x ∈ chase.pool.toList)
    : (if rep x ∈ chase.pool.toList then first else rep x) ≠ x := by
  split
  · exact Nat.ne_of_lt after
  · next apart =>
      rcases nested with moved | listed
      · exact moved
      · exact absurd ((steady.pooled gathering listed).2.2.symm ▸ listed) apart

/-- After a collapse each region nests earlier regions only, whose headers are represented by
others. Witness: the newest region nests what heads a loop in its pool.
-/
theorem nested_collapse {i index : Nat} {region : Region}
    (found : (sweep.collapse first chase).regions[i]? = some region)
    (listed : Part.loop index ∈ region.parts)
    : ∃ inner,
        index < i
        ∧ (sweep.collapse first chase).regions[index]? = some inner
        ∧ (if rep inner.header ∈ chase.pool.toList then first else rep inner.header)
          ≠ inner.header := by
  have kept {inner : Region} (old : sweep.regions[index]? = some inner)
      (nested : rep inner.header ≠ inner.header ∨ inner.header ∈ chase.pool.toList)
      : (sweep.collapse first chase).regions[index]? = some inner
        ∧ (if rep inner.header ∈ chase.pool.toList then first else rep inner.header)
          ≠ inner.header := by
    have inRange := (Array.getElem?_eq_some_iff.mp old).1
    refine ⟨?_, steady.rep_collapse_ne gathering ?_ nested⟩
    · rw [Sweep.collapse, Array.getElem?_push, if_neg (Nat.ne_of_lt inRange), old]
    · exact steady.le_header inner (Array.mem_of_getElem? old)
  rcases regions_collapse_cases found with old | ⟨rfl, parts_eq⟩
  · obtain ⟨inner, before, foundToo, nested⟩ := steady.nested old listed
    exact ⟨inner, before, kept foundToo (Or.inl nested)⟩
  · rw [parts_eq] at listed
    obtain ⟨x, gathered, adds⟩ := List.mem_map.mp listed
    obtain ⟨inner, foundToo, rfl⟩ := header_of_part steady.indexed adds
    exact ⟨inner, (Array.getElem?_eq_some_iff.mp foundToo).1, kept foundToo (Or.inr gathered)⟩

/-- An older region nests nothing that the newest one gathers, which are representatives. -/
theorem not_mem_pool_of_nested {i index : Nat} {region : Region}
    (old : sweep.regions[i]? = some region) (nests : Part.loop index ∈ region.parts)
    : Part.loop index ∉ chase.pool.toList.map sweep.part := by
  intro gathers
  obtain ⟨x, gathered, adds⟩ := List.mem_map.mp gathers
  obtain ⟨inner, recorded, rfl⟩ := header_of_part steady.indexed adds
  obtain ⟨same, -, recordedToo, nested⟩ := steady.nested old nests
  obtain rfl := Option.some.inj (recorded.symm.trans recordedToo)
  exact nested (steady.pooled gathering gathered).2.2

/-- After a collapse still no two regions nest the same one. -/
theorem once_collapse {i j index : Nat} {outer other : Region}
    (found : (sweep.collapse first chase).regions[i]? = some outer)
    (foundToo : (sweep.collapse first chase).regions[j]? = some other)
    (listed : Part.loop index ∈ outer.parts) (listedToo : Part.loop index ∈ other.parts)
    : i = j := by
  rcases regions_collapse_cases found with old | ⟨rfl, parts_eq⟩
  · rcases regions_collapse_cases foundToo with oldToo | ⟨rfl, parts_eq⟩
    · exact steady.once old oldToo listed listedToo
    · exact absurd (parts_eq ▸ listedToo) (steady.not_mem_pool_of_nested gathering old listed)
  · rcases regions_collapse_cases foundToo with oldToo | ⟨rfl, -⟩
    · exact absurd (parts_eq ▸ listed)
        (steady.not_mem_pool_of_nested gathering oldToo listedToo)
    · rfl

/-- Collapsing gathered representatives into a header before them. -/
theorem collapse (known : first < numbering.size)
    : (sweep.collapse first chase).Steady numbering first
        fun x => if rep x ∈ chase.pool.toList then first else rep x := by
  refine {
    latches_size := steady.latches_size
    entries_size := by simpa [Sweep.collapse] using steady.entries_size
    sets_size := by
      simpa [Sweep.collapse, gathering.shows.size_eq] using steady.entries_size
    headed_size := by simpa [Sweep.collapse] using steady.headed_size
    latch_lt := steady.latch_lt
    entry_lt := steady.entry_lt_collapse gathering known
    shown := ?_
    rep_le := ?_
    rep_of_lt := ?_
    le_rep := ?_
    indexed := steady.indexed.collapse (steady.headed_size.symm ▸ known)
      (fun region recorded => Nat.ne_of_gt (steady.le_header region recorded)) chase
    le_header := ?_
    nested := steady.nested_collapse gathering
    once := steady.once_collapse gathering
  }
  · refine gathering.shows.represents.relink (steady.rep_of_lt first (Nat.lt_succ_self first))
      (fun listed => Nat.lt_irrefl first (steady.pooled gathering listed).1) ?_
    intro x listed
    rw [gathering.shows.size_eq, steady.entries_size]
    exact (steady.pooled gathering listed).2
  · intro x
    split
    · next listed => exact (steady.pooled gathering listed).1.le.trans (steady.rep_le x)
    · exact steady.rep_le x
  · intro x before
    have own := steady.rep_of_lt x (Nat.lt_succ_of_lt before)
    rw [own, if_neg]
    exact fun listed => Nat.lt_asymm before (steady.pooled gathering listed).1
  · intro x after
    split
    · exact Nat.le_refl first
    · exact steady.skip.le_rep x after
  · intro region recorded
    rcases Array.mem_push.mp recorded with old | rfl
    · exact (Nat.le_succ first).trans (steady.le_header region old)
    · exact Nat.le_refl first

end

/-- What visiting a number finds: no back edges, a loop, or a gathered number with too many ways in.
It never fails.
-/
theorem gather_cases (steady : sweep.Steady numbering (first + 1) rep)
    (last_size : numbering.last.size = numbering.size) (known : first < numbering.size)
    (bound : Int)
    : sweep.latches.getD first [] = [] ∧ sweep.gather numbering bound first = .ok none
      ∨ sweep.latches.getD first [] ≠ []
        ∧ ((∃ chase,
            sweep.gather numbering bound first = .ok (some chase)
            ∧ Chase.Gathering numbering bound sweep.entries first rep (seeds sweep rep first)
                chase)
          ∨ ∃ x,
              sweep.gather numbering bound first
                = .error (.overload x (sweep.entries.getD x []).length)
              ∧ bound < (sweep.entries.getD x []).length
              ∧ Chase.Gathered numbering sweep.entries first rep (seeds sweep rep first) x) := by
  have inRange : first < sweep.latches.size := steady.latches_size.symm ▸ known
  have found : sweep.latches[first]? = some (sweep.latches.getD first []) := by simp [inRange]
  by_cases absent : sweep.latches.getD first [] = []
  · exact Or.inl ⟨absent, by rw [gather, found, absent]⟩
  · have sameSize := steady.sets_size.trans steady.entries_size.symm
    have latchKnown : ∀ y ∈ sweep.latches.getD first [], y < sweep.entries.size := by
      intro y latch
      rw [steady.entries_size]
      exact (steady.latch_lt first y latch).2
    exact Or.inr ⟨absent, gather_spec bound found absent sameSize steady.shown latchKnown
      (steady.inTables last_size known)⟩

/-- One visit passes its number over, collapses what it gathers into it, or gives up at a gathered
number with too many ways in.
-/
theorem visit_cases (steady : sweep.Steady numbering (first + 1) rep)
    (last_size : numbering.last.size = numbering.size) (known : first < numbering.size)
    (bound : Int) (rest : List Nat)
    : sweep.latches.getD first [] = []
        ∧ visitAll numbering bound (first :: rest) sweep = visitAll numbering bound rest sweep
      ∨ sweep.latches.getD first [] ≠ []
        ∧ ((∃ chase,
            Chase.Gathering numbering bound sweep.entries first rep (seeds sweep rep first) chase
            ∧ visitAll numbering bound (first :: rest) sweep
              = visitAll numbering bound rest (sweep.collapse first chase))
          ∨ ∃ x,
              Chase.Gathered numbering sweep.entries first rep (seeds sweep rep first) x
              ∧ bound < (sweep.entries.getD x []).length
              ∧ visitAll numbering bound (first :: rest) sweep
                = (sweep, some (.overload x (sweep.entries.getD x []).length))) := by
  rw [visitAll]
  rcases steady.gather_cases last_size known bound with
    ⟨absent, nothing⟩ | ⟨present, ⟨chase, gathered, gathering⟩ | ⟨x, halted, heavy, reached⟩⟩
  · exact Or.inl ⟨absent, by rw [nothing]⟩
  · exact Or.inr ⟨present, Or.inl ⟨chase, gathering, by rw [gathered]⟩⟩
  · exact Or.inr ⟨present, Or.inr ⟨x, reached, heavy, by rw [halted]⟩⟩

/-- One visit leaves a steady state or gives up; it never fails. -/
theorem visit (steady : sweep.Steady numbering (first + 1) rep)
    (last_size : numbering.last.size = numbering.size) (known : first < numbering.size)
    (bound : Int) (rest : List Nat)
    : (∃ next,
        (∃ after, next.Steady numbering first after)
        ∧ visitAll numbering bound (first :: rest) sweep = visitAll numbering bound rest next)
      ∨ ∃ halt,
          (∃ x fanIn, halt = .overload x fanIn)
          ∧ visitAll numbering bound (first :: rest) sweep = (sweep, some halt) := by
  rcases steady.visit_cases last_size known bound rest with
    ⟨-, same⟩ | ⟨-, ⟨chase, gathering, same⟩ | ⟨x, -, -, gaveUp⟩⟩
  · exact Or.inl ⟨sweep, ⟨rep, steady.skip⟩, same⟩
  · exact Or.inl ⟨_, ⟨_, steady.collapse gathering known⟩, same⟩
  · exact Or.inr ⟨_, ⟨x, _, rfl⟩, gaveUp⟩

end Steady

/-- What holds at the start holds where a sweep ends or gives up, if each visit keeps it or gives
up. Witness: induction on the numbers left.
-/
theorem visitAll_induction (holds : Nat → Sweep → Prop) (halts : Nat → Sweep → Halt → Prop)
    (step
      : ∀ first sweep, holds (first + 1) sweep → first < numbering.size → ∀ rest,
          (∃ next,
            holds first next
            ∧ visitAll numbering bound (first :: rest) sweep
              = visitAll numbering bound rest next)
          ∨ ∃ halt,
              halts first sweep halt
              ∧ visitAll numbering bound (first :: rest) sweep = (sweep, some halt))
    (begun : holds first sweep) (inTable : first ≤ numbering.size)
    : ∃ final,
        (holds 0 final
          ∧ visitAll numbering bound (List.range first).reverse sweep = (final, none))
        ∨ ∃ number halt,
            number < first
            ∧ holds (number + 1) final
            ∧ halts number final halt
            ∧ visitAll numbering bound (List.range first).reverse sweep = (final, some halt) := by
  induction first generalizing sweep with
  | zero => exact ⟨sweep, Or.inl ⟨begun, rfl⟩⟩
  | succ first ih =>
      rw [List.range_succ, List.reverse_append, List.reverse_singleton, List.singleton_append]
      rcases step first sweep begun inTable (List.range first).reverse with
        ⟨next, onward, same⟩ | ⟨halt, halted, gaveUp⟩
      · rw [same]
        obtain ⟨final, ended | ⟨number, halt, before, stopped⟩⟩ :=
          ih onward (Nat.le_of_lt inTable)
        · exact ⟨final, Or.inl ended⟩
        · exact ⟨final, Or.inr ⟨number, halt, Nat.lt_succ_of_lt before, stopped⟩⟩
      · exact ⟨sweep, Or.inr ⟨first, halt, Nat.lt_succ_self first, begun, halted, gaveUp⟩⟩

/-- A sweep ends or gives up, in a steady state either way. -/
theorem Steady.visitAll (steady : sweep.Steady numbering first rep)
    (last_size : numbering.last.size = numbering.size) (inTable : first ≤ numbering.size)
    (bound : Int)
    : ∃ final reached after,
        final.Steady numbering reached after
        ∧ (Sweep.visitAll numbering bound (List.range first).reverse sweep = (final, none)
          ∨ ∃ x fanIn,
              Sweep.visitAll numbering bound (List.range first).reverse sweep
                = (final, some (.overload x fanIn))) := by
  have course := visitAll_induction (fun first sweep => ∃ rep, sweep.Steady numbering first rep)
    (fun _ _ halt => ∃ x fanIn, halt = .overload x fanIn)
    (by
      rintro first sweep ⟨_, steady⟩ known rest
      exact steady.visit last_size known bound rest)
    ⟨rep, steady⟩ inTable
  obtain ⟨final, ⟨⟨after, ended⟩, visited⟩
    | ⟨number, _, -, ⟨after, stopped⟩, ⟨x, fanIn, rfl⟩, gaveUp⟩⟩ := course
  · exact ⟨final, 0, after, ended, Or.inl visited⟩
  · exact ⟨final, number + 1, after, stopped, Or.inr ⟨x, fanIn, gaveUp⟩⟩

end Sweep

end LoopNest
