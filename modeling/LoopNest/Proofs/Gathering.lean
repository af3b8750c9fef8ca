import LoopNest.Proofs.Representatives
import LoopNest.Proofs.Traversal.Basic
import LoopNest.Sweep

/-! What the chase for one header gathers: the closure of the seeds under the ways in, with
every way in from outside noted. A chase looks at nothing of the partition but representatives.
-/

namespace LoopNest

/-- The given numbers that lie outside the subtree of a header. -/
def Numbering.outsiders (numbering : Numbering) (header : Nat) (numbers : List Nat)
    : List Nat :=
  numbers.filter fun number => ¬ numbering.Below header number

namespace Chase

variable {numbering : Numbering} {bound : Int} {entries : Array (List Nat)} {header : Nat}
variable {rep : Nat → Nat} {seeds sources : List Nat} {chase : Chase} {size position x : Nat}

/-- The chase shows the given representatives, and keeps its pool alike as a list and as a
set.
-/
structure Shows (chase : Chase) (size : Nat) (rep : Nat → Nat) : Prop where
  size_eq : chase.sets.size = size
  represents : chase.sets.Represents rep
  pooled_iff : ∀ x, x ∈ chase.pooled ↔ x ∈ chase.pool.toList

/-- Pooling a number keeps list and set alike. -/
theorem Shows.pool (shows : chase.Shows size rep) {sets : Partition}
    (size_eq : sets.size = size) (represents : sets.Represents rep) (x : Nat)
    : Shows { chase with
        sets
        pool := chase.pool.push x
        pooled := chase.pooled.insert x } size rep where
  size_eq := size_eq
  represents := represents
  pooled_iff other := by
    rw [Std.TreeSet.mem_insert, Std.compare_eq_iff_eq, shows.pooled_iff other,
      Array.toList_push, List.mem_append, List.mem_singleton, or_comm, eq_comm]

/-- Seeding pools the representative of each source in order. -/
theorem seed_spec (shows : chase.Shows size rep) (known : ∀ y ∈ sources, y < size)
    : ∃ after,
        chase.seed sources = .ok after
        ∧ after.Shows size rep
        ∧ after.pool.toList = chase.pool.toList ++ sources.map rep
        ∧ after.outside = chase.outside := by
  induction sources generalizing chase with
  | nil => exact ⟨chase, rfl, shows, by simp, rfl⟩
  | cons source rest ih =>
      have inTable : source < chase.sets.size := by
        rw [shows.size_eq]
        exact known source (by simp)
      obtain ⟨sets, found, size_eq, represents⟩ := shows.represents.find? inTable
      rw [seed, found]
      obtain ⟨after, seeded, showsAfter, pool_eq, outside_eq⟩ :=
        ih (shows.pool (size_eq.trans shows.size_eq) represents (rep source))
          fun y member => known y (List.mem_cons_of_mem source member)
      refine ⟨after, seeded, showsAfter, ?_, outside_eq⟩
      rw [pool_eq, Array.toList_push, List.map_cons, List.append_assoc, List.singleton_append]

/-- What a scan of sources adds: new numbers of the header's subtree to the pool, each once, and
every number outside the subtree to the ways in.
-/
structure Scanned (numbering : Numbering) (header : Nat) (rep : Nat → Nat)
    (sources : List Nat) (before after : Chase) (joined : List Nat)
    : Prop where
  pool_eq : after.pool.toList = before.pool.toList ++ joined
  nodup : joined.Nodup
  mem_iff
    : ∀ x, x ∈ joined
        ↔ x ∉ before.pool.toList ∧ x ≠ header ∧ numbering.Below header x
          ∧ ∃ y ∈ sources, rep y = x
  outside_eq
    : after.outside.toList
      = before.outside.toList ++ numbering.outsiders header (sources.map rep)

/-- A source that cannot join leaves what joins as it is. -/
theorem mem_joined_cons {pool rest joined : List Nat} {source : Nat}
    (added : ∀ x, x ∈ joined
        ↔ x ∉ pool ∧ x ≠ header ∧ numbering.Below header x ∧ ∃ y ∈ rest, rep y = x)
    (settled : rep source ∈ pool ∨ rep source = header ∨ ¬ numbering.Below header (rep source))
    : ∀ x, x ∈ joined
        ↔ x ∉ pool ∧ x ≠ header ∧ numbering.Below header x
          ∧ ∃ y ∈ source :: rest, rep y = x := by
  intro x
  rw [added]
  constructor
  · intro ⟨unpooled, differs, below, y, member, same⟩
    exact ⟨unpooled, differs, below, y, List.mem_cons_of_mem source member, same⟩
  · intro ⟨unpooled, differs, below, y, member, same⟩
    refine ⟨unpooled, differs, below, y, (List.mem_cons.mp member).resolve_left ?_, same⟩
    intro isSource
    subst y
    subst x
    rcases settled with pooled | top | outside
    · exact unpooled pooled
    · exact differs top
    · exact outside below

section
variable {before after : Chase} {source : Nat} {rest joined : List Nat}

/-- A source outside the subtree is noted as a way in and joins nothing. -/
theorem Scanned.outside
    (scanned : Scanned numbering header rep rest before after joined)
    (outside : ¬ numbering.Below header (rep source))
    (pool_eq : before.pool = chase.pool)
    (outside_eq : before.outside = chase.outside.push (rep source))
    : Scanned numbering header rep (source :: rest) chase after joined := by
  refine ⟨pool_eq ▸ scanned.pool_eq, scanned.nodup, ?_, ?_⟩
  · exact mem_joined_cons (pool_eq ▸ scanned.mem_iff) (Or.inr (Or.inr outside))
  · rw [scanned.outside_eq, outside_eq]
    simp [Numbering.outsiders, outside]

/-- A source that is pooled already, or is the header, adds nothing. -/
theorem Scanned.settled
    (scanned : Scanned numbering header rep rest before after joined)
    (below : numbering.Below header (rep source))
    (settled : rep source ∈ chase.pool.toList ∨ rep source = header)
    (pool_eq : before.pool = chase.pool) (outside_eq : before.outside = chase.outside)
    : Scanned numbering header rep (source :: rest) chase after joined := by
  refine ⟨pool_eq ▸ scanned.pool_eq, scanned.nodup, ?_, ?_⟩
  · exact mem_joined_cons (pool_eq ▸ scanned.mem_iff) (settled.imp_right Or.inl)
  · rw [scanned.outside_eq, outside_eq]
    simp [Numbering.outsiders, below]

/-- Any other source is the first to join. -/
theorem Scanned.join
    (scanned : Scanned numbering header rep rest before after joined)
    (below : numbering.Below header (rep source))
    (differs : rep source ≠ header) (fresh : rep source ∉ chase.pool.toList)
    (pool_eq : before.pool = chase.pool.push (rep source))
    (outside_eq : before.outside = chase.outside)
    : Scanned numbering header rep (source :: rest) chase after (rep source :: joined) := by
  refine ⟨?_, ?_, ?_, ?_⟩
  · simpa [pool_eq] using scanned.pool_eq
  · refine List.nodup_cons.mpr ⟨?_, scanned.nodup⟩
    intro again
    exact ((scanned.mem_iff _).mp again).1 (by simp [pool_eq])
  · intro x
    rw [List.mem_cons, scanned.mem_iff, pool_eq, Array.toList_push]
    constructor
    · intro joining
      rcases joining with rfl | ⟨unpooled, apart, inside, y, member, same⟩
      · exact ⟨fresh, differs, below, source, List.mem_cons_self, rfl⟩
      · exact ⟨fun old => unpooled (List.mem_append_left _ old), apart, inside, y,
          List.mem_cons_of_mem source member, same⟩
    · intro ⟨unpooled, apart, inside, y, member, same⟩
      by_cases isSource : x = rep source
      · exact Or.inl isSource
      · refine Or.inr ⟨by simp [unpooled, isSource], apart, inside, y, ?_, same⟩
        refine (List.mem_cons.mp member).resolve_left fun again => ?_
        exact isSource (same.symm.trans (congrArg rep again))
  · rw [scanned.outside_eq, outside_eq]
    simp [Numbering.outsiders, below]

end

/-- A scan of known sources succeeds. Witness: induction on the sources; each lies outside the
subtree, is pooled already or joins the pool.
-/
theorem scan_spec (inTable : header < numbering.last.size) (shows : chase.Shows size rep)
    (known : ∀ y ∈ sources, y < size)
    : ∃ after joined,
        chase.scan numbering header sources = .ok after
        ∧ after.Shows size rep
        ∧ Scanned numbering header rep sources chase after joined := by
  induction sources generalizing chase with
  | nil =>
      refine ⟨chase, [], rfl, shows, ⟨by simp, .nil, by simp, ?_⟩⟩
      simp [Numbering.outsiders]
  | cons source rest ih =>
      have sourceKnown : source < chase.sets.size := by
        rw [shows.size_eq]
        exact known source (by simp)
      have restKnown : ∀ y ∈ rest, y < size :=
        fun y member => known y (List.mem_cons_of_mem source member)
      obtain ⟨sets, found, size_eq, represents⟩ := shows.represents.find? sourceKnown
      have sameSize := size_eq.trans shows.size_eq
      rw [scan, found]
      simp only [Numbering.inSubtree_eq inTable]
      by_cases below : numbering.Below header (rep source)
      · by_cases joins : rep source ≠ header ∧ rep source ∉ chase.pooled
        · have fresh : rep source ∉ chase.pool.toList :=
            fun member => joins.2 ((shows.pooled_iff _).mpr member)
          simp only [below, decide_true, if_pos joins]
          obtain ⟨after, joined, ran, showsAfter, scanned⟩ :=
            ih (shows.pool sameSize represents (rep source)) restKnown
          exact ⟨after, _, ran, showsAfter, scanned.join below joins.1 fresh rfl rfl⟩
        · have settled : rep source ∈ chase.pool.toList ∨ rep source = header := by
            by_contra neither
            rw [not_or] at neither
            exact joins ⟨neither.2, fun member =>
              neither.1 ((shows.pooled_iff _).mp member)⟩
          simp only [below, decide_true, if_neg joins]
          have kept : Shows { chase with sets } size rep :=
            ⟨sameSize, represents, shows.pooled_iff⟩
          obtain ⟨after, joined, ran, showsAfter, scanned⟩ := ih kept restKnown
          exact ⟨after, joined, ran, showsAfter, scanned.settled below settled rfl rfl⟩
      · simp only [below, decide_false]
        have kept : Shows { chase with sets, outside := chase.outside.push (rep source) }
            size rep :=
          ⟨sameSize, represents, shows.pooled_iff⟩
        obtain ⟨after, joined, ran, showsAfter, scanned⟩ := ih kept restKnown
        exact ⟨after, joined, ran, showsAfter, scanned.outside below rfl rfl⟩

------------------------------------------------------------------------------------------
-- The whole chase
------------------------------------------------------------------------------------------

/-- The numbers that a header gathers: its seeds, and over each way into a gathered number the
representative it comes from, unless that is the header or lies outside its subtree.
-/
inductive Gathered (numbering : Numbering) (entries : Array (List Nat)) (header : Nat)
    (rep : Nat → Nat) (seeds : List Nat)
    : Nat → Prop
  | seed {x : Nat} (member : x ∈ seeds) : Gathered numbering entries header rep seeds x
  | chase {x y : Nat} (gathered : Gathered numbering entries header rep seeds x)
    (entry : y ∈ entries.getD x []) (below : numbering.Below header (rep y))
    (differs : rep y ≠ header)
    : Gathered numbering entries header rep seeds (rep y)

/-- How far a chase has come: the pool holds gathered numbers only, and those before the
position were scanned and were not too many.
-/
structure Progress (numbering : Numbering) (bound : Int) (entries : Array (List Nat))
    (header : Nat) (rep : Nat → Nat) (seeds : List Nat) (chase : Chase) (position : Nat)
    : Prop where
  shows : chase.Shows entries.size rep
  position_le : position ≤ chase.pool.size
  pool_eq
    : ∃ joined,
        chase.pool.toList = seeds ++ joined ∧ joined.Nodup ∧ ∀ x ∈ joined, x ∉ seeds
  gathered : ∀ x ∈ chase.pool.toList, Gathered numbering entries header rep seeds x
  closed
    : ∀ x ∈ chase.pool.toList.take position,
        ∀ y ∈ entries.getD x [],
          numbering.Below header (rep y) → rep y ≠ header → rep y ∈ chase.pool.toList
  outside_eq
    : chase.outside.toList
      = (chase.pool.toList.take position).flatMap fun x =>
          numbering.outsiders header ((entries.getD x []).map rep)
  light
    : ∀ x ∈ chase.pool.toList.take position, ((entries.getD x []).length : Int) ≤ bound

/-- The laws that a chase relies on: all numbers that it meets index its tables. -/
structure InTables (numbering : Numbering) (entries : Array (List Nat)) (header : Nat)
    (rep : Nat → Nat) (seeds : List Nat)
    : Prop where
  header_lt : header < numbering.last.size
  rep_lt : ∀ x, x < entries.size → rep x < entries.size
  seed_lt : ∀ x ∈ seeds, x < entries.size
  entry_lt : ∀ x, ∀ y ∈ entries.getD x [], y < entries.size

theorem Gathered.lt (tables : InTables numbering entries header rep seeds)
    (gathered : Gathered numbering entries header rep seeds x)
    : x < entries.size := by
  cases gathered with
  | seed member => exact tables.seed_lt x member
  | @chase z y _ entry _ _ => exact tables.rep_lt y (tables.entry_lt z y entry)

/-- Taking up the next number succeeds if the ways into it are not too many. -/
theorem Progress.step (tables : InTables numbering entries header rep seeds)
    (progress : Progress numbering bound entries header rep seeds chase position)
    (more : position < chase.pool.size)
    (light : ((entries.getD chase.pool[position] []).length : Int) ≤ bound)
    : ∃ next,
        chase.scan numbering header (entries.getD chase.pool[position] []) = .ok next
        ∧ Progress numbering bound entries header rep seeds next (position + 1) := by
  have nodeMem : chase.pool[position] ∈ chase.pool.toList :=
    Array.mem_toList_iff.mpr (Array.getElem_mem more)
  obtain ⟨next, joined, scanned, showsNext, added⟩ :=
    scan_spec tables.header_lt progress.shows (tables.entry_lt chase.pool[position])
  -- The scanned part of the new pool is the old one and the number just taken up.
  have taken : next.pool.toList.take (position + 1)
      = chase.pool.toList.take position ++ [chase.pool[position]] := by
    have short : position + 1 ≤ chase.pool.toList.length := by
      rw [Array.length_toList]
      omega
    rw [added.pool_eq, List.take_append_of_le_length short, List.take_add_one,
      Array.getElem?_toList, Array.getElem?_eq_getElem more, Option.toList_some]
  refine ⟨next, scanned, showsNext, ?_, ?_, ?_, ?_, ?_, ?_⟩
  · have grown := congrArg List.length added.pool_eq
    simp only [Array.length_toList, List.length_append] at grown
    omega
  · obtain ⟨earlier, pool_eq, distinct, apart⟩ := progress.pool_eq
    refine ⟨earlier ++ joined, by rw [added.pool_eq, pool_eq, List.append_assoc], ?_, ?_⟩
    · refine List.nodup_append.mpr ⟨distinct, added.nodup, ?_⟩
      intro x old y new same
      subst y
      exact ((added.mem_iff x).mp new).1 (by simp [pool_eq, old])
    · intro x member
      cases List.mem_append.mp member with
      | inl old => exact apart x old
      | inr new =>
          intro seeded
          exact ((added.mem_iff x).mp new).1 (by simp [pool_eq, seeded])
  · intro x member
    rw [added.pool_eq] at member
    cases List.mem_append.mp member with
    | inl old => exact progress.gathered x old
    | inr new =>
        obtain ⟨_, differs, below, y, entry, same⟩ := (added.mem_iff x).mp new
        subst x
        exact .chase (progress.gathered _ nodeMem) entry below differs
  · intro x member y entry below differs
    rw [taken] at member
    rw [added.pool_eq]
    cases List.mem_append.mp member with
    | inl old => exact List.mem_append_left _ (progress.closed x old y entry below differs)
    | inr new =>
        obtain rfl : x = chase.pool[position] := List.mem_singleton.mp new
        by_cases known : rep y ∈ chase.pool.toList
        · exact List.mem_append_left _ known
        · exact List.mem_append_right _
            ((added.mem_iff _).mpr ⟨known, differs, below, y, entry, rfl⟩)
  · rw [added.outside_eq, progress.outside_eq, taken, List.flatMap_append]
    simp
  · intro x member
    rw [taken] at member
    cases List.mem_append.mp member with
    | inl old => exact progress.light x old
    | inr new =>
        obtain rfl : x = chase.pool[position] := List.mem_singleton.mp new
        exact light

/-- A chase ends with everything scanned, or gives up at a gathered number with too many ways
in. It never fails. Witness: induction on the recursion of the chase.
-/
theorem Progress.run (tables : InTables numbering entries header rep seeds)
    (progress : Progress numbering bound entries header rep seeds chase position)
    : (∃ after,
        chase.run numbering bound entries header position = .ok after
        ∧ Progress numbering bound entries header rep seeds after after.pool.size)
      ∨ ∃ x,
          chase.run numbering bound entries header position
            = .error (.overload x (entries.getD x []).length)
          ∧ bound < (entries.getD x []).length
          ∧ Gathered numbering entries header rep seeds x := by
  have nodeMem {chase : Chase} {position} (more : position < chase.pool.size)
      : chase.pool[position] ∈ chase.pool.toList :=
    Array.mem_toList_iff.mpr (Array.getElem_mem more)
  fun_induction Chase.run numbering bound entries header chase position with
  | case1 chase position more node missing =>
      have inTable := (progress.gathered _ (nodeMem more)).lt tables
      exact absurd missing (by simp [node, inTable])
  | case2 chase position more node sources found heavy =>
      have same : entries.getD node [] = sources := by simp [found]
      refine Or.inr ⟨node, ?_, ?_, progress.gathered _ (nodeMem more)⟩
      · rw [same]
      · rwa [same]
  | case3 chase position more node sources found light halt failed =>
      have same : entries.getD node [] = sources := by simp [found]
      obtain ⟨next, scanned, -⟩ := progress.step tables more (same ▸ Int.not_lt.mp light)
      rw [same, failed] at scanned
      cases scanned
  | case4 chase position more node sources found light next scanned ih =>
      have same : entries.getD node [] = sources := by simp [found]
      obtain ⟨after, again, onward⟩ := progress.step tables more (same ▸ Int.not_lt.mp light)
      rw [same, scanned] at again
      cases again
      exact ih onward
  | case5 chase position done =>
      have ended : position = chase.pool.size := by
        have := progress.position_le
        omega
      exact Or.inl ⟨chase, rfl, ended ▸ progress⟩

/-- What a chase has gathered when it ends. -/
structure Gathering (numbering : Numbering) (bound : Int) (entries : Array (List Nat))
    (header : Nat) (rep : Nat → Nat) (seeds : List Nat) (chase : Chase)
    : Prop where
  shows : chase.Shows entries.size rep
  pool_eq
    : ∃ joined,
        chase.pool.toList = seeds ++ joined ∧ joined.Nodup ∧ ∀ x ∈ joined, x ∉ seeds
  mem_iff
    : ∀ x, x ∈ chase.pool.toList ↔ Gathered numbering entries header rep seeds x
  outside_eq
    : chase.outside.toList
      = chase.pool.toList.flatMap fun x =>
          numbering.outsiders header ((entries.getD x []).map rep)
  light : ∀ x ∈ chase.pool.toList, ((entries.getD x []).length : Int) ≤ bound

/-- With everything scanned the pool is the whole closure. -/
theorem Progress.gathering
    (progress : Progress numbering bound entries header rep seeds chase chase.pool.size)
    : Gathering numbering bound entries header rep seeds chase := by
  have all : chase.pool.toList.take chase.pool.size = chase.pool.toList :=
    List.take_of_length_le (by simp)
  have closed := progress.closed
  have outside_eq := progress.outside_eq
  have light := progress.light
  rw [all] at closed outside_eq light
  refine ⟨progress.shows, progress.pool_eq, ?_, outside_eq, light⟩
  refine fun x => ⟨progress.gathered x, ?_⟩
  intro gathered
  induction gathered with
  | seed member =>
      obtain ⟨joined, pool_eq, -, -⟩ := progress.pool_eq
      simp [pool_eq, member]
  | chase _ entry below differs ih => exact closed _ ih _ entry below differs

/-- Seeding succeeds, and leaves nothing scanned. -/
theorem progress_seed {sets : Partition} (size_eq : sets.size = entries.size)
    (represents : sets.Represents rep) (known : ∀ y ∈ sources, y < entries.size)
    : ∃ seeded,
        Chase.seed { sets } sources = .ok seeded
        ∧ Progress numbering bound entries header rep (sources.map rep) seeded 0 := by
  have shows : Shows { sets } entries.size rep := ⟨size_eq, represents, by simp⟩
  obtain ⟨seeded, seeds, showsSeeded, pool_eq, outside_eq⟩ := seed_spec shows known
  have poolSeeds : seeded.pool.toList = sources.map rep := by
    simpa using pool_eq
  refine ⟨seeded, seeds, {
    shows := showsSeeded
    position_le := Nat.zero_le _
    pool_eq := ⟨[], by simp [poolSeeds], .nil, by simp⟩
    gathered := fun x member => .seed (poolSeeds ▸ member)
    closed := by simp
    outside_eq := by simp [outside_eq]
    light := by simp
  }⟩

end Chase

/-- A number with back edges gathers its loop, or the sweep gives up at a gathered number with
too many ways in.
-/
theorem Sweep.gather_spec {numbering : Numbering} (bound : Int) {sweep : Sweep}
    {header : Nat} {rep : Nat → Nat} {latches : List Nat}
    (found : sweep.latches[header]? = some latches) (present : latches ≠ [])
    (sameSize : sweep.sets.size = sweep.entries.size) (shown : sweep.sets.Represents rep)
    (known : ∀ y ∈ latches, y < sweep.entries.size)
    (tables : Chase.InTables numbering sweep.entries header rep
      ((latches.filter (· ≠ header)).map rep))
    : (∃ chase,
        sweep.gather numbering bound header = .ok (some chase)
        ∧ Chase.Gathering numbering bound sweep.entries header rep
            ((latches.filter (· ≠ header)).map rep) chase)
      ∨ ∃ x,
          sweep.gather numbering bound header
            = .error (.overload x (sweep.entries.getD x []).length)
          ∧ bound < (sweep.entries.getD x []).length
          ∧ Chase.Gathered numbering sweep.entries header rep
              ((latches.filter (· ≠ header)).map rep) x := by
  have seedKnown : ∀ y ∈ latches.filter (· ≠ header), y < sweep.entries.size :=
    fun y member => known y (List.mem_filter.mp member).1
  obtain ⟨seeded, seeds, begun⟩ := Chase.progress_seed sameSize shown seedKnown
  cases latches with
  | nil => exact absurd rfl present
  | cons latch rest =>
      have opened : sweep.gather numbering bound header
          = (seeded.run numbering bound sweep.entries header 0).map some := by
        simp only [Sweep.gather, found, seeds, bind, Except.bind]
        cases seeded.run numbering bound sweep.entries header 0 <;> rfl
      rw [opened]
      rcases begun.run tables with ⟨after, ran, ended⟩ | ⟨x, halted, heavy, gathered⟩
      · exact Or.inl ⟨after, by rw [ran]; rfl, ended.gathering⟩
      · exact Or.inr ⟨x, by rw [halted]; rfl, heavy, gathered⟩

end LoopNest
