import LoopNest.Finder
import Mathlib.Data.List.Induction

/-! Recording the loops of a sweep: each region becomes one new loop at the end of the store and
of its forest, nested loops learn their parents, and nothing else changes.
-/

namespace LoopNest

/-- The block that a part adds to its loop. -/
def Part.block? (order : Array BlockRef) : Part → Option BlockRef
  | .block number => some (order.getD number 0)
  | .loop _ => none

/-- The loop that a part nests in its loop when the loops of its sweep stand from `base` on. -/
def Part.loop? (base : Nat) : Part → Option LoopRef
  | .block _ => none
  | .loop index => some (base + index)

/-- The blocks that a region lists, its header first. -/
def Region.members (order : Array BlockRef) (region : Region) : List BlockRef :=
  order.getD region.header 0 :: region.parts.filterMap (Part.block? order)

/-- The loops that a region nests. -/
def Region.nested (base : Nat) (region : Region) : List LoopRef :=
  region.parts.filterMap (Part.loop? base)

/-- The loop that a region becomes. -/
def Region.toLoop (order : Array BlockRef) (base : Nat) (counter : Int)
    (parent : Option LoopRef) (region : Region) : Loop :=
  { counter
    header := some (order.getD region.header 0)
    blocks := (region.members order).toArray
    children := (region.nested base).toArray
    parent
    reducible := region.reducible }

theorem Region.mem_nested {base : Nat} {region : Region} {ref : LoopRef}
    : ref ∈ region.nested base
      ↔ ∃ index, Part.loop index ∈ region.parts ∧ base + index = ref := by
  rw [Region.nested, List.mem_filterMap]
  constructor
  · intro ⟨part, listed, same⟩
    cases part with
    | block number => cases same
    | loop index => exact ⟨index, listed, Option.some.inj same⟩
  · intro ⟨index, listed, same⟩
    exact ⟨.loop index, listed, congrArg some same⟩

namespace LoopStore

variable {order : Array BlockRef} {base : Nat} {forest : ForestRef} {ref other : LoopRef}
  {store : LoopStore} {parts : List Part} {region : Region}

theorem loop_update (inTable : ref < store.loops.size) (change : Loop → Loop)
    (other : LoopRef)
    : (store.update ref change).loop other
      = if other = ref then change (store.loop other) else store.loop other := by
  by_cases same : other = ref
  · subst same
    simp [update, loop, Array.getElem_modify, inTable]
  · simp [update, loop, Array.getElem?_modify, same, Ne.symm same]

@[simp]
theorem size_update (store : LoopStore) (ref : LoopRef) (change : Loop → Loop)
    : (store.update ref change).loops.size = store.loops.size := by
  simp [update]

@[simp]
theorem forests_update (store : LoopStore) (ref : LoopRef) (change : Loop → Loop)
    : (store.update ref change).forests = store.forests :=
  rfl

@[simp]
theorem size_recordPart (store : LoopStore) (part : Part)
    : (store.recordPart order base ref part).loops.size = store.loops.size := by
  cases part <;> simp [recordPart, addMember, nest, addChild]

@[simp]
theorem forests_recordPart (store : LoopStore) (part : Part)
    : (store.recordPart order base ref part).forests = store.forests := by
  cases part <;> rfl

/-- A part extends the lists of its loop; a nested loop learns its parent. -/
theorem loop_recordPart {part : Part} (inTable : ref < store.loops.size)
    (earlier : ∀ nested, part.loop? base = some nested → nested < ref) (other : LoopRef)
    : (store.recordPart order base ref part).loop other
      = if other = ref then
          { store.loop other with
            blocks := (store.loop other).blocks ++ (part.block? order).toArray
            children := (store.loop other).children ++ (part.loop? base).toArray }
        else if part.loop? base = some other then { store.loop other with parent := some ref }
        else store.loop other := by
  cases part with
  | block number =>
      simp only [recordPart, addMember, loop_update inTable, Part.block?, Part.loop?]
      split <;> simp
  | loop index =>
      have before : base + index < ref := earlier _ rfl
      have nestedIn : base + index < store.loops.size := Nat.lt_trans before inTable
      have stillIn : ref < (store.update (base + index) fun loop =>
          { loop with parent := some ref }).loops.size := by simpa using inTable
      simp only [recordPart, nest, addChild, loop_update stillIn, loop_update nestedIn,
        Part.block?, Part.loop?, Option.some.injEq]
      by_cases isRef : other = ref
      · subst isRef
        simp [Nat.ne_of_gt before]
      · simp [isRef, eq_comm]

/-- Filling a loop with parts in a row. Witness: induction on the parts. -/
theorem loop_foldl_recordPart (inTable : ref < store.loops.size)
    (earlier : ∀ nested ∈ parts.filterMap (Part.loop? base), nested < ref) (other : LoopRef)
    : (parts.foldl (recordPart order base ref) store).loop other
      = if other = ref then
          { store.loop other with
            blocks := (store.loop other).blocks ++ (parts.filterMap (Part.block? order)).toArray
            children :=
              (store.loop other).children ++ (parts.filterMap (Part.loop? base)).toArray }
        else if other ∈ parts.filterMap (Part.loop? base) then
          { store.loop other with parent := some ref }
        else store.loop other := by
  induction parts generalizing store with
  | nil => simp
  | cons part rest ih =>
      have first : ∀ nested, part.loop? base = some nested → nested < ref := by
        intro nested isNested
        exact earlier nested (List.mem_filterMap.mpr ⟨part, List.mem_cons_self, isNested⟩)
      have later : ∀ nested ∈ rest.filterMap (Part.loop? base), nested < ref := by
        intro nested listed
        obtain ⟨part', listed, isNested⟩ := List.mem_filterMap.mp listed
        exact earlier nested
          (List.mem_filterMap.mpr ⟨part', List.mem_cons_of_mem part listed, isNested⟩)
      rw [List.foldl_cons, ih (by simpa using inTable) later, loop_recordPart inTable first]
      by_cases isRef : other = ref
      · cases part <;> simp [isRef, List.filterMap_cons, Part.block?, Part.loop?]
      · by_cases isFirst : part.loop? base = some other
        · simp [isRef, isFirst]
        · cases part <;> simp_all [List.filterMap_cons, Part.loop?, eq_comm]

theorem size_foldl_recordPart (store : LoopStore) (parts : List Part)
    : (parts.foldl (recordPart order base ref) store).loops.size = store.loops.size := by
  induction parts generalizing store with
  | nil => rfl
  | cons part rest ih => rw [List.foldl_cons, ih, size_recordPart]

theorem forests_foldl_recordPart (store : LoopStore) (parts : List Part)
    : (parts.foldl (recordPart order base ref) store).forests = store.forests := by
  induction parts generalizing store with
  | nil => rfl
  | cons part rest ih => rw [List.foldl_cons, ih, forests_recordPart]

theorem loop_addLoop (store : LoopStore) (loop : Loop) (other : LoopRef)
    : (store.addLoop loop).1.loop other
      = if other = store.loops.size then loop else store.loop other := by
  simp only [addLoop, LoopStore.loop, Array.getD_eq_getD_getElem?, Array.getElem?_push]
  split <;> rfl

/-- The store with a new loop that has a region's header and flag, but no parts yet. -/
def openRegion (store : LoopStore) (order : Array BlockRef) (forest : ForestRef)
    (region : Region) : LoopStore :=
  ((store.newLoop forest).1.headBy store.loops.size (order.getD region.header 0)).update
    store.loops.size fun loop => { loop with reducible := region.reducible }

theorem recordRegion_eq (store : LoopStore) (region : Region)
    : store.recordRegion order base forest region
      = (region.parts.foldl (recordPart order base store.loops.size)
          (store.openRegion order forest region)).storeLoop forest store.loops.size :=
  rfl

theorem size_openRegion (store : LoopStore) (region : Region)
    : (store.openRegion order forest region).loops.size = store.loops.size + 1 := by
  simp [openRegion, headBy, newLoop, addLoop]

theorem loop_openRegion (store : LoopStore) (region : Region) (other : LoopRef)
    : (store.openRegion order forest region).loop other
      = if other = store.loops.size then
          { counter := (store.forest forest).nextCounter
            header := some (order.getD region.header 0)
            blocks := #[order.getD region.header 0]
            reducible := region.reducible }
        else store.loop other := by
  have inTable : store.loops.size < (store.newLoop forest).1.loops.size := by
    simp [newLoop, addLoop]
  have made : (store.newLoop forest).1.loop other
      = (store.addLoop { counter := (store.forest forest).nextCounter }).1.loop other :=
    rfl
  rw [openRegion, loop_update (by simpa [headBy] using inTable), headBy, loop_update inTable,
    made, loop_addLoop]
  split <;> rfl

theorem size_recordRegion (store : LoopStore) (region : Region)
    : (store.recordRegion order base forest region).loops.size = store.loops.size + 1 := by
  simp [recordRegion_eq, storeLoop, size_foldl_recordPart, size_openRegion]

theorem forests_recordRegion (store : LoopStore) (region : Region)
    : (store.recordRegion order base forest region).forests
      = store.forests.modify forest fun whole =>
          { whole with
            loops := whole.loops.push store.loops.size
            nextCounter := whole.nextCounter + 1 } := by
  simp only [recordRegion_eq, storeLoop, forests_foldl_recordPart, openRegion, forests_update,
    headBy, newLoop, addLoop]
  refine Array.ext_getElem? fun i => ?_
  simp only [Array.getElem?_modify]
  split
  · simp [Function.comp_def]
  · rfl

/-- A region becomes a new loop, and the loops that it nests learn their parent. -/
theorem loop_recordRegion (earlier : ∀ ref ∈ region.nested base, ref < store.loops.size)
    (other : LoopRef)
    : (store.recordRegion order base forest region).loop other
      = if other = store.loops.size then
          region.toLoop order base (store.forest forest).nextCounter none
        else if other ∈ region.nested base then
          { store.loop other with parent := some store.loops.size }
        else store.loop other := by
  have inTable : store.loops.size < (store.openRegion order forest region).loops.size := by
    rw [size_openRegion]
    exact Nat.lt_succ_self _
  have filled : (store.recordRegion order base forest region).loop other
      = (region.parts.foldl (recordPart order base store.loops.size)
          (store.openRegion order forest region)).loop other :=
    rfl
  rw [filled, loop_foldl_recordPart inTable earlier, loop_openRegion]
  split
  · simp [Region.toLoop, Region.members, Region.nested]
  · rfl

------------------------------------------------------------------------------------------
-- Recording a sweep
------------------------------------------------------------------------------------------

/-- A loop's parent is what the regions say: the position of a region that nests it, or none if
no region does.
-/
def NestedBy (base : Nat) (regions : List Region) (ref : LoopRef) : Option LoopRef → Prop
  | none => ∀ region ∈ regions, ref ∉ region.nested base
  | some parent =>
      ∃ i region, regions[i]? = some region ∧ ref ∈ region.nested base ∧ parent = base + i

/-- What recording regions adds to a store and to one of its forests. -/
structure Records (order : Array BlockRef) (forest : ForestRef) (before : LoopStore)
    (regions : List Region) (after : LoopStore)
    : Prop where
  size_eq : after.loops.size = before.loops.size + regions.length
  forests_eq
    : after.forests
      = before.forests.modify forest fun whole =>
          { whole with
            loops := whole.loops ++ (List.range' before.loops.size regions.length).toArray
            nextCounter := whole.nextCounter + regions.length }
  kept : ∀ ref < before.loops.size, after.loop ref = before.loop ref
  made
    : ∀ i region, regions[i]? = some region
      → ∃ parent,
          NestedBy before.loops.size regions (before.loops.size + i) parent
          ∧ after.loop (before.loops.size + i)
            = region.toLoop order before.loops.size
                (((before.forest forest).nextCounter + i : Nat) : Int) parent

/-- Every region nests only loops found before it. -/
def NestsEarlier (regions : List Region) : Prop :=
  ∀ i region, regions[i]? = some region → ∀ index, Part.loop index ∈ region.parts → index < i

/-- No loop is nested by two regions. -/
def NestsOnce (regions : List Region) : Prop :=
  ∀ (i j index : Nat) (outer other : Region),
    regions[i]? = some outer → regions[j]? = some other
    → Part.loop index ∈ outer.parts → Part.loop index ∈ other.parts → i = j

theorem NestsEarlier.init {regions : List Region} {region : Region}
    (ordered : NestsEarlier (regions ++ [region]))
    : NestsEarlier regions := by
  intro i other found
  have inRange := (List.getElem?_eq_some_iff.mp found).1
  exact ordered i other (by rwa [List.getElem?_append_left inRange])

theorem NestsEarlier.nested_lt {regions : List Region} {i : Nat}
    (ordered : NestsEarlier regions) (found : regions[i]? = some region)
    : ∀ ref ∈ region.nested base, ref < base + i := by
  intro ref listed
  obtain ⟨index, listed, same⟩ := Region.mem_nested.mp listed
  exact same ▸ Nat.add_lt_add_left (ordered i region found index listed) base

/-- A forest with recorded regions stores their loops at its end, and its counter counts them. -/
theorem Records.forest_eq {before after : LoopStore} {regions : List Region}
    (records : Records order forest before regions after)
    (forestIn : forest < before.forests.size)
    : after.forest forest
      = { before.forest forest with
          loops := (before.forest forest).loops
            ++ (List.range' before.loops.size regions.length).toArray
          nextCounter := (before.forest forest).nextCounter + regions.length } := by
  simp [LoopStore.forest, records.forests_eq, Array.getElem_modify, forestIn]

/-- The parent recorded so far stays right when one more region is recorded. -/
theorem NestedBy.append {regions : List Region} {parent : Option LoopRef}
    (nestedBy : NestedBy base regions other parent) (region : Region)
    : NestedBy base (regions ++ [region]) other
        (if other ∈ region.nested base then some (base + regions.length) else parent) := by
  split
  · next listed =>
      exact ⟨regions.length, region, by simp, listed, rfl⟩
  · next apart =>
      cases parent with
      | none =>
          intro earlier listed
          cases List.mem_append.mp listed with
          | inl old => exact nestedBy earlier old
          | inr newest => exact List.mem_singleton.mp newest ▸ apart
      | some parent =>
          obtain ⟨i, earlier, found, listed, same⟩ := nestedBy
          have inRange := (List.getElem?_eq_some_iff.mp found).1
          exact ⟨i, earlier, by rwa [List.getElem?_append_left inRange], listed, same⟩

theorem mem_nested_add {index : Nat}
    : base + index ∈ region.nested base ↔ Part.loop index ∈ region.parts := by
  rw [Region.mem_nested]
  constructor
  · intro ⟨other, listed, same⟩
    exact Nat.add_left_cancel same ▸ listed
  · intro listed
    exact ⟨index, listed, rfl⟩

/-- A loop ends below the root or below the loop of a region that nests it. -/
theorem NestedBy.getD_cases {regions : List Region} {parent : Option LoopRef} {i : Nat}
    (nestedBy : NestedBy base regions (base + i) parent) (root : LoopRef)
    : parent.getD root = root
      ∨ ∃ j outer,
          regions[j]? = some outer
          ∧ Part.loop i ∈ outer.parts
          ∧ parent.getD root = base + j := by
  cases parent with
  | none => exact Or.inl rfl
  | some parent =>
      obtain ⟨j, outer, found, nested, same⟩ := nestedBy
      exact Or.inr ⟨j, outer, found, mem_nested_add.mp nested, same⟩

/-- If no loop is nested twice, a loop ends below exactly the one that nests it. -/
theorem NestedBy.getD_eq_iff {regions : List Region} {parent : Option LoopRef} {root : LoopRef}
    {i j : Nat} (nestedBy : NestedBy base regions (base + i) parent) (once : NestsOnce regions)
    (before : root < base)
    : parent.getD root = base + j
      ↔ ∃ outer, regions[j]? = some outer ∧ Part.loop i ∈ outer.parts := by
  constructor
  · intro same
    rcases nestedBy.getD_cases root with isRoot | ⟨k, outer, found, nested, sameToo⟩
    · rw [isRoot.symm.trans same] at before
      exact absurd before (Nat.not_lt.mpr (Nat.le_add_right base j))
    · obtain rfl := Nat.add_left_cancel (sameToo.symm.trans same)
      exact ⟨outer, found, nested⟩
  · intro ⟨outer, found, nested⟩
    cases parent with
    | none =>
        exact absurd (mem_nested_add.mpr nested) (nestedBy outer (List.mem_of_getElem? found))
    | some parent =>
        obtain ⟨k, other, foundToo, nestedToo, rfl⟩ := nestedBy
        rw [once j k i outer other found foundToo nested (mem_nested_add.mp nestedToo)]
        rfl

/-- Recording one more region. -/
theorem Records.recordRegion {before after : LoopStore} {regions : List Region}
    (records : Records order forest before regions after)
    (forestIn : forest < before.forests.size) (ordered : NestsEarlier (regions ++ [region]))
    : Records order forest before (regions ++ [region])
        (after.recordRegion order before.loops.size forest region) := by
  have newest : (regions ++ [region])[regions.length]? = some region := by simp
  have earlier : ∀ ref ∈ region.nested before.loops.size, ref < after.loops.size := by
    rw [records.size_eq]
    exact ordered.nested_lt newest
  refine ⟨?_, ?_, ?_, ?_⟩
  · rw [size_recordRegion, records.size_eq, List.length_append, List.length_singleton,
      Nat.add_assoc]
  · rw [forests_recordRegion, records.forests_eq, records.size_eq]
    refine Array.ext_getElem? fun i => ?_
    simp only [Array.getElem?_modify, List.length_append, List.length_singleton,
      List.range'_concat]
    split
    · simp [Function.comp_def, Nat.add_assoc, -List.toArray_range']
    · rfl
  · intro ref known
    have notNew : ref ≠ after.loops.size := by
      rw [records.size_eq]
      omega
    have notNested : ref ∉ region.nested before.loops.size := by
      intro listed
      obtain ⟨index, -, same⟩ := Region.mem_nested.mp listed
      omega
    rw [loop_recordRegion earlier, if_neg notNew, if_neg notNested, records.kept ref known]
  · intro i other found
    rw [loop_recordRegion earlier, records.size_eq]
    cases Nat.lt_or_ge i regions.length with
    | inl old =>
        rw [List.getElem?_append_left old] at found
        obtain ⟨parent, nestedBy, made⟩ := records.made i other found
        refine ⟨_, nestedBy.append region, ?_⟩
        rw [if_neg (Nat.ne_of_lt (Nat.add_lt_add_left old _)), made]
        split <;> rfl
    | inr new =>
        have inRange := (List.getElem?_eq_some_iff.mp found).1
        rw [List.length_append, List.length_singleton] at inRange
        obtain rfl : i = regions.length := Nat.le_antisymm (Nat.le_of_lt_succ inRange) new
        obtain rfl : region = other := Option.some.inj (newest.symm.trans found)
        refine ⟨none, ?_, ?_⟩
        · intro later listed nested
          obtain ⟨j, inRange, rfl⟩ := List.mem_iff_getElem.mp listed
          have before := ordered.nested_lt (List.getElem?_eq_getElem inRange) _ nested
          rw [List.length_append, List.length_singleton] at inRange
          exact absurd (Nat.lt_of_add_lt_add_left before)
            (Nat.not_lt.mpr (Nat.le_of_lt_succ inRange))
        · rw [if_pos rfl, records.forest_eq forestIn]

/-- Recording a sweep makes one loop for each of its regions. Witness: induction on the regions
from the end.
-/
theorem records_record (numbering : Numbering) {regions : Array Region}
    (forestIn : forest < store.forests.size) (ordered : NestsEarlier regions.toList)
    : Records numbering.order forest store regions.toList
        (store.record forest numbering regions) := by
  rw [record]
  generalize regions.toList = recorded at ordered ⊢
  induction recorded using List.reverseRecOn with
  | nil =>
      refine ⟨rfl, ?_, fun _ _ => rfl, by simp⟩
      refine Array.ext_getElem? fun i => ?_
      cases found : store.forests[i]? <;> simp [Array.getElem?_modify, found]
  | append_singleton earlier region ih =>
      rw [List.foldl_append, List.foldl_cons, List.foldl_nil]
      exact (ih ordered.init).recordRegion forestIn ordered

theorem size_graft (store : LoopStore) (root ref : LoopRef)
    : (store.graft root ref).loops.size = store.loops.size := by
  rw [graft]
  split
  · rw [size_update]
  · rfl

theorem forests_graft (store : LoopStore) (root ref : LoopRef)
    : (store.graft root ref).forests = store.forests := by
  rw [graft]
  split
  · rw [forests_update]
  · rfl

theorem update_of_ge (past : store.loops.size ≤ ref) (change : Loop → Loop)
    : store.update ref change = store := by
  have unchanged : store.loops.modify ref change = store.loops := by
    refine Array.ext_getElem? fun i => ?_
    rw [Array.getElem?_modify]
    split
    · next same => simp [← same, past]
    · rfl
  rw [update, unchanged]

theorem loop_graft (store : LoopStore) (root ref other : LoopRef)
    : (store.graft root ref).loop other
      = if other = ref ∧ other < store.loops.size ∧ other ≠ root ∧ (store.loop other).parent = none
        then { store.loop other with parent := some root } else store.loop other := by
  rw [graft]
  cases Nat.lt_or_ge ref store.loops.size with
  | inr past =>
      rw [update_of_ge past, ite_self, if_neg]
      exact fun ⟨same, known, _⟩ => Nat.not_le_of_lt known (same ▸ past)
  | inl inTable =>
      by_cases same : other = ref
      · subst same
        split
        · next orphan => simp_all [loop_update inTable]
        · next kept =>
            rw [if_neg]
            exact fun ⟨_, _, notRoot, orphan⟩ =>
              kept ⟨Option.isNone_iff_eq_none.mpr orphan, notRoot⟩
      · split
        · simp [loop_update inTable, same]
        · simp [same]

/-- Grafting loops in a row hangs those without parent below the root. Witness: induction on the
loops; once grafted, a loop has a parent.
-/
theorem loop_foldl_graft (store : LoopStore) (refs : List LoopRef) (root other : LoopRef)
    : (refs.foldl (fun store ref => store.graft root ref) store).loop other
      = if other ∈ refs ∧ other < store.loops.size ∧ other ≠ root
            ∧ (store.loop other).parent = none
        then { store.loop other with parent := some root } else store.loop other := by
  induction refs generalizing store with
  | nil => simp
  | cons ref rest ih =>
      rw [List.foldl_cons, ih, size_graft, loop_graft]
      by_cases orphan : other < store.loops.size ∧ other ≠ root ∧ (store.loop other).parent = none
      · by_cases here : other = ref
        · subst here
          simp [orphan]
        · simp [here, orphan]
      · simp [orphan]

theorem forests_graftAll (store : LoopStore) (forest : ForestRef)
    : (store.graftAll forest).forests = store.forests := by
  refine List.foldlRecOn
    (motive := fun (after : LoopStore) => after.forests = store.forests) _ _ rfl ?_
  intro after same ref _
  rw [forests_graft, same]

theorem size_graftAll (store : LoopStore) (forest : ForestRef)
    : (store.graftAll forest).loops.size = store.loops.size := by
  refine List.foldlRecOn
    (motive := fun (after : LoopStore) => after.loops.size = store.loops.size) _ _ rfl ?_
  intro after same ref _
  rw [size_graft, same]

/-- The refs from a base on, one for each region. -/
theorem mem_range'_iff {regions : List Region}
    : ref ∈ List.range' base regions.length
      ↔ ∃ i region, regions[i]? = some region ∧ ref = base + i := by
  rw [List.mem_range'_1]
  constructor
  · intro ⟨lower, upper⟩
    have inRange : ref - base < regions.length := Nat.sub_lt_left_of_lt_add lower upper
    exact ⟨ref - base, _, List.getElem?_eq_getElem inRange, (Nat.add_sub_cancel' lower).symm⟩
  · intro ⟨i, region, found, same⟩
    have inRange := (List.getElem?_eq_some_iff.mp found).1
    exact same ▸ ⟨Nat.le_add_right _ _, Nat.add_lt_add_left inRange _⟩

/-- Every loop of a forest is in the store, and has a parent unless it is the root. -/
structure Hung (store : LoopStore) (forest : ForestRef) : Prop where
  root_lt : (store.forest forest).root < store.loops.size
  listed_lt : ∀ ref ∈ (store.forest forest).loops, ref < store.loops.size
  parent_ne
    : ∀ ref ∈ (store.forest forest).loops, ref ≠ (store.forest forest).root
      → (store.loop ref).parent ≠ none

section
variable {before after : LoopStore} {regions : List Region}

theorem Records.mem_loops_iff (records : Records order forest before regions after)
    (forestIn : forest < before.forests.size)
    : ref ∈ (after.forest forest).loops
      ↔ ref ∈ (before.forest forest).loops
        ∨ ∃ i region, regions[i]? = some region ∧ ref = before.loops.size + i := by
  rw [records.forest_eq forestIn]
  simp only [Array.mem_append, List.mem_toArray, mem_range'_iff]

/-- After recording in a forest whose loops hang, grafting touches new loops only. -/
theorem Records.loop_graftAll (records : Records order forest before regions after)
    (forestIn : forest < before.forests.size) (hung : before.Hung forest) (other : LoopRef)
    : (after.graftAll forest).loop other
      = if other ∈ List.range' before.loops.size regions.length
            ∧ (after.loop other).parent = none
        then { after.loop other with parent := some (before.forest forest).root }
        else after.loop other := by
  have root_eq : (after.forest forest).root = (before.forest forest).root := by
    rw [records.forest_eq forestIn]
  have listed_iff (ref : LoopRef)
      : ref ∈ (after.forest forest).loops.toList
        ↔ ref ∈ (before.forest forest).loops
          ∨ ref ∈ List.range' before.loops.size regions.length := by
    rw [Array.mem_toList_iff, records.mem_loops_iff forestIn, mem_range'_iff]
  have listedIn : ∀ ref ∈ (after.forest forest).loops.toList, ref < after.loops.size := by
    intro ref listed
    rw [records.size_eq]
    rcases (listed_iff ref).mp listed with old | new
    · exact Nat.lt_add_right _ (hung.listed_lt ref old)
    · exact (List.mem_range'_1.mp new).2
  rw [graftAll, loop_foldl_graft, root_eq]
  refine if_congr ⟨?_, ?_⟩ rfl rfl
  · intro ⟨listed, _, notRoot, orphan⟩
    refine ⟨((listed_iff other).mp listed).resolve_left fun old => ?_, orphan⟩
    rw [records.kept other (hung.listed_lt other old)] at orphan
    exact hung.parent_ne other old notRoot orphan
  · intro ⟨new, orphan⟩
    have after := Nat.lt_of_lt_of_le hung.root_lt (List.mem_range'_1.mp new).1
    have listed := (listed_iff other).mpr (Or.inr new)
    exact ⟨listed, listedIn other listed, Nat.ne_of_gt after, orphan⟩

theorem Records.graftAll_kept (records : Records order forest before regions after)
    (forestIn : forest < before.forests.size) (hung : before.Hung forest)
    (known : ref < before.loops.size)
    : (after.graftAll forest).loop ref = before.loop ref := by
  rw [records.loop_graftAll forestIn hung, if_neg, records.kept ref known]
  exact fun ⟨new, _⟩ => Nat.not_le_of_lt known (List.mem_range'_1.mp new).1

/-- A recorded loop ends below the loop whose region nests it, or else below the root. -/
theorem Records.graftAll_made (records : Records order forest before regions after)
    (forestIn : forest < before.forests.size) (hung : before.Hung forest) {i : Nat}
    (found : regions[i]? = some region)
    : ∃ parent,
        NestedBy before.loops.size regions (before.loops.size + i) parent
        ∧ (after.graftAll forest).loop (before.loops.size + i)
          = region.toLoop order before.loops.size
              (((before.forest forest).nextCounter + i : Nat) : Int)
              (some (parent.getD (before.forest forest).root)) := by
  have new : before.loops.size + i ∈ List.range' before.loops.size regions.length :=
    mem_range'_iff.mpr ⟨i, region, found, rfl⟩
  obtain ⟨parent, nestedBy, made⟩ := records.made i region found
  refine ⟨parent, nestedBy, ?_⟩
  rw [records.loop_graftAll forestIn hung, made]
  cases parent with
  | none => exact if_pos ⟨new, rfl⟩
  | some parent => exact if_neg fun both => nomatch both.2

theorem forest_graftAll (store : LoopStore) (forest other : ForestRef)
    : (store.graftAll forest).forest other = store.forest other := by
  rw [LoopStore.forest, forests_graftAll, ← LoopStore.forest]

end

------------------------------------------------------------------------------------------
-- A fresh forest
------------------------------------------------------------------------------------------

/-- What a forest holds whose loops were all recorded from one sweep: the root, and one loop for
each region in order, nested as the regions say or below the root.
-/
structure Grown (order : Array BlockRef) (regions : List Region) (root : LoopRef)
    (store : LoopStore) (forest : ForestRef)
    : Prop where
  root_eq : (store.forest forest).root = root
  loops_eq : (store.forest forest).loops.toList = List.range' root (regions.length + 1)
  root_loop : store.loop root = { counter := 0, synthetic := true }
  region_loop
    : ∀ i region, regions[i]? = some region
      → ∃ parent,
          NestedBy (root + 1) regions (root + 1 + i) parent
          ∧ store.loop (root + 1 + i)
            = region.toLoop order (root + 1) ((i + 1 : Nat) : Int) (some (parent.getD root))

theorem Grown.mem_loops_iff {regions : List Region} {root : LoopRef}
    (grown : Grown order regions root store forest)
    : ref ∈ (store.forest forest).loops
      ↔ ref = root ∨ ∃ i region, regions[i]? = some region ∧ ref = root + 1 + i := by
  rw [← Array.mem_toList_iff, grown.loops_eq, List.range'_succ, List.mem_cons, mem_range'_iff]

/-- The loops but the root are those of the regions. -/
theorem Grown.stored_iff {regions : List Region} {root : LoopRef}
    (grown : Grown order regions root store forest)
    : ref ∈ (store.forest forest).loops ∧ ref ≠ (store.forest forest).root
      ↔ ∃ i region, regions[i]? = some region ∧ ref = root + 1 + i := by
  rw [grown.mem_loops_iff, grown.root_eq]
  constructor
  · rintro ⟨stored, notRoot⟩
    exact stored.resolve_left notRoot
  · rintro ⟨i, region, found, same⟩
    refine ⟨Or.inr ⟨i, region, found, same⟩, ?_⟩
    rw [same, Nat.add_assoc]
    exact Nat.ne_of_gt (Nat.lt_add_of_pos_right (Nat.add_pos_left Nat.one_pos i))

theorem Grown.nodup_inner_root {regions : List Region} {root : LoopRef}
    (grown : Grown order regions root store forest)
    : (store.inner forest (store.forest forest).root).Nodup := by
  rw [inner, if_pos rfl, grown.loops_eq]
  exact .filter _ (List.nodup_range' 1)

theorem Grown.eq_root {root : LoopRef} (grown : Grown order [] root store forest)
    (listed : ref ∈ (store.forest forest).loops)
    : ref = root := by
  rcases grown.mem_loops_iff.mp listed with isRoot | ⟨i, region, found, _⟩
  · exact isRoot
  · cases found

theorem size_addForest (store : LoopStore)
    : store.addForest.1.loops.size = store.loops.size + 1 := by
  simp [addForest, addLoop]

theorem forest_addForest (store : LoopStore)
    : store.addForest.1.forest store.addForest.2
      = { root := store.loops.size, loops := #[store.loops.size] } := by
  simp [addForest, addLoop, LoopStore.forest]

theorem loop_addForest (store : LoopStore)
    : store.addForest.1.loop store.loops.size = { counter := 0, synthetic := true } := by
  simp [addForest, addLoop, LoopStore.loop]

theorem grown_addForest (store : LoopStore)
    : Grown order [] store.loops.size store.addForest.1 store.addForest.2 :=
  ⟨by rw [forest_addForest], by rw [forest_addForest]; rfl, loop_addForest store, by simp⟩

theorem forestIn_addForest (store : LoopStore)
    : store.addForest.2 < store.addForest.1.forests.size := by
  simp [addForest, addLoop]

theorem hung_addForest (store : LoopStore) : store.addForest.1.Hung store.addForest.2 := by
  have root_lt : store.loops.size < store.addForest.1.loops.size := by
    rw [size_addForest]
    exact Nat.lt_succ_self _
  refine ⟨?_, ?_, ?_⟩
  · rwa [forest_addForest]
  · intro ref listed
    rw [forest_addForest] at listed
    exact List.mem_singleton.mp (Array.mem_toList_iff.mpr listed) ▸ root_lt
  · intro ref listed notRoot
    rw [forest_addForest] at listed notRoot
    exact absurd (List.mem_singleton.mp (Array.mem_toList_iff.mpr listed)) notRoot

/-- Recording a sweep in a fresh forest and hanging the loops without parent below its root. -/
theorem Records.grown {regions : List Region} {after : LoopStore}
    (records : Records order store.addForest.2 store.addForest.1 regions after)
    : Grown order regions store.loops.size (after.graftAll store.addForest.2)
        store.addForest.2 := by
  have forestIn := store.forestIn_addForest
  have hung := store.hung_addForest
  have whole := records.forest_eq forestIn
  rw [forest_addForest, size_addForest] at whole
  refine ⟨?_, ?_, ?_, ?_⟩
  · rw [forest_graftAll, whole]
  · rw [forest_graftAll, whole, List.range'_succ]
    simp
  · rw [records.graftAll_kept forestIn hung, loop_addForest]
    rw [size_addForest]
    exact Nat.lt_succ_self _
  · intro i region found
    obtain ⟨parent, nestedBy, made⟩ := records.graftAll_made forestIn hung found
    rw [forest_addForest, size_addForest, Nat.add_comm 1 i] at made
    rw [size_addForest] at nestedBy
    exact ⟨parent, nestedBy, made⟩

end LoopStore

end LoopNest
