import LoopNest.Forest.Levels
import LoopNest.Proofs.Forest.WellFormed
import Mathlib.Computability.StateTransition
import Mathlib.Data.List.Nodup
import Mathlib.Data.List.Perm.Subperm
import Mathlib.Order.Bounds.Basic

/-! What assigning levels leaves in loops nested without a circle: the height of a loop is the
length of the longest way down from it, its depth the length of a way down to it, and nothing but
levels changes. Working off a stack of tasks, without a budget, comes to an end and leaves the same.
-/

namespace LoopNest

/-- So many steps lead down from one loop to another, each to a loop directly inside. -/
inductive Way (inner : LoopRef → List LoopRef) : (steps : Nat) → LoopRef → LoopRef → Prop
  | stay (ref : LoopRef) : Way inner 0 ref ref
  | enter {steps : Nat} {ref child last : LoopRef} (listed : child ∈ inner ref)
    (onward : Way inner steps child last)
    : Way inner (steps + 1) ref last

/-- Some way leads down from one loop to another. -/
def Reaches (inner : LoopRef → List LoopRef) : LoopRef → LoopRef → Prop :=
  Relation.ReflTransGen fun ref child => child ∈ inner ref

variable {inner : LoopRef → List LoopRef} {steps more : Nat} {ref child last other : LoopRef}

namespace Way

theorem zero_iff : Way inner 0 ref last ↔ ref = last := by
  constructor
  · rintro ⟨⟩
    rfl
  · rintro rfl
    exact .stay ref

theorem succ_iff
    : Way inner (steps + 1) ref last ↔ ∃ child ∈ inner ref, Way inner steps child last := by
  constructor
  · rintro (_ | ⟨listed, onward⟩)
    exact ⟨_, listed, onward⟩
  · rintro ⟨child, listed, onward⟩
    exact .enter listed onward

theorem trans (first : Way inner steps ref child) (second : Way inner more child last)
    : Way inner (steps + more) ref last := by
  induction first with
  | stay ref => rwa [Nat.zero_add]
  | enter listed _ ih =>
      rw [Nat.add_right_comm]
      exact .enter listed (ih second)

theorem reaches (way : Way inner steps ref last) : Reaches inner ref last := by
  induction way with
  | stay ref => exact .refl
  | enter listed _ ih => exact .head listed ih

theorem succ_iff_last
    : Way inner (steps + 1) ref last ↔ ∃ outer, Way inner steps ref outer ∧ last ∈ inner outer := by
  induction steps generalizing ref with
  | zero => simp [succ_iff, zero_iff]
  | succ steps ih =>
      rw [succ_iff]
      simp only [ih]
      constructor
      · rintro ⟨child, listed, outer, onward, inside⟩
        exact ⟨outer, .enter listed onward, inside⟩
      · rintro ⟨outer, way, inside⟩
        obtain ⟨child, listed, onward⟩ := succ_iff.mp way
        exact ⟨child, listed, outer, onward, inside⟩

end Way

theorem Reaches.exists_way (reaches : Reaches inner ref last)
    : ∃ steps, Way inner steps ref last := by
  induction reaches using Relation.ReflTransGen.head_induction_on with
  | refl => exact ⟨0, .stay last⟩
  | head listed _ ih =>
      obtain ⟨steps, onward⟩ := ih
      exact ⟨steps + 1, .enter listed onward⟩

/-- Below a loop no loop is inside itself. -/
def Acyclic (inner : LoopRef → List LoopRef) (ref : LoopRef) : Prop :=
  ∀ outer, Reaches inner ref outer → ∀ child ∈ inner outer, ¬ Reaches inner child outer

theorem Acyclic.below (acyclic : Acyclic inner ref) (reaches : Reaches inner ref other)
    : Acyclic inner other :=
  fun outer onward => acyclic outer (reaches.trans onward)

/-- Loops that all stand in a table before the loops directly inside them are nested without a
circle. Witness: each step of a way leads to a later place in the table.
-/
theorem acyclic_of_later {size : Nat}
    (later : ∀ outer < size, ∀ child ∈ inner outer, outer < child ∧ child < size)
    (inTable : ref < size)
    : Acyclic inner ref ∧ ∀ other, Reaches inner ref other → other < size := by
  have onward {steps first last : Nat} (known : first < size)
      (way : Way inner steps first last)
      : first + steps ≤ last ∧ last < size := by
    induction way with
    | stay ref => exact ⟨Nat.le_refl _, known⟩
    | @enter steps ref child last listed _ ih =>
        obtain ⟨after, childKnown⟩ := later ref known child listed
        obtain ⟨atLeast, lastKnown⟩ := ih childKnown
        exact ⟨by omega, lastKnown⟩
  have known (other : LoopRef) (reaches : Reaches inner ref other) : other < size := by
    obtain ⟨steps, way⟩ := reaches.exists_way
    exact (onward inTable way).2
  refine ⟨?_, known⟩
  intro outer reaches child listed back
  obtain ⟨steps, way⟩ := back.exists_way
  have circle := (onward (known outer reaches) (.enter listed way)).1
  omega

/-- A way without a circle visits different loops, so it has fewer steps than there are loops.
Witness: the visited loops, listed by induction on the way.
-/
theorem Acyclic.steps_lt {size : Nat} (acyclic : Acyclic inner ref)
    (inTable : ∀ other, Reaches inner ref other → other < size) (way : Way inner steps ref last)
    : steps < size := by
  have visited : ∃ places : List LoopRef,
      places.length = steps + 1
      ∧ places.Nodup
      ∧ ∀ place ∈ places, Reaches inner ref place := by
    induction way with
    | stay ref =>
        exact ⟨[ref], rfl, List.nodup_singleton ref, List.forall_mem_singleton.mpr .refl⟩
    | @enter _ ref child _ listed _ ih =>
        have reaches : Reaches inner ref child := .single listed
        obtain ⟨places, length_eq, nodup, below⟩ :=
          ih (acyclic.below reaches) fun other onward => inTable other (reaches.trans onward)
        refine ⟨ref :: places, by rw [List.length_cons, length_eq], ?_, ?_⟩
        · refine List.nodup_cons.mpr ⟨fun again => ?_, nodup⟩
          exact acyclic ref .refl child listed (below ref again)
        · intro place listedToo
          rcases List.mem_cons.mp listedToo with rfl | later
          · exact .refl
          · exact reaches.trans (below place later)
  obtain ⟨places, length_eq, nodup, below⟩ := visited
  have included : places ⊆ List.range size :=
    fun place listed => List.mem_range.mpr (inTable place (below place listed))
  have fits := (List.subperm_of_subset nodup included).length_le
  rwa [length_eq, List.length_range] at fits

/-- Induction over the loops below one with no circle: each after the loops directly inside it.
Witness: no way down has as many steps as there are loops.
-/
theorem Acyclic.induction {motive : LoopRef → Prop} {size : Nat} (acyclic : Acyclic inner ref)
    (inTable : ∀ other, Reaches inner ref other → other < size)
    (step : ∀ outer, Reaches inner ref outer → (∀ child ∈ inner outer, motive child)
      → motive outer)
    : motive ref := by
  have bounded (budget : Nat) (outer : LoopRef) (reaches : Reaches inner ref outer)
      (enough : ∀ steps last, Way inner steps outer last → steps < budget)
      : motive outer := by
    induction budget generalizing outer with
    | zero => exact absurd (enough 0 outer (.stay outer)) (Nat.not_lt_zero 0)
    | succ budget ih =>
        apply step outer reaches
        intro child listed
        apply ih child (reaches.tail listed)
        intro steps last way
        exact Nat.lt_of_succ_lt_succ (enough (steps + 1) last (.enter listed way))
  exact bounded size ref .refl fun _ _ way => acyclic.steps_lt inTable way

namespace LoopStore

variable {store before middle after : LoopStore} {forest : ForestRef} {depth : Int}
  {refs : List LoopRef}

------------------------------------------------------------------------------------------
-- Stores that differ in levels only
------------------------------------------------------------------------------------------

/-- Two stores agree on everything but the levels of loops. -/
structure SameShape (before after : LoopStore) : Prop where
  forests_eq : after.forests = before.forests
  size_eq : after.loops.size = before.loops.size
  loop_eq
    : ∀ ref,
        after.loop ref
          = { before.loop ref with
              height := (after.loop ref).height
              depth := (after.loop ref).depth }

namespace SameShape

theorem refl (store : LoopStore) : SameShape store store :=
  ⟨rfl, rfl, fun _ => rfl⟩

theorem trans (first : SameShape before middle) (second : SameShape middle after)
    : SameShape before after := by
  refine ⟨second.forests_eq.trans first.forests_eq, second.size_eq.trans first.size_eq, ?_⟩
  intro ref
  rw [second.loop_eq, first.loop_eq]

theorem forest_eq (same : SameShape before after) (forest : ForestRef)
    : after.forest forest = before.forest forest := by
  rw [LoopStore.forest, same.forests_eq, ← LoopStore.forest]

theorem parent_eq (same : SameShape before after) (ref : LoopRef)
    : (after.loop ref).parent = (before.loop ref).parent := by
  rw [same.loop_eq]

theorem children_eq (same : SameShape before after) (ref : LoopRef)
    : (after.loop ref).children = (before.loop ref).children := by
  rw [same.loop_eq]

theorem header_eq (same : SameShape before after) (ref : LoopRef)
    : (after.loop ref).header = (before.loop ref).header := by
  rw [same.loop_eq]

theorem blocks_eq (same : SameShape before after) (ref : LoopRef)
    : (after.loop ref).blocks = (before.loop ref).blocks := by
  rw [same.loop_eq]

theorem counter_eq (same : SameShape before after) (ref : LoopRef)
    : (after.loop ref).counter = (before.loop ref).counter := by
  rw [same.loop_eq]

theorem inner_eq (same : SameShape before after) (forest : ForestRef)
    : after.inner forest = before.inner forest := by
  funext ref
  simp only [inner, same.forest_eq, same.parent_eq, same.children_eq]

/-- Changing the levels of one loop keeps the shape. -/
theorem update {change : Loop → Loop}
    (levels : ∀ loop, change loop
      = { loop with height := (change loop).height, depth := (change loop).depth })
    (store : LoopStore) (ref : LoopRef)
    : SameShape store (store.update ref change) := by
  refine ⟨rfl, size_update store ref change, fun other => ?_⟩
  cases Nat.lt_or_ge ref store.loops.size with
  | inr past => rw [update_of_ge past]
  | inl inTable =>
      rw [loop_update inTable]
      split
      · exact levels _
      · rfl

/-- Setting a loop's depth before and its height after keeps the shape, if what is done in between
does.
-/
theorem above {height : Int}
    (below : SameShape (store.update ref fun loop => { loop with depth }) after)
    : SameShape store (after.update ref fun loop => { loop with height }) := by
  refine SameShape.trans ?_ (below.trans ?_)
  · exact .update (fun _ => rfl) store ref
  · exact .update (fun _ => rfl) after ref

end SameShape

------------------------------------------------------------------------------------------
-- A descent
------------------------------------------------------------------------------------------

/-- The height is the length of the longest way down. -/
def HasHeight (inner : LoopRef → List LoopRef) (ref : LoopRef) (height : Int) : Prop :=
  ∃ most : Nat, height = most ∧ IsGreatest { steps | ∃ last, Way inner steps ref last } most

/-- The height read off the loops directly inside is at least zero and one more than each of
theirs, and is reached. Witness: induction on the loops directly inside, for any height so far.
-/
theorem heightOver_spec (store : LoopStore) (refs : List LoopRef)
    : 0 ≤ store.heightOver refs
      ∧ (∀ ref ∈ refs, 1 + (store.loop ref).height ≤ store.heightOver refs)
      ∧ (store.heightOver refs = 0
        ∨ ∃ ref ∈ refs, store.heightOver refs = 1 + (store.loop ref).height) := by
  have bounds (refs : List LoopRef) (start : Int) :
      let result := refs.foldl (fun height ref => max height (1 + (store.loop ref).height)) start
      start ≤ result
      ∧ (∀ ref ∈ refs, 1 + (store.loop ref).height ≤ result)
      ∧ (result = start ∨ ∃ ref ∈ refs, result = 1 + (store.loop ref).height) := by
    induction refs generalizing start with
    | nil => simp
    | cons ref rest ih =>
        obtain ⟨above, bound, reached⟩ := ih (max start (1 + (store.loop ref).height))
        refine ⟨by simp only [List.foldl_cons]; omega, ?_, ?_⟩
        · simp only [List.foldl_cons, List.forall_mem_cons]
          exact ⟨by omega, bound⟩
        · simp only [List.foldl_cons, List.exists_mem_cons_iff]
          rcases reached with same | later
          · omega
          · exact Or.inr (Or.inr later)
  exact bounds refs 0

theorem hasHeight_heightOver
    (heights : ∀ child ∈ inner ref, HasHeight inner child (store.loop child).height)
    : HasHeight inner ref (store.heightOver (inner ref)) := by
  obtain ⟨atLeast, above, reached⟩ := store.heightOver_spec (inner ref)
  obtain ⟨most, height_eq⟩ := Int.eq_ofNat_of_zero_le atLeast
  refine ⟨most, height_eq, ?_, ?_⟩
  · rcases reached with isZero | ⟨child, listed, same⟩
    · obtain rfl : most = 0 := by omega
      exact ⟨ref, .stay ref⟩
    · obtain ⟨below, below_eq, ⟨last, way⟩, -⟩ := heights child listed
      obtain rfl : most = below + 1 := by omega
      exact ⟨last, .enter listed way⟩
  · rintro steps ⟨last, way⟩
    cases way with
    | stay => exact Nat.zero_le most
    | @enter steps _ child _ listed onward =>
        obtain ⟨below, below_eq, -, longest⟩ := heights child listed
        have := longest ⟨last, onward⟩
        have := above child listed
        omega

/-- What descents into some loops in a row leave: loops out of reach stay as they are, and the
others have their height and the length of a way down to them.
-/
structure Descended (inner : LoopRef → List LoopRef) (refs : List LoopRef) (depth : Int)
    (before after : LoopStore)
    : Prop where
  same : SameShape before after
  kept
    : ∀ other, (∀ ref ∈ refs, ¬ Reaches inner ref other)
      → after.loop other = before.loop other
  height_of
    : ∀ ref ∈ refs, ∀ other, Reaches inner ref other
      → HasHeight inner other (after.loop other).height
  depth_of
    : ∀ ref ∈ refs, ∀ other, Reaches inner ref other
      → ∃ first ∈ refs, ∃ steps,
          Way inner steps first other ∧ (after.loop other).depth = depth + steps

namespace Descended

theorem nil (inner : LoopRef → List LoopRef) (depth : Int) (store : LoopStore)
    : Descended inner [] depth store store :=
  ⟨.refl store, fun _ _ => rfl, by simp, by simp⟩

/-- A descent into one loop and then into others. Witness: a loop that the later descents reach
has its levels from them, and one that they do not reach keeps those of the first.
-/
theorem cons (first : Descended inner [ref] depth before middle)
    (rest : Descended inner refs depth middle after)
    : Descended inner (ref :: refs) depth before after := by
  have earlier {other : LoopRef} (reaches : Reaches inner ref other)
      (unreached : ¬ ∃ later ∈ refs, Reaches inner later other)
      : after.loop other = middle.loop other :=
    rest.kept other fun later listed onward => unreached ⟨later, listed, onward⟩
  refine ⟨first.same.trans rest.same, ?_, ?_, ?_⟩
  · intro other unreached
    obtain ⟨outside, outsideToo⟩ := List.forall_mem_cons.mp unreached
    rw [rest.kept other outsideToo, first.kept other (by simpa using outside)]
  · intro start listed other reaches
    by_cases again : ∃ later ∈ refs, Reaches inner later other
    · obtain ⟨later, listedToo, onward⟩ := again
      exact rest.height_of later listedToo other onward
    · rcases List.mem_cons.mp listed with rfl | listedToo
      · rw [earlier reaches again]
        exact first.height_of start (List.mem_singleton_self start) other reaches
      · exact absurd ⟨start, listedToo, reaches⟩ again
  · intro start listed other reaches
    by_cases again : ∃ later ∈ refs, Reaches inner later other
    · obtain ⟨later, listedToo, onward⟩ := again
      obtain ⟨top, listedTop, found⟩ := rest.depth_of later listedToo other onward
      exact ⟨top, List.mem_cons_of_mem ref listedTop, found⟩
    · rcases List.mem_cons.mp listed with rfl | listedToo
      · rw [earlier reaches again]
        obtain ⟨top, listedTop, found⟩ :=
          first.depth_of start (List.mem_singleton_self start) other reaches
        exact ⟨top, List.mem_cons.mpr (Or.inl (List.mem_singleton.mp listedTop)), found⟩
      · exact absurd ⟨start, listedToo, reaches⟩ again

/-- One more loop above: its depth is set before the loops directly inside it are descended into,
and its height is read off them afterwards. Witness: these descents do not come back to it.
-/
theorem above (inTable : ref < store.loops.size)
    (apart : ∀ child ∈ inner ref, ¬ Reaches inner child ref)
    (below : Descended inner (inner ref) (depth + 1)
      (store.update ref fun loop => { loop with depth }) after)
    : Descended inner [ref] depth store
        (after.update ref fun loop => { loop with height := after.heightOver (inner ref) }) := by
  have placed := loop_update inTable fun loop => { loop with depth }
  have inTableToo : ref < after.loops.size := by
    rwa [below.same.size_eq, size_update]
  have finished := loop_update inTableToo
    fun loop => { loop with height := after.heightOver (inner ref) }
  have heights : HasHeight inner ref (after.heightOver (inner ref)) :=
    hasHeight_heightOver fun child listed =>
      below.height_of child listed child .refl
  have atRef : after.loop ref = { store.loop ref with depth } := by
    rw [below.kept ref apart, placed, if_pos rfl]
  have inside {other : LoopRef} (reaches : Reaches inner ref other) (differs : other ≠ ref)
      : ∃ child ∈ inner ref, Reaches inner child other :=
    (Relation.ReflTransGen.cases_head reaches).resolve_left (Ne.symm differs)
  refine ⟨below.same.above, ?_, ?_, ?_⟩
  · intro other outside
    have outside : ¬ Reaches inner ref other := by simpa using outside
    have differs : other ≠ ref := fun same => outside (same ▸ .refl)
    rw [finished, if_neg differs, below.kept other, placed, if_neg differs]
    exact fun child listed onward => outside (.head listed onward)
  · simp only [List.forall_mem_singleton]
    intro other reaches
    rw [finished]
    by_cases differs : other = ref
    · rwa [if_pos differs, differs]
    · obtain ⟨child, listed, onward⟩ := inside reaches differs
      rw [if_neg differs]
      exact below.height_of child listed other onward
  · simp only [List.forall_mem_singleton]
    intro other reaches
    refine ⟨ref, List.mem_singleton_self ref, ?_⟩
    rw [finished]
    by_cases differs : other = ref
    · rw [if_pos differs, differs, atRef]
      exact ⟨0, .stay ref, (Int.add_zero depth).symm⟩
    · obtain ⟨child, listed, onward⟩ := inside reaches differs
      obtain ⟨first, listedFirst, steps, way, depth_eq⟩ :=
        below.depth_of child listed other onward
      rw [if_neg differs]
      exact ⟨steps + 1, .enter listedFirst way, by omega⟩

end Descended

/-- A relation between the stores before and after descents into some loops in a row. It holds of
no descent, and carries over to one descent before others and to one loop above others.
-/
structure DescentInvariant (inner : LoopRef → List LoopRef)
    (holds : List LoopRef → Int → LoopStore → LoopStore → Prop)
    : Prop where
  same : ∀ {refs depth before after}, holds refs depth before after → SameShape before after
  nil : ∀ depth store, holds [] depth store store
  cons
    : ∀ {ref refs depth before middle after},
        holds [ref] depth before middle → holds refs depth middle after
        → holds (ref :: refs) depth before after
  above
    : ∀ {ref depth store after},
        ref < store.loops.size → (∀ child ∈ inner ref, ¬ Reaches inner child ref)
        → holds (inner ref) (depth + 1) (store.update ref fun loop => { loop with depth }) after
        → holds [ref] depth store
            (after.update ref fun loop => { loop with height := after.heightOver (inner ref) })

namespace DescentInvariant

variable {holds : List LoopRef → Int → LoopStore → LoopStore → Prop} {root : LoopRef}

/-- An invariant holds of a descent with budget for every way down. Witness: induction on the
budget, and within it on the loops directly inside.
-/
theorem of_descend (invariant : DescentInvariant inner holds) (budget : Nat)
    (inner_eq : store.inner forest = inner) (acyclic : Acyclic inner ref)
    (inTable : ∀ other, Reaches inner ref other → other < store.loops.size)
    (enough : ∀ steps last, Way inner steps ref last → steps < budget)
    : holds [ref] depth store (descend forest budget ref depth store) := by
  induction budget generalizing ref depth store with
  | zero => exact absurd (enough 0 ref (.stay ref)) (Nat.not_lt_zero 0)
  | succ budget ih =>
      -- The descents into the loops directly inside run on stores of one shape.
      have inside (refs : List LoopRef) (listed : ∀ child ∈ refs, child ∈ inner ref)
          (start : LoopStore) (shape : SameShape store start)
          : holds refs (depth + 1) start
              (refs.foldl (fun store child => descend forest budget child (depth + 1) store)
                start) := by
        induction refs generalizing start with
        | nil => exact invariant.nil (depth + 1) start
        | cons child rest ihRest =>
            obtain ⟨here, later⟩ := List.forall_mem_cons.mp listed
            have step : Reaches inner ref child := .single here
            have first : holds [child] (depth + 1) start
                (descend forest budget child (depth + 1) start) := by
              apply ih
              · rw [shape.inner_eq, inner_eq]
              · exact acyclic.below step
              · intro other onward
                rw [shape.size_eq]
                exact inTable other (step.trans onward)
              · intro steps last way
                exact Nat.lt_of_succ_lt_succ (enough (steps + 1) last (.enter here way))
            exact invariant.cons first (ihRest later _ (shape.trans (invariant.same first)))
      have placed : SameShape store (store.update ref fun loop => { loop with depth }) :=
        .update (fun _ => rfl) store ref
      have below := inside (inner ref) (fun _ listed => listed) _ placed
      rw [descend]
      simp only [placed.inner_eq, inner_eq, (placed.trans (invariant.same below)).inner_eq]
      exact invariant.above (inTable ref .refl) (acyclic ref .refl) below

/-- Once the loops are grafted, a descent needs no more budget than there are loops. -/
theorem of_graftAll (invariant : DescentInvariant inner holds) {budget : Nat}
    (fits : store.loops.size ≤ budget) (inner_eq : (store.graftAll forest).inner forest = inner)
    (acyclic : Acyclic inner root)
    (inTable : ∀ other, Reaches inner root other → other < store.loops.size)
    : holds [root] 0 (store.graftAll forest)
        (descend forest budget root 0 (store.graftAll forest)) := by
  apply invariant.of_descend budget inner_eq acyclic
  · intro other reaches
    rw [size_graftAll]
    exact inTable other reaches
  · intro steps last way
    exact Nat.lt_of_lt_of_le (acyclic.steps_lt inTable way) fits

/-- An invariant holds of assigning levels to loops nested without a circle. -/
theorem of_assignLevels (invariant : DescentInvariant inner holds)
    (inner_eq : (store.graftAll forest).inner forest = inner)
    (root_eq : (store.forest forest).root = root) (acyclic : Acyclic inner root)
    (inTable : ∀ other, Reaches inner root other → other < store.loops.size)
    : holds [root] 0 (store.graftAll forest) (store.assignLevels forest) := by
  rw [assignLevels, forest_graftAll, root_eq, size_graftAll]
  exact invariant.of_graftAll (Nat.le_succ _) inner_eq acyclic inTable

end DescentInvariant

theorem Descended.invariant (inner : LoopRef → List LoopRef)
    : DescentInvariant inner (Descended inner) :=
  ⟨Descended.same, .nil inner, Descended.cons, Descended.above⟩

------------------------------------------------------------------------------------------
-- The same descent from a stack
------------------------------------------------------------------------------------------

/-- What is to be done for the levels of a loop: to enter it at a depth, or to finish it. -/
inductive LevelTask where
  | enter (ref : LoopRef) (depth : Int)
  | finish (ref : LoopRef)

/-- Takes the first task off a stack. A loop that is entered gets its depth, and the loops directly
inside it are entered before it is finished; a loop that is finished gets its height.
-/
def levelStep? (forest : ForestRef)
    : LoopStore × List LevelTask → Option (LoopStore × List LevelTask)
  | (_, []) => none
  | (store, .enter ref depth :: rest) =>
      let placed := store.update ref fun loop => { loop with depth }
      some (placed,
        (placed.inner forest ref).map (.enter · (depth + 1)) ++ .finish ref :: rest)
  | (store, .finish ref :: rest) =>
      let height := store.heightOver (store.inner forest ref)
      some (store.update ref fun loop => { loop with height }, rest)

/-- Tasks to enter some loops in a row are worked off, whatever is below them on the stack. -/
structure WorkedOff (forest : ForestRef) (inner : LoopRef → List LoopRef) (refs : List LoopRef)
    (depth : Int) (before after : LoopStore)
    : Prop where
  same : SameShape before after
  reaches
    : before.inner forest = inner
      → ∀ rest,
          StateTransition.Reaches (levelStep? forest)
            (before, refs.map (.enter · depth) ++ rest) (after, rest)

namespace WorkedOff

theorem nil (forest : ForestRef) (inner : LoopRef → List LoopRef) (depth : Int)
    (store : LoopStore)
    : WorkedOff forest inner [] depth store store :=
  ⟨.refl store, fun _ _ => .refl⟩

theorem cons (first : WorkedOff forest inner [ref] depth before middle)
    (rest : WorkedOff forest inner refs depth middle after)
    : WorkedOff forest inner (ref :: refs) depth before after := by
  refine ⟨first.same.trans rest.same, ?_⟩
  intro inner_eq below
  have onward := rest.reaches ((first.same.inner_eq forest).trans inner_eq) below
  exact (first.reaches inner_eq _).trans onward

/-- One more loop above: it is entered, the tasks for the loops directly inside it are worked off,
and it is finished.
-/
theorem above
    (below : WorkedOff forest inner (inner ref) (depth + 1)
      (store.update ref fun loop => { loop with depth }) after)
    : WorkedOff forest inner [ref] depth store
        (after.update ref fun loop => { loop with height := after.heightOver (inner ref) }) := by
  refine ⟨below.same.above, ?_⟩
  intro inner_eq rest
  have placed : SameShape store (store.update ref fun loop => { loop with depth }) :=
    .update (fun _ => rfl) store ref
  have placed_inner := (placed.inner_eq forest).trans inner_eq
  have after_inner := (below.same.inner_eq forest).trans placed_inner
  have entered
      : levelStep? forest (store, .enter ref depth :: rest)
        = some (store.update ref fun loop => { loop with depth },
            (inner ref).map (.enter · (depth + 1)) ++ .finish ref :: rest) := by
    rw [levelStep?, placed_inner]
  have finished
      : levelStep? forest (after, .finish ref :: rest)
        = some (after.update ref fun loop =>
            { loop with height := after.heightOver (inner ref) }, rest) := by
    rw [levelStep?, after_inner]
  exact .head entered ((below.reaches placed_inner (.finish ref :: rest)).tail finished)

theorem invariant (forest : ForestRef) (inner : LoopRef → List LoopRef)
    : DescentInvariant inner (WorkedOff forest inner) :=
  ⟨WorkedOff.same, .nil forest inner, WorkedOff.cons, fun _ _ => WorkedOff.above⟩

end WorkedOff

/-- Working off the task to enter the root comes to an end, and leaves the levels assigned. Witness:
a descent with enough budget does the same in the same order.
-/
theorem mem_eval_levelStep? {root : LoopRef}
    (inner_eq : (store.graftAll forest).inner forest = inner)
    (root_eq : (store.forest forest).root = root) (acyclic : Acyclic inner root)
    (inTable : ∀ other, Reaches inner root other → other < store.loops.size)
    : (store.assignLevels forest, [])
      ∈ StateTransition.eval (levelStep? forest) (store.graftAll forest, [.enter root 0]) := by
  have workedOff :=
    (WorkedOff.invariant forest inner).of_assignLevels inner_eq root_eq acyclic inTable
  exact StateTransition.mem_eval.mpr ⟨workedOff.reaches inner_eq [], rfl⟩

------------------------------------------------------------------------------------------
-- Well-formed forests
------------------------------------------------------------------------------------------

/-- Grafting changes nothing once all stored loops but the root have a parent. -/
theorem graftAll_eq_self
    (hung : ∀ ref ∈ (store.forest forest).loops, ref ≠ (store.forest forest).root
      → ref < store.loops.size → (store.loop ref).parent ≠ none)
    : store.graftAll forest = store := by
  refine List.foldlRecOn (motive := fun (after : LoopStore) => after = store) _ _ rfl ?_
  rintro after rfl ref listed
  rw [graft]
  split
  · next orphan =>
      cases Nat.lt_or_ge ref after.loops.size with
      | inr past => exact update_of_ge past _
      | inl inTable =>
          exact absurd (Option.isNone_iff_eq_none.mp orphan.1)
            (hung ref (Array.mem_toList_iff.mp listed) orphan.2 inTable)
  · rfl

theorem Hung.graftAll_eq (hung : store.Hung forest) : store.graftAll forest = store :=
  graftAll_eq_self fun ref listed notRoot _ => hung.parent_ne ref listed notRoot

namespace WellFormed

theorem of_sameShape (formed : before.WellFormed forest) (same : SameShape before after)
    : after.WellFormed forest := by
  refine ⟨?_, ?_, ?_, ?_, ?_, ?_, ?_, ?_, ?_⟩ <;>
    simp only [same.forest_eq, same.size_eq, same.parent_eq, same.children_eq, same.counter_eq,
      same.header_eq, same.blocks_eq]
  · exact formed.listed_lt
  · exact formed.root_first
  · exact formed.counter_eq
  · exact formed.nextCounter_eq
  · exact formed.root_parent
  · exact formed.root_children
  · exact formed.header_first
  · exact formed.parent_later
  · exact formed.mem_children_iff

theorem mem_inner_iff (formed : store.WellFormed forest)
    (stored : ref ∈ (store.forest forest).loops)
    : child ∈ store.inner forest ref
      ↔ child ∈ (store.forest forest).loops ∧ (store.loop child).parent = some ref := by
  rw [LoopStore.inner]
  split
  · next isRoot => simp [isRoot]
  · next notRoot => simp [formed.mem_children_iff ref stored notRoot]

theorem mem_of_reaches (formed : store.WellFormed forest)
    (stored : ref ∈ (store.forest forest).loops) (reaches : Reaches (store.inner forest) ref last)
    : last ∈ (store.forest forest).loops := by
  induction reaches with
  | refl => exact stored
  | tail _ listed ih => exact ((formed.mem_inner_iff ih).mp listed).1

/-- Below a loop other than the root there are no others than such, and each has a smaller
counter than the one around it.
-/
theorem counter_of_way (formed : store.WellFormed forest)
    (stored : ref ∈ (store.forest forest).loops) (notRoot : ref ≠ (store.forest forest).root)
    (way : Way (store.inner forest) steps ref last)
    : last ≠ (store.forest forest).root
      ∧ (store.loop last).counter + steps ≤ (store.loop ref).counter := by
  induction way with
  | stay ref => exact ⟨notRoot, by simp⟩
  | @enter steps ref child last listed _ ih =>
      obtain ⟨storedToo, hasParent⟩ := (formed.mem_inner_iff stored).mp listed
      have childNotRoot := formed.ne_root_of_parent hasParent
      obtain ⟨lastNotRoot, fewer⟩ := ih storedToo childNotRoot
      obtain ⟨parent, -, hasParentToo, later⟩ :=
        formed.parent_later child storedToo childNotRoot
      obtain rfl := Option.some.inj (hasParent.symm.trans hasParentToo)
      have smaller := later.resolve_left notRoot
      exact ⟨lastNotRoot, by push_cast; omega⟩

theorem acyclic (formed : store.WellFormed forest) (stored : ref ∈ (store.forest forest).loops)
    : Acyclic (store.inner forest) ref := by
  intro outer reaches child listed back
  obtain ⟨steps, way⟩ := back.exists_way
  have outerStored := formed.mem_of_reaches stored reaches
  obtain ⟨childStored, hasParent⟩ := (formed.mem_inner_iff outerStored).mp listed
  have notRoot :=
    (formed.counter_of_way childStored (formed.ne_root_of_parent hasParent) way).1
  have smaller := (formed.counter_of_way outerStored notRoot (.enter listed way)).2
  push_cast at smaller
  omega

theorem root_reaches (formed : store.WellFormed forest)
    (stored : ref ∈ (store.forest forest).loops)
    : Reaches (store.inner forest) (store.forest forest).root ref := by
  have upward := formed.reaches_root stored
  induction upward using Relation.ReflTransGen.head_induction_on with
  | refl => exact .refl
  | @head child parent hasParent _ ih =>
      have outerStored := formed.parent_mem stored hasParent
      have listed := (formed.mem_inner_iff outerStored).mpr ⟨stored, hasParent⟩
      exact (ih outerStored).tail listed

/-- Assigning levels in a well-formed forest. -/
theorem descended (formed : store.WellFormed forest)
    : Descended (store.inner forest) [(store.forest forest).root] 0 store
        (store.assignLevels forest) := by
  have unmoved := formed.hung.graftAll_eq
  have levels := (Descended.invariant _).of_assignLevels
    (congrArg (LoopStore.inner · forest) unmoved) rfl (formed.acyclic formed.root_mem)
    fun other reaches => formed.listed_lt other (formed.mem_of_reaches formed.root_mem reaches)
  rwa [unmoved] at levels

end WellFormed

end LoopStore

end LoopNest
