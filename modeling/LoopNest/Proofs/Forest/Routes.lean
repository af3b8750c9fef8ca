import LoopNest.Proofs.Forest.Levels
import Mathlib.Data.List.Lex

/-! Levels of loops that several ways lead to. A descent comes by each of them in the order of the
loops directly inside, so a loop keeps the depth of the last one.
-/

namespace LoopNest

/-- A way down, told by places: at each step the place, among the loops directly inside, of the
loop entered.
-/
inductive Route (inner : LoopRef → List LoopRef) : (places : List Nat) → LoopRef → LoopRef → Prop
  | stay (ref : LoopRef) : Route inner [] ref ref
  | enter {place : Nat} {places : List Nat} {ref child last : LoopRef}
    (here : (inner ref)[place]? = some child) (onward : Route inner places child last)
    : Route inner (place :: places) ref last

/-- Routes to a loop that begin by picking one of some loops, told by its place too. -/
def routesInto (inner : LoopRef → List LoopRef) (refs : List LoopRef) (last : LoopRef)
    : Set (List Nat) :=
  { path | ∃ place places first, path = place :: places ∧ refs[place]? = some first
    ∧ Route inner places first last }

variable {inner : LoopRef → List LoopRef} {place : Nat} {places : List Nat} {refs : List LoopRef}
  {ref child last other root : LoopRef}

/-- Paths compare by their first places, and then by the rest. -/
theorem cons_le_cons_iff {place placeToo : Nat} {places placesToo : List Nat}
    : place :: places ≤ placeToo :: placesToo
      ↔ place < placeToo ∨ place = placeToo ∧ places ≤ placesToo := by
  rw [le_iff_lt_or_eq, le_iff_lt_or_eq, List.cons_lt_cons_iff, List.cons.injEq, or_assoc,
    ← and_or_left]

namespace Route

theorem way (route : Route inner places ref last) : Way inner places.length ref last := by
  induction route with
  | stay ref => exact .stay ref
  | enter here _ ih => exact .enter (List.mem_of_getElem? here) ih

theorem reaches (route : Route inner places ref last) : Reaches inner ref last :=
  route.way.reaches

end Route

/-- Outside a circle only the empty route leads from a loop to itself. -/
theorem route_self_iff (apart : ∀ child ∈ inner ref, ¬ Reaches inner child ref)
    : Route inner places ref ref ↔ places = [] := by
  constructor
  · intro route
    cases route with
    | stay => rfl
    | enter here onward => exact absurd onward.reaches (apart _ (List.mem_of_getElem? here))
  · rintro rfl
    exact .stay ref

/-- Where one loop is directly inside, every route to another begins with it. -/
theorem route_iff_of_single (single : inner ref = [child]) (differs : last ≠ ref)
    : Route inner places ref last ↔ ∃ rest, places = 0 :: rest ∧ Route inner rest child last := by
  constructor
  · intro route
    cases route with
    | stay => exact absurd rfl differs
    | @enter place rest _ first _ here onward =>
        obtain ⟨rfl, rfl⟩ : place = 0 ∧ child = first := by
          simpa [single, List.getElem?_singleton] using here
        exact ⟨rest, rfl, onward⟩
  · rintro ⟨rest, rfl, onward⟩
    exact .enter (by rw [single, List.getElem?_cons_zero]) onward

theorem reaches_of_routesInto (into : places ∈ routesInto inner refs last)
    : ∃ first ∈ refs, Reaches inner first last := by
  obtain ⟨place, rest, first, -, here, onward⟩ := into
  exact ⟨first, List.mem_of_getElem? here, onward.reaches⟩

theorem zero_cons_mem_routesInto
    : 0 :: places ∈ routesInto inner (ref :: refs) last ↔ Route inner places ref last := by
  simp [routesInto]

theorem succ_cons_mem_routesInto
    : (place + 1) :: places ∈ routesInto inner (ref :: refs) last
      ↔ place :: places ∈ routesInto inner refs last := by
  simp [routesInto]

theorem nil_not_mem_routesInto : [] ∉ routesInto inner refs last := by
  simp [routesInto]

/-- Routes to another loop begin by picking one of the loops directly inside. -/
theorem mem_routesInto_inner (differs : last ≠ ref)
    : places ∈ routesInto inner (inner ref) last ↔ Route inner places ref last := by
  constructor
  · rintro ⟨place, places, first, rfl, here, onward⟩
    exact .enter here onward
  · intro route
    cases route with
    | stay => exact absurd rfl differs
    | enter here onward => exact ⟨_, _, _, rfl, here, onward⟩

/-- The last route into some loops is the last one of all, one place later, with a loop in front. -/
theorem isGreatest_cons_of_rest
    (greatest : IsGreatest (routesInto inner refs last) (place :: places))
    : IsGreatest (routesInto inner (ref :: refs) last) ((place + 1) :: places) := by
  refine ⟨succ_cons_mem_routesInto.mpr greatest.1, ?_⟩
  rintro (_ | ⟨_ | earlier, rest⟩) into
  · exact absurd into nil_not_mem_routesInto
  · exact cons_le_cons_iff.mpr (Or.inl place.succ_pos)
  · have bound := cons_le_cons_iff.mp (greatest.2 (succ_cons_mem_routesInto.mp into))
    exact cons_le_cons_iff.mpr (bound.imp Nat.succ_lt_succ (And.imp_left (congrArg (· + 1))))

/-- Where no later loop leads, the last route is the last one from the first loop. -/
theorem isGreatest_cons_of_first (unreached : ¬ ∃ later ∈ refs, Reaches inner later last)
    : IsGreatest (routesInto inner (ref :: refs) last) (0 :: places)
      ↔ IsGreatest { places | Route inner places ref last } places := by
  constructor
  · rintro ⟨into, bound⟩
    refine ⟨zero_cons_mem_routesInto.mp into, fun rest route => ?_⟩
    have below := cons_le_cons_iff.mp (bound (zero_cons_mem_routesInto.mpr route))
    exact (below.resolve_left (Nat.lt_irrefl 0)).2
  · rintro ⟨route, bound⟩
    refine ⟨zero_cons_mem_routesInto.mpr route, ?_⟩
    rintro (_ | ⟨_ | later, rest⟩) into
    · exact absurd into nil_not_mem_routesInto
    · exact cons_le_cons_iff.mpr (Or.inr ⟨rfl, bound (zero_cons_mem_routesInto.mp into)⟩)
    · exact absurd (reaches_of_routesInto (succ_cons_mem_routesInto.mp into)) unreached

namespace LoopStore

variable {store before middle after afterToo : LoopStore} {forest : ForestRef} {depth : Int}

------------------------------------------------------------------------------------------
-- Depths
------------------------------------------------------------------------------------------

/-- What descents into some loops in a row leave: the depth of each loop in reach is told by the
last route into them.
-/
structure Placed (inner : LoopRef → List LoopRef) (refs : List LoopRef) (depth : Int)
    (before after : LoopStore)
    : Prop
    extends Descended inner refs depth before after where
  last_of
    : ∀ ref ∈ refs, ∀ other, Reaches inner ref other
      → ∃ place places,
          IsGreatest (routesInto inner refs other) (place :: places)
          ∧ (after.loop other).depth = depth + places.length

namespace Placed

theorem nil (inner : LoopRef → List LoopRef) (depth : Int) (store : LoopStore)
    : Placed inner [] depth store store :=
  ⟨.nil inner depth store, by simp⟩

theorem last_route (placed : Placed inner [ref] depth before after)
    (reaches : Reaches inner ref other)
    : ∃ places,
        IsGreatest { places | Route inner places ref other } places
        ∧ (after.loop other).depth = depth + places.length := by
  have unreached : ¬ ∃ later ∈ [], Reaches inner later other := by simp
  obtain ⟨_ | place, places, greatest, depth_eq⟩ :=
    placed.last_of ref (List.mem_singleton_self ref) other reaches
  · exact ⟨places, (isGreatest_cons_of_first unreached).mp greatest, depth_eq⟩
  · exact absurd (reaches_of_routesInto (succ_cons_mem_routesInto.mp greatest.1)) unreached

/-- A descent into one loop and then into others. Witness: a route into the others is later than
any route into the first.
-/
theorem cons (first : Placed inner [ref] depth before middle)
    (rest : Placed inner refs depth middle after)
    : Placed inner (ref :: refs) depth before after := by
  refine ⟨first.toDescended.cons rest.toDescended, ?_⟩
  intro start listed other reaches
  by_cases again : ∃ later ∈ refs, Reaches inner later other
  · obtain ⟨later, listedToo, onward⟩ := again
    obtain ⟨place, places, greatest, depth_eq⟩ := rest.last_of later listedToo other onward
    exact ⟨place + 1, places, isGreatest_cons_of_rest greatest, depth_eq⟩
  · rcases List.mem_cons.mp listed with rfl | listedToo
    · obtain ⟨places, greatest, depth_eq⟩ := first.last_route reaches
      refine ⟨0, places, (isGreatest_cons_of_first again).mpr greatest, ?_⟩
      rwa [rest.kept other fun later listed onward => again ⟨later, listed, onward⟩]
    · exact absurd ⟨start, listedToo, reaches⟩ again

/-- One more loop above. Witness: only the empty route leads to the loop itself, and a route to
another goes on with one into the loops directly inside.
-/
theorem above (inTable : ref < store.loops.size)
    (apart : ∀ child ∈ inner ref, ¬ Reaches inner child ref)
    (below : Placed inner (inner ref) (depth + 1)
      (store.update ref fun loop => { loop with depth }) after)
    : Placed inner [ref] depth store
        (after.update ref fun loop => { loop with height := after.heightOver (inner ref) }) := by
  have inTableToo : ref < after.loops.size := by
    rwa [below.same.size_eq, size_update]
  have finished := loop_update inTableToo
    fun loop => { loop with height := after.heightOver (inner ref) }
  refine ⟨below.toDescended.above inTable apart, ?_⟩
  simp only [List.forall_mem_singleton]
  intro other reaches
  have unreached : ¬ ∃ later ∈ [], Reaches inner later other := by simp
  rw [finished]
  by_cases differs : other = ref
  · subst differs
    refine ⟨0, [], (isGreatest_cons_of_first unreached).mpr ?_, ?_⟩
    · simp only [route_self_iff apart]
      exact isGreatest_singleton
    · rw [if_pos rfl, below.kept other apart, loop_update inTable, if_pos rfl]
      exact (Int.add_zero depth).symm
  · obtain ⟨child, listed, onward⟩ :=
      (Relation.ReflTransGen.cases_head reaches).resolve_left (Ne.symm differs)
    obtain ⟨place, places, greatest, depth_eq⟩ := below.last_of child listed other onward
    refine ⟨0, place :: places, (isGreatest_cons_of_first unreached).mpr ?_, ?_⟩
    · have same : routesInto inner (inner ref) other = { places | Route inner places ref other } :=
        Set.ext fun places => mem_routesInto_inner differs
      rwa [← same]
    · rw [if_neg differs, depth_eq, List.length_cons]
      push_cast
      omega

theorem invariant (inner : LoopRef → List LoopRef) : DescentInvariant inner (Placed inner) :=
  ⟨fun placed => placed.same, .nil inner, Placed.cons, Placed.above⟩

end Placed

------------------------------------------------------------------------------------------
-- Levels are determined
------------------------------------------------------------------------------------------

theorem HasHeight.unique {height heightToo : Int} (first : HasHeight inner ref height)
    (second : HasHeight inner ref heightToo)
    : height = heightToo := by
  obtain ⟨most, rfl, greatest⟩ := first
  obtain ⟨mostToo, rfl, greatestToo⟩ := second
  rw [greatest.unique greatestToo]

theorem eq_of_loop_eq (forests_eq : after.forests = before.forests)
    (size_eq : after.loops.size = before.loops.size)
    (loop_eq : ∀ ref, after.loop ref = before.loop ref)
    : after = before := by
  have loops_eq : after.loops = before.loops := by
    refine Array.ext size_eq fun ref known knownToo => ?_
    simpa [loop, known, knownToo] using loop_eq ref
  cases after
  cases before
  cases forests_eq
  cases loops_eq
  rfl

/-- A descent has one outcome. Witness: a loop in reach has one height and one last route. -/
theorem Placed.unique (first : Placed inner [ref] depth before after)
    (second : Placed inner [ref] depth before afterToo)
    : after = afterToo := by
  have here := List.mem_singleton_self ref
  apply eq_of_loop_eq
  · rw [first.same.forests_eq, second.same.forests_eq]
  · rw [first.same.size_eq, second.same.size_eq]
  · intro other
    by_cases reaches : Reaches inner ref other
    · have height_eq := (first.height_of ref here other reaches).unique
        (second.height_of ref here other reaches)
      obtain ⟨places, greatest, depth_eq⟩ := first.last_route reaches
      obtain ⟨placesToo, greatestToo, depth_eq_too⟩ := second.last_route reaches
      obtain rfl := greatest.unique greatestToo
      rw [first.same.loop_eq, second.same.loop_eq, height_eq, depth_eq, depth_eq_too]
    · have outside : ∀ first ∈ [ref], ¬ Reaches inner first other := by simpa using reaches
      rw [first.kept other outside, second.kept other outside]

/-- Levels that are in place stay in place. -/
theorem Placed.again (placed : Placed inner refs depth before after)
    : Placed inner refs depth after after :=
  ⟨⟨.refl after, fun _ _ => rfl, placed.height_of, placed.depth_of⟩, placed.last_of⟩

/-- Grafting leaves no orphan in the forest, whatever levels are assigned then. -/
theorem SameShape.graftAll_eq (same : SameShape (store.graftAll forest) after)
    : after.graftAll forest = after := by
  apply graftAll_eq_self
  intro ref listed notRoot inTable
  rw [same.forest_eq, forest_graftAll] at listed notRoot
  rw [same.size_eq, size_graftAll] at inTable
  rw [same.parent_eq, graftAll, loop_foldl_graft]
  split
  · simp
  · next unfit =>
      intro orphan
      exact unfit ⟨Array.mem_toList_iff.mpr listed, inTable, notRoot, orphan⟩

------------------------------------------------------------------------------------------
-- Parent chains
------------------------------------------------------------------------------------------

/-- So many links lead up from a loop to the root, each to the parent. -/
inductive ParentChain (store : LoopStore) (root : LoopRef) : (length : Nat) → LoopRef → Prop
  | top : ParentChain store root 0 root
  | up {length : Nat} {ref parent : LoopRef} (notRoot : ref ≠ root)
    (hasParent : (store.loop ref).parent = some parent)
    (onward : ParentChain store root length parent)
    : ParentChain store root (length + 1) ref

theorem ParentChain.unique {length lengthToo : Nat} (first : ParentChain store root length ref)
    (second : ParentChain store root lengthToo ref)
    : length = lengthToo := by
  induction first generalizing lengthToo with
  | top =>
      cases second with
      | top => rfl
      | up notRoot => exact absurd rfl notRoot
  | up notRoot hasParent _ ih =>
      cases second with
      | top => exact absurd rfl notRoot
      | up _ hasParentToo onward =>
          obtain rfl := Option.some.inj (hasParent.symm.trans hasParentToo)
          rw [ih onward]

/-- On every way to the loop each step leads from a parent to a loop that it is the parent of. -/
def ParentsLead (inner : LoopRef → List LoopRef) (root : LoopRef) (store : LoopStore)
    (ref : LoopRef)
    : Prop :=
  ∀ outer, Reaches inner root outer → ∀ child ∈ inner outer, Reaches inner child ref
    → (store.loop child).parent = some outer

theorem ParentsLead.chain {steps : Nat} (lead : ParentsLead inner root store ref)
    (acyclic : Acyclic inner root) (way : Way inner steps root ref)
    : ParentChain store root steps ref := by
  induction steps generalizing ref with
  | zero =>
      obtain rfl := Way.zero_iff.mp way
      exact .top
  | succ steps ih =>
      obtain ⟨outer, above, listed⟩ := Way.succ_iff_last.mp way
      have notRoot : ref ≠ root := by
        rintro rfl
        exact acyclic outer above.reaches ref listed above.reaches
      refine .up notRoot (lead outer above.reaches ref listed .refl) ?_
      apply ih _ above
      intro first reaches child listedToo onward
      exact lead first reaches child listedToo (onward.tail listed)

------------------------------------------------------------------------------------------
-- Assigning levels
------------------------------------------------------------------------------------------

/-- The levels that the ways down from the root give, where nothing else changes. -/
structure Leveled (inner : LoopRef → List LoopRef) (root : LoopRef) (before after : LoopStore)
    : Prop where
  same : SameShape before after
  kept : ∀ ref, ¬ Reaches inner root ref → after.loop ref = before.loop ref
  height_of : ∀ ref, Reaches inner root ref → HasHeight inner ref (after.loop ref).height
  depth_of
    : ∀ ref, Reaches inner root ref
      → ∃ places,
          IsGreatest { places | Route inner places root ref } places
          ∧ (after.loop ref).depth = places.length
  chain_iff
    : ∀ ref, Reaches inner root ref → ParentsLead inner root after ref
      → ∀ length : Nat, ParentChain after root length ref ↔ (after.loop ref).depth = length

theorem Placed.leveled (placed : Placed inner [root] 0 before after)
    (acyclic : Acyclic inner root)
    : Leveled inner root before after := by
  have here := List.mem_singleton_self root
  have depth_of (ref : LoopRef) (reaches : Reaches inner root ref)
      : ∃ places,
          IsGreatest { places | Route inner places root ref } places
          ∧ (after.loop ref).depth = places.length := by
    simpa using placed.last_route reaches
  refine ⟨placed.same, ?_, placed.height_of root here, depth_of, ?_⟩
  · exact fun ref outside => placed.kept ref (by simpa using outside)
  · intro ref reaches lead length
    obtain ⟨places, greatest, depth_eq⟩ := depth_of ref reaches
    have chain := lead.chain acyclic greatest.1.way
    constructor
    · intro chainToo
      rw [depth_eq, chain.unique chainToo]
    · intro same
      obtain rfl : places.length = length := by omega
      exact chain

/-- The stored loops without parent, the root apart, hang below the root, and nothing else
changes.
-/
structure Grafted (forest : ForestRef) (before after : LoopStore) : Prop where
  forests_eq : after.forests = before.forests
  size_eq : after.loops.size = before.loops.size
  loop_eq
    : ∀ ref,
        after.loop ref
          = if ref ∈ (before.forest forest).loops.toList ∧ ref < before.loops.size
                ∧ ref ≠ (before.forest forest).root ∧ (before.loop ref).parent = none
            then { before.loop ref with parent := some (before.forest forest).root }
            else before.loop ref

theorem grafted_graftAll (store : LoopStore) (forest : ForestRef)
    : Grafted forest store (store.graftAll forest) :=
  ⟨forests_graftAll store forest, size_graftAll store forest,
    loop_foldl_graft store (store.forest forest).loops.toList (store.forest forest).root⟩

/-- Assigning levels a second time. Witness: the first time leaves no orphan and all levels in
place.
-/
theorem Placed.assignLevels_eq (placed : Placed inner [root] 0 (store.graftAll forest) after)
    (inner_eq : (store.graftAll forest).inner forest = inner)
    (root_eq : (store.forest forest).root = root) (acyclic : Acyclic inner root)
    (inTable : ∀ ref, Reaches inner root ref → ref < store.loops.size)
    : after.assignLevels forest = after := by
  have unmoved := placed.same.graftAll_eq
  have second : Placed inner [root] 0 (after.graftAll forest) (after.assignLevels forest) := by
    apply (Placed.invariant inner).of_assignLevels _ _ acyclic
    · rwa [placed.same.size_eq, size_graftAll]
    · rw [unmoved, placed.same.inner_eq, inner_eq]
    · rw [placed.same.forest_eq, forest_graftAll, root_eq]
  rw [unmoved] at second
  exact second.unique placed.again

/-- Assigning levels to loops nested without a circle below the root, whatever levels they had:
each loop in reach gets the length of the longest way down from it as its height, and that of the
last route to it as its depth, which counts its chain of parents where these lead along its ways.
Loops out of reach keep their levels. Working off a stack of tasks comes to an end and leaves the
same, as does a descent with budget for as many steps as there are loops, and assigning levels once
more changes nothing.
-/
theorem assignLevels_leveled
    (acyclic : Acyclic ((store.graftAll forest).inner forest) (store.forest forest).root)
    (inTable
      : ∀ ref, Reaches ((store.graftAll forest).inner forest) (store.forest forest).root ref
        → ref < store.loops.size)
    : Grafted forest store (store.graftAll forest)
      ∧ Leveled ((store.graftAll forest).inner forest) (store.forest forest).root
          (store.graftAll forest) (store.assignLevels forest)
      ∧ (store.assignLevels forest, [])
        ∈ StateTransition.eval (levelStep? forest)
            (store.graftAll forest, [.enter (store.forest forest).root 0])
      ∧ (∀ budget, store.loops.size ≤ budget
        → descend forest budget (store.forest forest).root 0 (store.graftAll forest)
          = store.assignLevels forest)
      ∧ (store.assignLevels forest).assignLevels forest = store.assignLevels forest := by
  have placed := (Placed.invariant _).of_assignLevels rfl rfl acyclic inTable
  refine ⟨grafted_graftAll store forest, placed.leveled acyclic,
    mem_eval_levelStep? rfl rfl acyclic inTable, ?_, ?_⟩
  · intro budget fits
    exact ((Placed.invariant _).of_graftAll fits rfl acyclic inTable).unique placed
  · exact placed.assignLevels_eq rfl rfl acyclic inTable

/-- Two ways lead to the last loop, which no forest stores: a longer one over a sibling and then a
shorter one. The loop around them is stored twice, and levels are left from before.
-/
def crossedLoops : LoopStore where
  loops := #[{ counter := 0, synthetic := true, depth := 5 },
    { counter := 1, children := #[2, 3], height := 9 },
    { counter := 2, children := #[3], parent := some 1 }, { counter := 3, depth := 7 }]
  forests := #[{ root := 0, loops := #[0, 1, 1], nextCounter := 4 }]

/-- Crossed loops get the depth of their last route. Witness: each loop stands in the table before
the loops directly inside it, so there is no circle.
-/
theorem assignLevels_leveled_crossed
    : Leveled ((crossedLoops.graftAll 0).inner 0) 0 (crossedLoops.graftAll 0)
        (crossedLoops.assignLevels 0)
      ∧ (crossedLoops.assignLevels 0, [])
        ∈ StateTransition.eval (levelStep? 0) (crossedLoops.graftAll 0, [.enter 0 0])
      ∧ ((crossedLoops.assignLevels 0).loop 0).height = 3
      ∧ ((crossedLoops.assignLevels 0).loop 3).depth = 2
      ∧ ParentsLead ((crossedLoops.graftAll 0).inner 0) 0 (crossedLoops.assignLevels 0) 2
      ∧ ParentChain (crossedLoops.assignLevels 0) 0 2 2
      ∧ (crossedLoops.assignLevels 0).assignLevels 0 = crossedLoops.assignLevels 0 := by
  have later : ∀ outer < 4, ∀ child ∈ (crossedLoops.graftAll 0).inner 0 outer,
      outer < child ∧ child < 4 := by
    decide +kernel
  obtain ⟨acyclic, inTable⟩ := acyclic_of_later later (by decide : 0 < 4)
  obtain ⟨-, leveled, halts, -, again⟩ := @assignLevels_leveled crossedLoops 0 acyclic inTable
  have lead
      : ParentsLead ((crossedLoops.graftAll 0).inner 0) 0 (crossedLoops.assignLevels 0) 2 := by
    intro outer reaches child listed onward
    have agree : ∀ outer < 4, ∀ child ∈ (crossedLoops.graftAll 0).inner 0 outer,
        child ≠ 3 → ((crossedLoops.assignLevels 0).loop child).parent = some outer := by
      decide +kernel
    apply agree outer (inTable outer reaches) child listed
    rintro rfl
    have atLast : (crossedLoops.graftAll 0).inner 0 3 = [] := by decide +kernel
    rcases Relation.ReflTransGen.cases_head onward with same | ⟨child, listed, -⟩
    · cases same
    · rw [atLast] at listed
      cases listed
  have reaches : Reaches ((crossedLoops.graftAll 0).inner 0) 0 2 :=
    .head (by decide +kernel : 1 ∈ _) (.single (by decide +kernel : 2 ∈ _))
  have chain := (leveled.chain_iff 2 reaches lead 2).mpr (by decide +kernel)
  exact ⟨leveled, halts, by decide +kernel, by decide +kernel, lead, chain, again⟩

/-- The last loop is a child of the one loop stored, but was hung below the root, in no forest. -/
def misledLoops : LoopStore :=
  let store := (({} : LoopStore).addForest.1.newLoop 0).1.storeLoop 0 1
  ((store.newLoop 0).1.nest 2 0).addChild 1 2

/-- A loop with a single route to it whose depth is not the length of its chain of parents. -/
theorem depth_ne_chain_of_single_route
    : Acyclic ((misledLoops.graftAll 0).inner 0) 0
      ∧ (∀ ref, Reaches ((misledLoops.graftAll 0).inner 0) 0 ref → ref < misledLoops.loops.size)
      ∧ (∀ places, Route ((misledLoops.graftAll 0).inner 0) places 0 2 ↔ places = [0, 0])
      ∧ ParentChain (misledLoops.assignLevels 0) 0 1 2
      ∧ ((misledLoops.assignLevels 0).loop 2).depth = 2 := by
  have later : ∀ outer < 3, ∀ child ∈ (misledLoops.graftAll 0).inner 0 outer,
      outer < child ∧ child < 3 := by
    decide +kernel
  obtain ⟨acyclic, inTable⟩ := acyclic_of_later later (by decide : 0 < 3)
  refine ⟨acyclic, inTable, ?_, ?_, by decide +kernel⟩
  · have atRoot : (misledLoops.graftAll 0).inner 0 0 = [1] := by decide +kernel
    have atStored : (misledLoops.graftAll 0).inner 0 1 = [2] := by decide +kernel
    have atLast : (misledLoops.graftAll 0).inner 0 2 = [] := by decide +kernel
    have apart : ∀ child ∈ (misledLoops.graftAll 0).inner 0 2,
        ¬ Reaches ((misledLoops.graftAll 0).inner 0) child 2 := by
      simp [atLast]
    intro places
    simp [route_iff_of_single atRoot, route_iff_of_single atStored, route_self_iff apart]
  · exact .up (by decide) (by decide +kernel) .top

end LoopStore

end LoopNest
