import Mathlib.Data.List.Chain
import Mathlib.Data.Set.Function
import Mathlib.Logic.Relation

/-! Paths that stay in a part of a graph, and the strongly connected components of such a part.
A graph is given by its steps alone, so the same words serve blocks and their numbers.
-/

namespace LoopNest

variable {α β : Type} {step : α → α → Prop} {scope wider : Set α} {a b c : α}

/-- Places in a row with a step from each to the next. A single place is a path to itself. -/
structure IsPath (step : α → α → Prop) (path : List α) (source target : α) : Prop where
  starts : path.head? = some source
  ends : path.getLast? = some target
  linked : path.IsChain step

/-- Some path from the source to the target has all its places in the scope. -/
def Within (step : α → α → Prop) (scope : Set α) (source target : α) : Prop :=
  ∃ path, IsPath step path source target ∧ ∀ place ∈ path, place ∈ scope

namespace Within

theorem refl (inside : a ∈ scope) : Within step scope a a :=
  ⟨[a], ⟨rfl, rfl, .singleton a⟩, by simpa using inside⟩

theorem head (inside : a ∈ scope) (first : step a b) (rest : Within step scope b c)
    : Within step scope a c := by
  obtain ⟨path, ⟨starts, ends, linked⟩, inScope⟩ := rest
  cases path with
  | nil => simp at starts
  | cons place tail =>
      obtain rfl : place = b := by simpa using starts
      refine ⟨a :: place :: tail, ⟨rfl, ?_, .cons_cons first linked⟩, ?_⟩
      · simpa using ends
      · intro other member
        rcases List.mem_cons.mp member with rfl | later
        · exact inside
        · exact inScope other later

/-- What holds at the target and is handed back along each step holds at the source. Witness:
induction on the list of places.
-/
theorem head_induction {motive : α → Prop} (connected : Within step scope a b)
    (base : b ∈ scope → motive b)
    (back : ∀ x y, x ∈ scope → step x y → Within step scope y b → motive y → motive x)
    : motive a := by
  obtain ⟨path, isPath, inScope⟩ := connected
  induction path generalizing a with
  | nil => exact absurd isPath.starts (by simp)
  | cons place tail ih =>
      obtain rfl : place = a := by simpa using isPath.starts
      cases tail with
      | nil =>
          obtain rfl : place = b := by simpa using isPath.ends
          exact base (inScope place (by simp))
      | cons next rest =>
          obtain ⟨first, linked⟩ := List.isChain_cons_cons.mp isPath.linked
          have ends : (next :: rest).getLast? = some b := by simpa using isPath.ends
          have restPath : IsPath step (next :: rest) next b := ⟨rfl, ends, linked⟩
          have restInside : ∀ other ∈ next :: rest, other ∈ scope :=
            fun other member => inScope other (List.mem_cons_of_mem place member)
          exact back place next (inScope place (by simp)) first
            ⟨next :: rest, restPath, restInside⟩ (ih restPath restInside)

theorem source_mem (connected : Within step scope a b) : a ∈ scope :=
  connected.head_induction (motive := (· ∈ scope)) id fun _ _ inside _ _ _ => inside

theorem target_mem (connected : Within step scope a b) : b ∈ scope :=
  connected.head_induction (motive := fun _ => b ∈ scope) id fun _ _ _ _ _ known => known

theorem trans (first : Within step scope a b) (second : Within step scope b c)
    : Within step scope a c :=
  first.head_induction (motive := fun x => Within step scope x c) (fun _ => second)
    fun _ _ inside taken _ known => head inside taken known

theorem tail (first : Within step scope a b) (last : step b c) (inside : c ∈ scope)
    : Within step scope a c :=
  first.trans (head first.target_mem last (refl inside))

/-- What holds at the source and is handed on along each step holds at the target. -/
theorem tail_induction {motive : α → Prop} (connected : Within step scope a b)
    (base : motive a)
    (onward : ∀ x y, Within step scope a x → step x y → y ∈ scope → motive x → motive y)
    : motive b := by
  -- The motive is carried from the source, so the claim is about every way to go on from there.
  have carried : ∀ x, Within step scope x b → Within step scope a x → motive x → motive b := by
    intro x rest
    refine rest.head_induction
      (motive := fun x => Within step scope a x → motive x → motive b) ?_ ?_
    · exact fun _ _ known => known
    · intro x y _ taken onwards ih reached known
      have inside := onwards.source_mem
      exact ih (reached.tail taken inside) (onward x y reached taken inside known)
  exact carried a connected (refl connected.source_mem) base

/-- A path between two different places ends with a step. -/
theorem last_step (connected : Within step scope a b) (differs : a ≠ b)
    : ∃ before, Within step scope a before ∧ step before b := by
  have carried := connected.tail_induction
    (motive := fun x => a = x ∨ ∃ before, Within step scope a before ∧ step before x)
    (Or.inl rfl) fun x _ reached taken _ _ => Or.inr ⟨x, reached, taken⟩
  exact carried.resolve_left differs

theorem mono (connected : Within step scope a b) (included : scope ⊆ wider)
    : Within step wider a b := by
  obtain ⟨path, isPath, inScope⟩ := connected
  exact ⟨path, isPath, fun place member => included (inScope place member)⟩

/-- Paths can be carried along a map that keeps the steps taken inside the scope. -/
theorem map {onto : β → β → Prop} {image : Set β} (send : α → β)
    (connected : Within step scope a b) (inside : ∀ x ∈ scope, send x ∈ image)
    (keeps : ∀ x ∈ scope, ∀ y ∈ scope, step x y → onto (send x) (send y))
    : Within onto image (send a) (send b) := by
  refine connected.head_induction (motive := fun x => Within onto image (send x) (send b)) ?_ ?_
  · exact fun known => refl (inside b known)
  · intro x y known taken rest ih
    exact head (inside x known) (keeps x known y rest.source_mem taken) ih

/-- Every path passes a place exactly if none avoids it. -/
theorem forall_mem_path_iff {passed : α}
    : (∀ path, IsPath step path a b → passed ∈ path) ↔ ¬ Within step { x | x ≠ passed } a b := by
  constructor
  · intro passes ⟨path, isPath, avoids⟩
    exact avoids passed (passes path isPath) rfl
  · intro none path isPath
    by_contra missing
    exact none ⟨path, isPath, fun place member same => missing (same ▸ member)⟩

/-- Under a map that is injective on a scope and agrees on its steps, paths of the image are the
images of paths. Witness: induction along the path of the image.
-/
theorem image_iff {onto : β → β → Prop} {send : α → β} (injective : Set.InjOn send scope)
    (agrees : ∀ x ∈ scope, ∀ y ∈ scope, onto (send x) (send y) ↔ step x y)
    (source : a ∈ scope) (target : b ∈ scope)
    : Within onto (send '' scope) (send a) (send b) ↔ Within step scope a b := by
  constructor
  · intro connected
    refine connected.head_induction
      (motive := fun x' => ∀ x ∈ scope, send x = x' → Within step scope x b)
      ?_ ?_ a source rfl
    · intro _ x inside same
      obtain rfl := injective inside target same
      exact refl inside
    · intro x' y' _ taken rest ih x inside same
      obtain ⟨y, insideToo, rfl⟩ := rest.source_mem
      exact head inside ((agrees x inside y insideToo).mp (same ▸ taken)) (ih y insideToo rfl)
  · intro connected
    exact connected.map send (fun x inside => Set.mem_image_of_mem send inside)
      fun x known y knownToo taken => (agrees x known y knownToo).mpr taken

/-- Without a restriction, paths are what the steps reach. -/
theorem univ_iff : Within step Set.univ a b ↔ Relation.ReflTransGen step a b := by
  constructor
  · intro connected
    exact connected.head_induction (motive := (Relation.ReflTransGen step · b)) (fun _ => .refl)
      fun _ _ _ taken _ rest => .head taken rest
  · intro connected
    induction connected with
    | refl => exact refl trivial
    | tail _ last ih => exact ih.tail last trivial

end Within

------------------------------------------------------------------------------------------
-- Strong connection
------------------------------------------------------------------------------------------

/-- Two places can be reached from each other inside the scope. -/
def Linked (step : α → α → Prop) (scope : Set α) (a b : α) : Prop :=
  Within step scope a b ∧ Within step scope b a

namespace Linked

theorem refl (inside : a ∈ scope) : Linked step scope a a :=
  ⟨.refl inside, .refl inside⟩

theorem symm (linked : Linked step scope a b) : Linked step scope b a :=
  ⟨linked.2, linked.1⟩

theorem trans (first : Linked step scope a b) (second : Linked step scope b c)
    : Linked step scope a c :=
  ⟨first.1.trans second.1, second.2.trans first.2⟩

theorem mono (linked : Linked step scope a b) (included : scope ⊆ wider)
    : Linked step wider a b :=
  ⟨linked.1.mono included, linked.2.mono included⟩

/-- A path between two linked places passes only places linked to them. Witness: from a place
on the way the target is ahead, and behind it lies a way back from the target.
-/
theorem within (linked : Linked step scope a b)
    : Within step { place | Linked step scope b place } a b := by
  have carried := linked.1.head_induction
    (motive := fun x => Within step scope b x
      → Within step { place | Linked step scope b place } x b)
    (fun inside _ => .refl (.refl inside))
    (by
      intro x y inside taken ahead ih behind
      have onward := behind.tail taken ahead.source_mem
      exact .head ⟨behind, .head inside taken ahead⟩ taken (ih onward))
  exact carried linked.2

/-- Linked places are linked inside any scope that holds all places linked to them. -/
theorem restrict (linked : Linked step scope a b)
    (included : ∀ place, Linked step scope a place → place ∈ wider)
    : Linked step wider a b :=
  ⟨linked.within.mono fun _ near => included _ (linked.trans near),
    linked.symm.within.mono fun _ near => included _ near⟩

theorem image_iff {onto : β → β → Prop} {send : α → β} (injective : Set.InjOn send scope)
    (agrees : ∀ x ∈ scope, ∀ y ∈ scope, onto (send x) (send y) ↔ step x y)
    (source : a ∈ scope) (target : b ∈ scope)
    : Linked onto (send '' scope) (send a) (send b) ↔ Linked step scope a b :=
  and_congr (Within.image_iff injective agrees source target)
    (Within.image_iff injective agrees target source)

end Linked

/-- A strongly connected component of the subgraph on a scope that holds a cycle: it has at
least two places, or one place with a step to itself.
-/
structure IsCyclicComponent (step : α → α → Prop) (scope part : Set α) : Prop where
  component : ∃ place ∈ scope, part = { other | Linked step scope place other }
  cyclic : part.Nontrivial ∨ ∃ place, part = {place} ∧ step place place

/-- Cyclic components are carried along a map that is injective on the scope and agrees on its
steps.
-/
theorem IsCyclicComponent.image_iff {onto : β → β → Prop} {send : α → β} {part : Set α}
    (injective : Set.InjOn send scope)
    (agrees : ∀ x ∈ scope, ∀ y ∈ scope, onto (send x) (send y) ↔ step x y)
    (included : part ⊆ scope)
    : IsCyclicComponent onto (send '' scope) (send '' part)
      ↔ IsCyclicComponent step scope part := by
  have linked_iff {x y : α} (source : x ∈ scope) (target : y ∈ scope) :=
    Linked.image_iff injective agrees source target
  have part_iff {place : α} (inside : place ∈ scope)
      : send '' part = { other | Linked onto (send '' scope) (send place) other }
        ↔ part = { other | Linked step scope place other } := by
    have linkedImage : { other | Linked onto (send '' scope) (send place) other }
        = send '' { other | Linked step scope place other } := by
      ext other'
      constructor
      · intro linked
        obtain ⟨other, insideToo, rfl⟩ := linked.1.target_mem
        exact ⟨other, (linked_iff inside insideToo).mp linked, rfl⟩
      · intro ⟨other, linked, same⟩
        exact same ▸ (linked_iff inside linked.1.target_mem).mpr linked
    rw [linkedImage]
    exact injective.image_eq_image_iff included fun other linked => linked.1.target_mem
  constructor
  · intro ⟨⟨place', inImage, component⟩, cyclic⟩
    obtain ⟨place, inside, rfl⟩ := inImage
    refine ⟨⟨place, inside, (part_iff inside).mp component⟩, ?_⟩
    rcases cyclic with several | ⟨only', single, taken⟩
    · exact Or.inl (Set.nontrivial_of_image send part several)
    · obtain ⟨only, member, rfl⟩ : only' ∈ send '' part := single ▸ Set.mem_singleton only'
      refine Or.inr ⟨only, ?_, (agrees _ (included member) _ (included member)).mp taken⟩
      have onlyIn : ({only} : Set α) ⊆ scope := Set.singleton_subset_iff.mpr (included member)
      rwa [← injective.image_eq_image_iff included onlyIn, Set.image_singleton]
  · intro ⟨⟨place, inside, component⟩, cyclic⟩
    refine ⟨⟨send place, Set.mem_image_of_mem send inside, (part_iff inside).mpr component⟩, ?_⟩
    rcases cyclic with several | ⟨only, rfl, taken⟩
    · exact Or.inl (several.image_of_injOn (injective.mono included))
    · have onlyIn := included (Set.mem_singleton only)
      exact Or.inr ⟨send only, Set.image_singleton, (agrees _ onlyIn _ onlyIn).mpr taken⟩

end LoopNest
