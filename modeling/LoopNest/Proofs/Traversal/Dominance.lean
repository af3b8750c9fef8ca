import LoopNest.Proofs.Dominance
import LoopNest.Proofs.Traversal.Components
import LoopNest.Proofs.Traversal.Entries

/-! Clusters and dominance. If every cluster with a loop is entered through its top alone, then the
clusters are the natural loops of the graph, whatever the order in which it was traversed; and they
are entered so exactly if the graph is reducible.
-/

namespace LoopNest

namespace Traversal

variable {walk : Traversal} {top number source x y : Nat}

/-- Every path from the first number to the second one given passes the first one given. -/
def Dominates (walk : Traversal) (top number : Nat) : Prop :=
  ¬ Within walk.Flows { y | y < walk.size ∧ y ≠ top } 0 number

/-- Dominators lie around what they dominate. Witness: one path leads over the numbers around. -/
theorem Dominates.below (dominates : walk.Dominates top number) (known : number < walk.size)
    : walk.Below top number := by
  by_contra apart
  exact dominates ((within_around known).mono fun y near =>
    ⟨top_lt near, fun same => apart (same ▸ near)⟩)

/-- The top of a cluster that is entered through it alone dominates the cluster. Witness: back along
a path that avoids the top nothing leaves the cluster, but the first number lies outside.
-/
theorem SingleEntry.dominates (single : walk.SingleEntry top) (member : walk.Cluster top number)
    : walk.Dominates top number := by
  intro avoids
  have started : walk.Cluster top 0 := by
    refine avoids.head_induction (motive := walk.Cluster top) (fun _ => member) ?_
    intro x y _ flows rest inside
    exact single x y flows inside rest.source_mem.2
  exact avoids.source_mem.2 (Nat.le_zero.mp started.le).symm

/-- A number stands directly inside a cluster, or outside all clusters of others. -/
def NestedIn (walk : Traversal) (number : Nat) : Option Nat → Prop
  | some outer => walk.Inner outer number
  | none => ∀ outer, ¬ walk.Inner outer number

theorem NestedIn.unique {outer other : Option Nat} (nested : walk.NestedIn number outer)
    (again : walk.NestedIn number other)
    : outer = other := by
  cases outer with
  | none =>
      cases other with
      | none => rfl
      | some other => exact absurd again (nested other)
  | some outer =>
      cases other with
      | none => exact absurd nested (again outer)
      | some other => exact congrArg some (Inner.unique nested again)

/-- Every cluster with a loop is entered through its top alone. -/
def Reducible (walk : Traversal) : Prop :=
  ∀ top, walk.Heads top → walk.SingleEntry top

/-- Back edges are the edges to dominators. -/
theorem Reducible.dominates_iff (reducible : walk.Reducible) (flows : walk.Flows source top)
    : walk.Dominates top source ↔ walk.Below top source := by
  constructor
  · exact fun dominates => dominates.below flows.source_lt
  · intro below
    have member := cluster_of_flows flows (walk.cluster_self top) below
    exact (reducible top ⟨source, flows, below⟩).dominates member

------------------------------------------------------------------------------------------
-- Numbers that stand for places of a graph
------------------------------------------------------------------------------------------

/-- The numbers of a traversal stand for the places of a graph that can be reached. -/
structure Labels {α : Type} (walk : Traversal) (step : α → α → Prop) (label : Nat → α)
    : Prop where
  injective : Set.InjOn label { number | number < walk.size }
  flows_iff
    : ∀ {source target}, source < walk.size → target < walk.size
      → (step (label source) (label target) ↔ walk.Flows source target)
  closed
    : ∀ {source place}, source < walk.size → step (label source) place
      → ∃ target < walk.size, label target = place

namespace Labels

variable {α : Type} {step : α → α → Prop} {label : Nat → α} {place : α} {scope : Set α}

/-- Paths of places are paths of numbers. Witness: induction along the path. -/
theorem within_iff (labels : walk.Labels step label) (known : x < walk.size)
    : Within step scope (label x) place
      ↔ ∃ y < walk.size,
          label y = place
          ∧ Within walk.Flows { z | z < walk.size ∧ label z ∈ scope } x y := by
  constructor
  · intro connected
    refine connected.tail_induction
      (motive := fun place => ∃ y < walk.size, label y = place
        ∧ Within walk.Flows { z | z < walk.size ∧ label z ∈ scope } x y)
      ⟨x, known, rfl, .refl ⟨known, connected.source_mem⟩⟩ ?_
    intro _ place _ taken inside ⟨y, yKnown, same, onward⟩
    subst same
    obtain ⟨z, zKnown, rfl⟩ := labels.closed yKnown taken
    exact ⟨z, zKnown, rfl,
      onward.tail ((labels.flows_iff yKnown zKnown).mp taken) ⟨zKnown, inside⟩⟩
  · intro ⟨y, _, same, connected⟩
    subst same
    refine connected.map label (fun z inside => inside.2) ?_
    intro z known w knownToo flows
    exact (labels.flows_iff known.1 knownToo.1).mpr flows

theorem reached_iff (labels : walk.Labels step label)
    : place ∈ Reached step (label 0) ↔ ∃ x < walk.size, label x = place := by
  have known := walk.positive
  constructor
  · intro reached
    obtain ⟨x, xKnown, same, -⟩ := (labels.within_iff known).mp reached
    exact ⟨x, xKnown, same⟩
  · intro ⟨x, xKnown, same⟩
    refine (labels.within_iff known).mpr ⟨x, xKnown, same, ?_⟩
    exact (within_around xKnown).mono fun y near => ⟨top_lt near, trivial⟩

theorem dominates_iff (labels : walk.Labels step label) (known : x < walk.size)
    (knownToo : y < walk.size)
    : LoopNest.Dominates step (label 0) (label x) (label y) ↔ walk.Dominates x y := by
  apply not_congr
  rw [labels.within_iff walk.positive]
  constructor
  · intro ⟨z, zKnown, same, connected⟩
    obtain rfl := labels.injective zKnown knownToo same
    exact connected.mono fun w ⟨wKnown, differs⟩ =>
      ⟨wKnown, fun equal => differs (congrArg label equal)⟩
  · intro connected
    refine ⟨y, knownToo, rfl, connected.mono fun w ⟨wKnown, differs⟩ => ⟨wKnown, ?_⟩⟩
    exact fun equal => differs (labels.injective wKnown known equal)

/-- Edges from outside a subtree come from places that are not dominated. -/
theorem forward_iff (labels : walk.Labels step label) (reducible : walk.Reducible)
    (flows : walk.Flows source top)
    : label source ∈ Reached step (label 0)
        ∧ ¬ LoopNest.Dominates step (label 0) (label top) (label source)
      ↔ ¬ walk.Below top source := by
  rw [and_iff_right (labels.reached_iff.mpr ⟨source, flows.source_lt, rfl⟩),
    labels.dominates_iff flows.1 flows.source_lt, reducible.dominates_iff flows]

/-- Headers of loops stand for natural headers. -/
theorem isNaturalHeader_iff (labels : walk.Labels step label) (reducible : walk.Reducible)
    : IsNaturalHeader step (label 0) place ↔ ∃ top, walk.Heads top ∧ label top = place := by
  constructor
  · intro ⟨_, reached, dominates, taken⟩
    obtain ⟨source, sourceKnown, rfl⟩ := labels.reached_iff.mp reached
    obtain ⟨top, topKnown, rfl⟩ := labels.closed sourceKnown taken
    have flows := (labels.flows_iff sourceKnown topKnown).mp taken
    rw [labels.dominates_iff topKnown sourceKnown, reducible.dominates_iff flows] at dominates
    exact ⟨top, ⟨source, flows, dominates⟩, rfl⟩
  · intro ⟨top, heads, same⟩
    obtain ⟨source, flows, below⟩ := heads
    subst same
    refine ⟨label source, labels.reached_iff.mpr ⟨source, flows.source_lt, rfl⟩, ?_, ?_⟩
    · rw [labels.dominates_iff flows.1 flows.source_lt, reducible.dominates_iff flows]
      exact below
    · exact (labels.flows_iff flows.source_lt flows.1).mpr flows

/-- The cluster of a header stands for its natural loop. Witness: a cluster leads back to its top
over numbers of the cluster, which the top dominates, and dominated numbers lie below.
-/
theorem naturalLoop_eq (labels : walk.Labels step label) (reducible : walk.Reducible)
    (heads : walk.Heads top)
    : NaturalLoop step (label 0) (label top) = label '' { x | walk.Cluster top x } := by
  have known := heads.lt
  ext place
  constructor
  · intro returns
    obtain ⟨x, xKnown, rfl⟩ := labels.reached_iff.mp returns.source_mem.1
    obtain ⟨y, yKnown, same, connected⟩ := (labels.within_iff xKnown).mp returns
    obtain rfl := labels.injective yKnown known same
    have below {z : Nat} (inside : z < walk.size ∧ label z ∈ { place |
        place ∈ Reached step (label 0) ∧ LoopNest.Dominates step (label 0) (label y) place })
        : walk.Below y z :=
      ((labels.dominates_iff known inside.1).mp inside.2.2).below inside.1
    refine ⟨x, (cluster_iff known).mpr ⟨below connected.source_mem, ?_⟩, rfl⟩
    exact connected.mono fun z inside => below inside
  · intro ⟨x, member, same⟩
    subst same
    have member : walk.Cluster top x := member
    have xKnown := number_lt (member.below known)
    refine (labels.within_iff xKnown).mpr ⟨top, known, rfl, ?_⟩
    refine member.symm.within.mono fun z (near : walk.Cluster top z) => ?_
    have zKnown := number_lt (near.below known)
    refine ⟨zKnown, labels.reached_iff.mpr ⟨z, zKnown, rfl⟩, ?_⟩
    exact (labels.dominates_iff known zKnown).mpr ((reducible top heads).dominates near)

theorem mem_naturalLoop_iff (labels : walk.Labels step label) (reducible : walk.Reducible)
    (heads : walk.Heads top) (known : x < walk.size)
    : label x ∈ NaturalLoop step (label 0) (label top) ↔ walk.Cluster top x := by
  rw [labels.naturalLoop_eq reducible heads]
  constructor
  · intro ⟨y, member, same⟩
    have member : walk.Cluster top y := member
    exact labels.injective (number_lt (member.below heads.lt)) known same ▸ member
  · exact fun member => ⟨x, member, rfl⟩

/-- A traversal finds a graph reducible exactly if it is. Witness: the first number of a strongly
connected set has the set in its cluster; and the number that dominates a cluster is its top.
-/
theorem isReducible_iff (labels : walk.Labels step label)
    : IsReducible step (label 0) ↔ walk.Reducible := by
  constructor
  · intro isReducible top heads
    have known := heads.lt
    have inTable {x : Nat} (member : walk.Cluster top x) : x < walk.size :=
      number_lt (member.below known)
    obtain ⟨_, ⟨d, dMember, rfl⟩, dominates⟩ :=
      isReducible (label '' { x | walk.Cluster top x })
        (by
          intro _ ⟨x, member, same⟩
          exact labels.reached_iff.mpr ⟨x, inTable member, same⟩)
        ⟨label top, top, walk.cluster_self top, rfl⟩
        (by
          intro _ ⟨x, member, xSame⟩ _ ⟨y, memberToo, ySame⟩
          subst xSame ySame
          have linked : Linked walk.Flows { y | top ≤ y } x y := member.symm.trans memberToo
          have inside : Within walk.Flows { z | walk.Cluster top z } x y :=
            linked.within.mono fun z near => Linked.trans memberToo near
          exact inside.map label (fun z near => ⟨z, near, rfl⟩) fun z near w nearToo flows =>
            (labels.flows_iff (inTable near) (inTable nearToo)).mpr flows)
    have dMember : walk.Cluster top d := dMember
    have dominated (x : Nat) (member : walk.Cluster top x) : walk.Dominates d x :=
      (labels.dominates_iff (inTable dMember) (inTable member)).mp
        (dominates _ ⟨x, member, rfl⟩)
    have isTop : d = top :=
      Nat.le_antisymm ((dominated top (walk.cluster_self top)).below known).1 dMember.le
    exact singleEntry_of_avoids fun x member => isTop ▸ dominated x member
  · intro reducible part included ⟨place, inPart⟩ connected
    classical
    have numbered : ∃ x, x < walk.size ∧ label x ∈ part := by
      obtain ⟨x, known, same⟩ := labels.reached_iff.mp (included inPart)
      exact ⟨x, known, same ▸ inPart⟩
    obtain ⟨known, inPart⟩ := Nat.find_spec numbered
    refine ⟨label (Nat.find numbered), inPart, fun place placeIn => ?_⟩
    obtain ⟨x, xKnown, rfl⟩ := labels.reached_iff.mp (included placeIn)
    rw [labels.dominates_iff known xKnown]
    have path {a b : Nat} (aKnown : a < walk.size) (bKnown : b < walk.size)
        (aIn : label a ∈ part) (bIn : label b ∈ part)
        : Within walk.Flows { z | Nat.find numbered ≤ z } a b := by
      obtain ⟨c, cKnown, same, inside⟩ :=
        (labels.within_iff aKnown).mp (connected _ aIn _ bIn)
      obtain rfl := labels.injective cKnown bKnown same
      exact inside.mono fun z near => Nat.find_min' numbered near
    have member : walk.Cluster (Nat.find numbered) x :=
      ⟨path known xKnown inPart placeIn, path xKnown known placeIn inPart⟩
    by_cases isTop : x = Nat.find numbered
    · rw [isTop]
      exact fun avoids => avoids.target_mem.2 rfl
    · exact (reducible _ (member.heads isTop)).dominates member

------------------------------------------------------------------------------------------
-- Nesting
------------------------------------------------------------------------------------------

/-- The natural loop directly around another is that of the cluster that it stands directly inside.
Witness: a cluster in between would be a natural loop in between.
-/
theorem isNaturalParent_iff (labels : walk.Labels step label) (reducible : walk.Reducible)
    (heads : walk.Heads top)
    : IsNaturalParent step (label 0) place (label top)
      ↔ ∃ outer, walk.Inner outer top ∧ label outer = place := by
  have known := heads.lt
  constructor
  · intro isParent
    obtain ⟨outer, outerHeads, rfl⟩ := (labels.isNaturalHeader_iff reducible).mp isParent.heads
    have member := (labels.mem_naturalLoop_iff reducible outerHeads known).mp isParent.member
    have before : outer < top := by
      refine Nat.lt_of_le_of_ne member.le fun same => isParent.differs ?_
      rw [same]
    obtain ⟨after, around, -⟩ := walk.outermost_spec before
    refine ⟨outer, ⟨before, member, ?_⟩, rfl⟩
    by_contra differs
    have betweenHeads := around.heads (Ne.symm differs)
    have between := isParent.inside _
      ((labels.isNaturalHeader_iff reducible).mpr ⟨_, betweenHeads, rfl⟩)
      (fun same => differs (labels.injective betweenHeads.lt known same))
      ((labels.mem_naturalLoop_iff reducible betweenHeads known).mpr around)
    have inside := (labels.mem_naturalLoop_iff reducible betweenHeads outerHeads.lt).mp between
    exact absurd inside.le (Nat.not_le.mpr after)
  · intro ⟨outer, inner, same⟩
    subst same
    have outerHeads := inner.2.1.heads (Nat.ne_of_gt inner.1)
    refine ⟨(labels.isNaturalHeader_iff reducible).mpr ⟨outer, outerHeads, rfl⟩, ?_,
      (labels.mem_naturalLoop_iff reducible outerHeads known).mpr inner.2.1, ?_⟩
    · intro same
      exact Nat.ne_of_lt inner.1 (labels.injective outerHeads.lt known same)
    · intro _ otherIs differs around
      obtain ⟨other, otherHeads, rfl⟩ := (labels.isNaturalHeader_iff reducible).mp otherIs
      have member := (labels.mem_naturalLoop_iff reducible otherHeads known).mp around
      refine (labels.mem_naturalLoop_iff reducible otherHeads outerHeads.lt).mpr ?_
      cases Nat.lt_or_ge outer other with
      | inr before => exact member.of_common before inner.2.1
      | inl between =>
          have least := (walk.outermost_spec inner.1).2.2 other between member
          rw [inner.2.2] at least
          exact absurd (congrArg label (Nat.le_antisymm member.le least)) differs

theorem isNaturalTop_iff (labels : walk.Labels step label) (reducible : walk.Reducible)
    (heads : walk.Heads top)
    : IsNaturalTop step (label 0) (label top) ↔ ∀ outer, ¬ walk.Inner outer top := by
  have known := heads.lt
  constructor
  · intro isTop outer inner
    have outerHeads := inner.2.1.heads (Nat.ne_of_gt inner.1)
    have same := isTop _ ((labels.isNaturalHeader_iff reducible).mpr ⟨outer, outerHeads, rfl⟩)
      ((labels.mem_naturalLoop_iff reducible outerHeads known).mpr inner.2.1)
    exact Nat.ne_of_lt inner.1 (labels.injective outerHeads.lt known same)
  · intro outside _ otherIs around
    obtain ⟨other, otherHeads, rfl⟩ := (labels.isNaturalHeader_iff reducible).mp otherIs
    have member := (labels.mem_naturalLoop_iff reducible otherHeads known).mp around
    have least := (walk.outermost_spec (Nat.zero_le top)).2.2 other (Nat.zero_le other) member
    rw [outermost_zero_eq_iff.mpr outside] at least
    rw [Nat.le_antisymm member.le least]

/-- The natural loops and their nesting are the clusters with loops and theirs. -/
theorem mem_naturalNest_iff (labels : walk.Labels step label) (reducible : walk.Reducible)
    {entry : α × Set α × Option α}
    : entry ∈ naturalNest step (label 0)
      ↔ ∃ top outer,
          walk.Heads top
          ∧ walk.NestedIn top outer
          ∧ entry = (label top, label '' { x | walk.Cluster top x }, outer.map label) := by
  obtain ⟨place, body, parent⟩ := entry
  constructor
  · intro ⟨isHeader, isBody, nested⟩
    obtain ⟨top, heads, rfl⟩ := (labels.isNaturalHeader_iff reducible).mp isHeader
    rw [labels.naturalLoop_eq reducible heads] at isBody
    cases parent with
    | some parent =>
        obtain ⟨outer, inner, rfl⟩ := (labels.isNaturalParent_iff reducible heads).mp nested
        exact ⟨top, some outer, heads, inner, by rw [isBody]; rfl⟩
    | none =>
        have outside := (labels.isNaturalTop_iff reducible heads).mp nested
        exact ⟨top, none, heads, outside, by rw [isBody]; rfl⟩
  · intro ⟨top, outer, heads, nested, same⟩
    cases same
    refine ⟨(labels.isNaturalHeader_iff reducible).mpr ⟨top, heads, rfl⟩,
      (labels.naturalLoop_eq reducible heads).symm, ?_⟩
    cases outer with
    | some outer => exact (labels.isNaturalParent_iff reducible heads).mpr ⟨outer, nested, rfl⟩
    | none => exact (labels.isNaturalTop_iff reducible heads).mpr nested

end Labels

end Traversal

end LoopNest
