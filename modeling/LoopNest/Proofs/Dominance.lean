import LoopNest.Proofs.Paths

/-! Dominance and natural loops of a graph with a start. They are said of the steps alone, so
nothing in them depends on an order of the edges.
-/

namespace LoopNest

variable {α : Type}

/-- The places that can be reached from the start. -/
def Reached (step : α → α → Prop) (start : α) : Set α :=
  { place | Within step Set.univ start place }

/-- Every path from the start to the second place passes the first. -/
def Dominates (step : α → α → Prop) (start dominator place : α) : Prop :=
  ¬ Within step { x | x ≠ dominator } start place

/-- A place with a step to it from a reached place that it dominates. -/
def IsNaturalHeader (step : α → α → Prop) (start header : α) : Prop :=
  ∃ source ∈ Reached step start, Dominates step start header source ∧ step source header

/-- The reached places that lead to a header over places that it dominates. -/
def NaturalLoop (step : α → α → Prop) (start header : α) : Set α :=
  { place | Within step { x | x ∈ Reached step start ∧ Dominates step start header x } place
      header }

/-- The header of the innermost natural loop around another header's. -/
structure IsNaturalParent (step : α → α → Prop) (start parent header : α) : Prop where
  heads : IsNaturalHeader step start parent
  differs : parent ≠ header
  member : header ∈ NaturalLoop step start parent
  inside
    : ∀ other, IsNaturalHeader step start other → other ≠ header
      → header ∈ NaturalLoop step start other → parent ∈ NaturalLoop step start other

/-- No natural loop lies around a header's. -/
def IsNaturalTop (step : α → α → Prop) (start header : α) : Prop :=
  ∀ other, IsNaturalHeader step start other → header ∈ NaturalLoop step start other
    → other = header

/-- The natural loops, each with its header and the header of the natural loop around it. -/
def naturalNest (step : α → α → Prop) (start : α) : Set (α × Set α × Option α) :=
  { (header, body, parent) |
      IsNaturalHeader step start header
      ∧ body = NaturalLoop step start header
      ∧ match parent with
        | some parent => IsNaturalParent step start parent header
        | none => IsNaturalTop step start header }

/-- A graph is reducible: in each set of reached places that is strongly connected in itself, one
place dominates all.
-/
def IsReducible (step : α → α → Prop) (start : α) : Prop :=
  ∀ part ⊆ Reached step start, part.Nonempty → (∀ x ∈ part, ∀ y ∈ part, Within step part x y)
    → ∃ dominator ∈ part, ∀ x ∈ part, Dominates step start dominator x

------------------------------------------------------------------------------------------
-- Graphs given by lists of edges
------------------------------------------------------------------------------------------

/-- The steps along listed edges. -/
def EdgeStep (edges : List (α × α)) (source target : α) : Prop :=
  (source, target) ∈ edges

open Classical in
/-- How many listed edges lead to a place from reached places that it does not dominate. -/
noncomputable def forwardCount (edges : List (α × α)) (start place : α) : Nat :=
  edges.countP fun edge =>
    edge.2 = place
    ∧ edge.1 ∈ Reached (EdgeStep edges) start
    ∧ ¬ Dominates (EdgeStep edges) start place edge.1

/-- So many edges are allowed: no place in a natural loop but its header has more from places that
it does not dominate.
-/
def Allows (edges : List (α × α)) (start : α) (bound : Int) : Prop :=
  ∀ header, IsNaturalHeader (EdgeStep edges) start header
    → ∀ place ∈ NaturalLoop (EdgeStep edges) start header, place ≠ header
      → (forwardCount edges start place : Int) ≤ bound

theorem edgeStep_congr {edges others : List (α × α)} (permuted : edges.Perm others)
    : EdgeStep edges = EdgeStep others := by
  funext source target
  exact propext permuted.mem_iff

/-- What a bound allows does not depend on the order of the edges. -/
theorem allows_congr {edges others : List (α × α)} (permuted : edges.Perm others) (start : α)
    (bound : Int)
    : Allows edges start bound ↔ Allows others start bound := by
  have count_eq (place : α) : forwardCount edges start place = forwardCount others start place := by
    rw [forwardCount, forwardCount, edgeStep_congr permuted]
    exact permuted.countP_eq _
  simp only [Allows, count_eq, edgeStep_congr permuted]

end LoopNest
