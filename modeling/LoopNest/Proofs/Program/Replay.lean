import LoopNest.Proofs.Program.Construction

/-! What building calls leave. The registered blocks of a graph are those that the calls ask for, in
order and under their first names; an edge call is refused exactly if an end is not registered;
and refused calls leave no trace.
-/

namespace LoopNest

namespace BuildCall

/-- Takes one call into account: for each graph the ids registered so far, each with the name it
was first given.
-/
def enroll (entries : List (List (Int × String))) : BuildCall → List (List (Int × String))
  | .graph => entries ++ [[]]
  | .register g name id =>
      entries.modify g fun known =>
        if id ∈ known.map Prod.fst then known else known ++ [(id, name)]
  | .block _ _ | .connect _ _ _ | .link _ _ _ => entries

/-- What a history of calls asks to register in each graph. -/
def registrations (calls : List BuildCall) : List (List (Int × String)) :=
  calls.foldl enroll []

end BuildCall

namespace Program

variable {program : Program} {g h : GraphRef} {ref src dst : BlockRef} {srcId dstId : Int}
  {fault : Fault} {call : BuildCall}

/-- The id and the name of a block. -/
def label (program : Program) (ref : BlockRef) : Int × String :=
  (program.idOf ref, (program.block ref).name)

/-- The ids and names of a graph's registered blocks in registration order. -/
def labels (program : Program) (g : GraphRef) : List (Int × String) :=
  (program.graph g).blocks.toList.map program.label

theorem Consistent.find?_eq_none_iff (consistent : program.Consistent) {id : Int}
    : (program.graph g).find? id = none ↔ id ∉ (program.labels g).map Prod.fst := by
  rw [Option.eq_none_iff_forall_ne_some, labels, List.map_map, List.mem_map]
  constructor
  · rintro unknown ⟨ref, listed, same⟩
    exact unknown ref (consistent.find?_iff.mpr ⟨Array.mem_toList_iff.mp listed, same⟩)
  · intro unlisted ref found
    obtain ⟨member, same⟩ := consistent.find?_iff.mp found
    exact unlisted ⟨ref, Array.mem_toList_iff.mpr member, same⟩

------------------------------------------------------------------------------------------
-- What each call does to the labels
------------------------------------------------------------------------------------------

theorem labels_addGraph (program : Program) (g : GraphRef)
    : program.addGraph.1.labels g = program.labels g := by
  rw [labels, graph_addGraph]
  rfl

theorem Consistent.labels_addBlock (consistent : program.Consistent) (name : String) (id : Int)
    (g : GraphRef)
    : (program.addBlock name id).1.labels g = program.labels g := by
  refine List.map_congr_left fun ref listed => ?_
  have old : ref ≠ program.blocks.size := fun newest =>
    consistent.not_mem_size (newest ▸ Array.mem_toList_iff.mp listed)
  rw [label, idOf, block_addBlock, if_neg old]
  rfl

theorem labels_enlist (program : Program) (g : GraphRef) (id : Int) (ref : BlockRef)
    (h : GraphRef)
    : (program.enlist g id ref).labels h
      = if g = h ∧ g < program.graphs.size then program.labels h ++ [program.label ref]
        else program.labels h := by
  rw [labels, graph_enlist]
  split
  · next same =>
      obtain ⟨rfl, _⟩ := same
      rw [Array.toList_push, List.map_append]
      rfl
  · rfl

theorem Consistent.labels_register (consistent : program.Consistent) (g : GraphRef)
    (name : String) (id : Int) (h : GraphRef)
    : (program.register g name id).1.labels h
      = if (g = h ∧ g < program.graphs.size) ∧ id ∉ (program.labels h).map Prod.fst
        then program.labels h ++ [(id, name)] else program.labels h := by
  rw [register_eq]
  by_cases unknown : (program.graph g).find? id = none
  · have newest : (program.addBlock name id).1.label program.blocks.size = (id, name) := by
      rw [label, idOf, block_addBlock, if_pos rfl]
    rw [if_pos unknown, labels_enlist, consistent.labels_addBlock, newest]
    refine if_congr ?_ rfl rfl
    refine (and_iff_left_of_imp ?_).symm
    rintro ⟨rfl, _⟩
    exact consistent.find?_eq_none_iff.mp unknown
  · rw [if_neg unknown, if_neg]
    rintro ⟨⟨rfl, _⟩, unlisted⟩
    exact unknown (consistent.find?_eq_none_iff.mpr unlisted)

theorem Consistent.labels_wire (consistent : program.Consistent) (g : GraphRef)
    (src dst : BlockRef) (h : GraphRef)
    : (program.wire g src dst).1.labels h = program.labels h := by
  rw [labels, blocks_wire]
  refine List.map_congr_left fun ref listed => ?_
  have inTable := consistent.block_lt (Array.mem_toList_iff.mp listed)
  rw [label, idOf, block_wire _ _ _ _ _ inTable]
  rfl

------------------------------------------------------------------------------------------
-- Refused calls
------------------------------------------------------------------------------------------

/-- The fault of an answer. -/
def faultOf {α : Type} : Except Fault α → Option Fault
  | .error fault => some fault
  | .ok _ => none

/-- The fault with which a program refuses a call. -/
def refusal? (program : Program) : BuildCall → Option Fault
  | .connect g srcId dstId => faultOf (program.connect g srcId dstId)
  | .link g src dst => faultOf (program.link g src dst)
  | .graph | .block _ _ | .register _ _ _ => none

/-- The calls of a history that are not refused, when it goes on from a program. -/
def accepted (program : Program) : List BuildCall → List BuildCall
  | [] => []
  | call :: rest =>
      let later := accepted (program.perform call) rest
      if (program.refusal? call).isNone then call :: later else later

theorem link_eq (program : Program) (g : GraphRef) (src dst : BlockRef)
    : program.link g src dst
      = if (program.graph g).find? (program.idOf src) ≠ some src
          then .error (.unregistered (.block src))
        else if (program.graph g).find? (program.idOf dst) ≠ some dst
          then .error (.unregistered (.block dst))
        else .ok (program.wire g src dst) := by
  simp [link, isRegistered]

theorem link_eq_error_iff
    : program.link g src dst = .error fault
      ↔ (program.graph g).find? (program.idOf src) ≠ some src
          ∧ fault = .unregistered (.block src)
        ∨ (program.graph g).find? (program.idOf src) = some src
          ∧ (program.graph g).find? (program.idOf dst) ≠ some dst
          ∧ fault = .unregistered (.block dst) := by
  rw [link_eq]
  split
  · next unregistered => simp [unregistered, eq_comm]
  · next registered =>
      rw [ne_eq, not_not] at registered
      split <;> simp_all [eq_comm]

/-- An edge between the blocks found under two ids is not refused. Witness: a graph finds only
blocks that it has registered.
-/
theorem Consistent.connect_eq_ok (consistent : program.Consistent)
    (isSrc : (program.graph g).find? srcId = some src)
    (isDst : (program.graph g).find? dstId = some dst)
    : program.connect g srcId dstId = .ok (program.wire g src dst) := by
  have found {id : Int} {ref : BlockRef} (isRef : (program.graph g).find? id = some ref)
      : (program.graph g).find? (program.idOf ref) = some ref := by
    rwa [(consistent.find?_iff.mp isRef).2]
  simp [Program.connect, isSrc, isDst, link_eq, found isSrc, found isDst]

theorem Consistent.connect_eq_error_iff (consistent : program.Consistent)
    : program.connect g srcId dstId = .error fault
      ↔ (program.graph g).find? srcId = none ∧ fault = .unknownId srcId
        ∨ (program.graph g).find? srcId ≠ none
          ∧ (program.graph g).find? dstId = none
          ∧ fault = .unknownId dstId := by
  cases isSrc : (program.graph g).find? srcId with
  | none => simp [Program.connect, isSrc, eq_comm]
  | some src =>
      cases isDst : (program.graph g).find? dstId with
      | none => simp [Program.connect, isSrc, isDst, eq_comm]
      | some dst => simp [consistent.connect_eq_ok isSrc isDst]

/-- A link is refused, or wires an edge between two registered blocks. -/
theorem Consistent.link_cases (consistent : program.Consistent) (g : GraphRef)
    (src dst : BlockRef)
    : (∃ fault, program.link g src dst = .error fault)
      ∨ src ∈ (program.graph g).blocks
        ∧ dst ∈ (program.graph g).blocks
        ∧ program.link g src dst = .ok (program.wire g src dst) := by
  rw [link_eq]
  split
  · exact Or.inl ⟨_, rfl⟩
  · next srcFound =>
      split
      · exact Or.inl ⟨_, rfl⟩
      · next dstFound =>
          rw [ne_eq, not_not] at srcFound dstFound
          exact Or.inr ⟨(consistent.find?_iff.mp srcFound).1, (consistent.find?_iff.mp dstFound).1,
            rfl⟩

/-- An edge between ids is refused, or wires the blocks found under them. -/
theorem Consistent.connect_cases (consistent : program.Consistent) (g : GraphRef)
    (srcId dstId : Int)
    : (∃ fault, program.connect g srcId dstId = .error fault)
      ∨ ∃ src dst,
          (program.graph g).find? srcId = some src
          ∧ (program.graph g).find? dstId = some dst
          ∧ program.connect g srcId dstId = .ok (program.wire g src dst) := by
  cases isSrc : (program.graph g).find? srcId with
  | none => exact Or.inl ⟨_, consistent.connect_eq_error_iff.mpr (Or.inl ⟨isSrc, rfl⟩)⟩
  | some src =>
      cases isDst : (program.graph g).find? dstId with
      | none =>
          exact Or.inl ⟨_, consistent.connect_eq_error_iff.mpr
            (Or.inr ⟨by simp [isSrc], isDst, rfl⟩)⟩
      | some dst => exact Or.inr ⟨src, dst, rfl, rfl, consistent.connect_eq_ok isSrc isDst⟩

theorem perform_of_refused (refused : program.refusal? call = some fault)
    : program.perform call = program := by
  cases call with
  | graph => cases refused
  | block name id => cases refused
  | register g name id => cases refused
  | connect g srcId dstId =>
      simp only [refusal?, perform] at refused ⊢
      cases answer : program.connect g srcId dstId with
      | error _ => rfl
      | ok _ => rw [answer] at refused; cases refused
  | link g src dst =>
      simp only [refusal?, perform] at refused ⊢
      cases answer : program.link g src dst with
      | error _ => rfl
      | ok _ => rw [answer] at refused; cases refused

/-- A history leaves what its accepted calls leave, and these are all accepted when they are made
alone. Witness: induction on the calls; a refused call leaves the program that the rest goes on
from.
-/
theorem foldl_accepted (program : Program) (calls : List BuildCall)
    : (program.accepted calls).foldl perform program = calls.foldl perform program
      ∧ program.accepted (program.accepted calls) = program.accepted calls := by
  induction calls generalizing program with
  | nil => exact ⟨rfl, rfl⟩
  | cons call rest ih =>
      cases refused : program.refusal? call with
      | some fault =>
          have onward := ih program
          simpa [accepted, refused, perform_of_refused refused] using onward
      | none =>
          obtain ⟨same, again⟩ := ih (program.perform call)
          simpa [accepted, refused, again] using same

------------------------------------------------------------------------------------------
-- Registered blocks by the calls
------------------------------------------------------------------------------------------

/-- The graphs of a program have registered what the entries say. -/
structure Enrolled (program : Program) (entries : List (List (Int × String))) : Prop where
  size_eq : program.graphs.size = entries.length
  labels_eq : ∀ g, program.labels g = entries.getD g []

namespace Enrolled

variable {entries : List (List (Int × String))}

theorem wire (enrolled : program.Enrolled entries) (consistent : program.Consistent)
    : (program.wire g src dst).1.Enrolled entries := by
  refine ⟨?_, fun h => ?_⟩
  · rw [← enrolled.size_eq]
    simp [Program.wire, listEdge, addSucc, addPred]
  · rw [consistent.labels_wire, enrolled.labels_eq]

theorem addGraph (enrolled : program.Enrolled entries)
    : program.addGraph.1.Enrolled (entries ++ [[]]) := by
  refine ⟨by simp [Program.addGraph, enrolled.size_eq], fun g => ?_⟩
  rw [labels_addGraph, enrolled.labels_eq]
  rcases Nat.lt_trichotomy g entries.length with old | rfl | past
  · simp [List.getElem?_append_left old]
  · simp
  · have beyond : (entries ++ [[]]).length ≤ g := by
      rw [List.length_append]
      exact past
    rw [List.getD_eq_getElem?_getD, List.getD_eq_getElem?_getD,
      List.getElem?_eq_none (Nat.le_of_lt past), List.getElem?_eq_none beyond]

theorem register (enrolled : program.Enrolled entries) (consistent : program.Consistent)
    (g : GraphRef) (name : String) (id : Int)
    : (program.register g name id).1.Enrolled
        (BuildCall.enroll entries (.register g name id)) := by
  refine ⟨?_, fun h => ?_⟩
  · rw [register_eq, BuildCall.enroll, List.length_modify, ← enrolled.size_eq]
    split
    · simp [enlist, addBlock]
    · rfl
  · rw [consistent.labels_register, enrolled.labels_eq, enrolled.size_eq, BuildCall.enroll,
      List.getD_eq_getElem?_getD, List.getD_eq_getElem?_getD, List.getElem?_modify]
    by_cases same : g = h
    · subst same
      cases found : entries[g]? with
      | none => simp_all
      | some known =>
          have inRange := (List.getElem?_eq_some_iff.mp found).1
          by_cases listed : id ∈ known.map Prod.fst
          · simp_all
          · simp_all
    · simp [same]

/-- Each call enrolls what it asks for. -/
theorem perform (enrolled : program.Enrolled entries) (consistent : program.Consistent)
    (call : BuildCall)
    : (program.perform call).Enrolled (BuildCall.enroll entries call) := by
  cases call with
  | graph => exact enrolled.addGraph
  | block name id =>
      exact ⟨enrolled.size_eq, fun g => (consistent.labels_addBlock name id g).trans
        (enrolled.labels_eq g)⟩
  | register g name id => exact enrolled.register consistent g name id
  | connect g srcId dstId =>
      rcases consistent.connect_cases g srcId dstId with ⟨fault, refused⟩ | ⟨src, dst, -, -, added⟩
      · rw [Program.perform, refused]
        exact enrolled
      · rw [Program.perform, added]
        exact enrolled.wire consistent
  | link g src dst =>
      rcases consistent.link_cases g src dst with ⟨fault, refused⟩ | ⟨-, -, added⟩
      · rw [Program.perform, refused]
        exact enrolled
      · rw [Program.perform, added]
        exact enrolled.wire consistent

end Enrolled

/-- A built program has registered what its calls ask for. Witness: induction on the calls, which
keep the program consistent.
-/
theorem enrolled_build (calls : List BuildCall)
    : (build calls).Enrolled (BuildCall.registrations calls) := by
  have carried : ∀ (program : Program) entries, program.Consistent → program.Enrolled entries
      → (calls.foldl perform program).Enrolled (calls.foldl BuildCall.enroll entries) := by
    induction calls with
    | nil => exact fun program entries _ enrolled => enrolled
    | cons call rest ih =>
        intro program entries consistent enrolled
        exact ih _ _ (consistent.perform call) (enrolled.perform consistent call)
  exact carried {} [] .empty ⟨rfl, fun g => by simp [labels, graph]⟩

/-- What a history of calls leaves in a program. -/
structure Follows (program : Program) (calls : List BuildCall) : Prop where
  /-- The neighbours of a registered block are what its graph's edges say, in their order. -/
  succs_eq
    : ∀ g, ∀ ref ∈ (program.graph g).blocks,
        (program.block ref).succs.toList
          = ((program.edgesOf g).filter (·.src = ref)).map Edge.dst
  preds_eq
    : ∀ g, ∀ ref ∈ (program.graph g).blocks,
        (program.block ref).preds.toList
          = ((program.edgesOf g).filter (·.dst = ref)).map Edge.src
  /-- A graph finds a block under an id exactly if it registered the block and the block carries
  the id. -/
  find?_iff
    : ∀ g id ref,
        (program.graph g).find? id = some ref
        ↔ ref ∈ (program.graph g).blocks ∧ program.idOf ref = id
  /-- The registered blocks are what the calls ask for, and the first of them is the start. -/
  enrolled : program.Enrolled (BuildCall.registrations calls)
  start_eq
    : ∀ g,
        (program.graph g).start?.map program.label
          = ((BuildCall.registrations calls).getD g []).head?
  /-- Edge calls are refused for an end that is not registered, the source first. -/
  connect_refused
    : ∀ g srcId dstId fault,
        program.connect g srcId dstId = .error fault
        ↔ srcId ∉ ((BuildCall.registrations calls).getD g []).map Prod.fst
            ∧ fault = .unknownId srcId
          ∨ srcId ∈ ((BuildCall.registrations calls).getD g []).map Prod.fst
            ∧ dstId ∉ ((BuildCall.registrations calls).getD g []).map Prod.fst
            ∧ fault = .unknownId dstId
  link_refused
    : ∀ g src dst fault,
        program.link g src dst = .error fault
        ↔ (program.graph g).find? (program.idOf src) ≠ some src
            ∧ fault = .unregistered (.block src)
          ∨ (program.graph g).find? (program.idOf src) = some src
            ∧ (program.graph g).find? (program.idOf dst) ≠ some dst
            ∧ fault = .unregistered (.block dst)
  /-- Any other edge call adds its edge at the end of its graph's edges. -/
  connect_added
    : ∀ g srcId dstId after e,
        program.connect g srcId dstId = .ok (after, e)
        → ∃ src dst,
            (program.graph g).find? srcId = some src
            ∧ (program.graph g).find? dstId = some dst
            ∧ ∀ h, after.edgesOf h
                = if g = h then program.edgesOf g ++ [⟨src, dst⟩] else program.edgesOf h
  link_added
    : ∀ g src dst after e,
        program.link g src dst = .ok (after, e)
        → ∀ h, after.edgesOf h
            = if g = h then program.edgesOf g ++ [⟨src, dst⟩] else program.edgesOf h

/-- A built program follows its calls, whichever of them are refused, and is what the accepted ones
alone build.
-/
theorem build_follows (calls : List BuildCall)
    : (build calls).Follows calls
      ∧ build (accepted {} calls) = build calls
      ∧ accepted {} (accepted {} calls) = accepted {} calls := by
  have consistent := consistent_build calls
  have enrolled := enrolled_build calls
  have registered_iff (g : GraphRef) (id : Int)
      : ((build calls).graph g).find? id = none
        ↔ id ∉ ((BuildCall.registrations calls).getD g []).map Prod.fst := by
    rw [consistent.find?_eq_none_iff, enrolled.labels_eq]
  refine ⟨⟨?_, ?_, ?_, enrolled, ?_, ?_, ?_, ?_, ?_⟩, foldl_accepted {} calls⟩
  · exact fun g ref member => consistent.succs_eq member
  · exact fun g ref member => consistent.preds_eq member
  · exact fun g id ref => consistent.find?_iff
  · intro g
    rw [← enrolled.labels_eq, labels, List.head?_map, FlowGraph.start?, ← Array.getElem?_toList,
      List.head?_eq_getElem?]
  · intro g srcId dstId fault
    rw [consistent.connect_eq_error_iff, registered_iff, registered_iff, ne_eq, registered_iff,
      not_not]
  · exact fun g src dst fault => link_eq_error_iff
  · intro g srcId dstId after e added
    rcases consistent.connect_cases g srcId dstId with
      ⟨fault, refused⟩ | ⟨src, dst, isSrc, isDst, wired⟩
    · cases refused.symm.trans added
    · obtain ⟨rfl, -⟩ := Prod.mk.inj (Except.ok.inj (wired.symm.trans added))
      exact ⟨src, dst, isSrc, isDst, consistent.edgesOf_wire (consistent.find?_iff.mp isSrc).1⟩
  · intro g src dst after e added
    rcases consistent.link_cases g src dst with ⟨fault, refused⟩ | ⟨srcMem, -, wired⟩
    · cases refused.symm.trans added
    · obtain ⟨rfl, -⟩ := Prod.mk.inj (Except.ok.inj (wired.symm.trans added))
      exact consistent.edgesOf_wire srcMem

end Program

end LoopNest
