import AgentBridge.Reasoning.Forest
import AgentBridge.Reasoning.HashMap
import AgentBridge.Records.Interface

/-!
# Delegation only narrows

The relations between runs form a forest, and the authority a run holds is the one given on the edge
to it, whichever edge was linked first.  Down a path each edge hands on a part of the tools of the
one above, so what the last run may do the first one might, and every grant in between allows it.
-/

namespace AgentBridge

open Reasoning

/-- The runs of a store and the relations between them, each under the run below. -/
structure ExecutionGraph where
  runs : HashMap RunId RunSpec
  relations : HashMap RunId ExecutionRelation

/-- What a checked relation says. -/
structure ExecutionRelation.Valid (relation : ExecutionRelation) (parent child : RunSpec) :
    Prop where
  session : parent.sessionId = child.sessionId
  parentIssuer : relation.parentAuthority.issuer = relation.delegation.issuer
  childIssuer : relation.childAuthority.issuer = relation.delegation.issuer
  tools : ∀ tool ∈ relation.childAuthority.tools,
    tool ∈ relation.parentAuthority.tools ∧ tool ∈ relation.delegation.tools
  records : ∀ id ∈ child.context.records, id ∈ relation.delegation.context.records
  resources : ∀ r ∈ child.context.resources, r ∈ relation.delegation.context.resources
  instructions : ∀ i ∈ child.context.instructions, i ∈ relation.delegation.context.instructions

theorem ExecutionRelation.valid_of_validate {relation : ExecutionRelation} {parent child : RunSpec}
    (h : relation.validate parent child = .ok ()) : relation.Valid parent child := by
  unfold ExecutionRelation.validate at h
  simp only at h
  split at h
  · cases h
  · next hchecks =>
    simp only [not_or, not_not, ne_eq, Bool.not_eq_true, List.any_eq_false, Bool.or_eq_false_iff,
      Bool.not_eq_false', List.contains_iff_mem] at hchecks
    obtain ⟨-, -, -, -, hsession, -, -, -, hparent, hchild, -, htools, hrecords, hresources,
      hinstructions⟩ := hchecks
    exact ⟨hsession, hparent, hchild, htools, hrecords, hresources, hinstructions⟩

namespace ExecutionGraph

def empty : ExecutionGraph := ⟨∅, ∅⟩

def parent (g : ExecutionGraph) (run : RunId) : Option RunId :=
  (g.relations.lookup run).map (·.parent)

structure WellFormed (g : ExecutionGraph) : Prop where
  named : ∀ id spec, g.runs.lookup id = some spec → spec.id = id
  valid : ∀ child relation, g.relations.lookup child = some relation →
    relation.child = child ∧ ∃ parentSpec childSpec,
      g.runs.lookup relation.parent = some parentSpec ∧ g.runs.lookup child = some childSpec ∧
      relation.validate parentSpec childSpec = .ok ()
  /-- The authority on an edge is the one given on the edge above. -/
  consistent : ∀ run edge child below, g.relations.lookup run = some edge →
    g.relations.lookup child = some below → below.parent = run →
    below.parentAuthority = edge.childAuthority
  rooted : Rooted g.parent

theorem wellFormed_empty : empty.WellFormed := by
  refine ⟨?_, ?_, ?_, ?_⟩
  · simp [empty]
  · simp [empty]
  · simp [empty]
  · intro v
    exact ⟨[v], .root (by simp [parent, empty])⟩

/-! ## What the calls do -/

def registered (g : ExecutionGraph) (spec : RunSpec) : ExecutionGraph :=
  { g with runs := g.runs.insert spec.id spec }

def linked (g : ExecutionGraph) (relation : ExecutionRelation) : ExecutionGraph :=
  { g with relations := g.relations.insert relation.child relation }

/-- What `link_execution` checks of a new relation, above it and below it. -/
structure Links (g : ExecutionGraph) (relation : ExecutionRelation) : Prop where
  fresh : g.relations.lookup relation.child = none
  valid : ∃ parentSpec childSpec, g.runs.lookup relation.parent = some parentSpec ∧
    g.runs.lookup relation.child = some childSpec ∧ relation.validate parentSpec childSpec = .ok ()
  upward : ∀ edge, g.relations.lookup relation.parent = some edge →
    edge.childAuthority = relation.parentAuthority
  downward : ∀ child edge, g.relations.lookup child = some edge → edge.parent = relation.child →
    edge.parentAuthority = relation.childAuthority
  acyclic : ∀ l, Lineage g.parent relation.parent l → relation.child ∉ l

/-- What a call can do to the graph. -/
inductive Step (g : ExecutionGraph) : ExecutionGraph → Prop where
  | same : Step g g
  | register {spec : RunSpec} (hfresh : g.runs.lookup spec.id = none) : Step g (g.registered spec)
  | link {relation : ExecutionRelation} (h : g.Links relation) : Step g (g.linked relation)

variable {g g' : ExecutionGraph}

theorem lookup_linked (g : ExecutionGraph) (relation : ExecutionRelation) (run : RunId) :
    (g.linked relation).relations.lookup run =
      if run = relation.child then some relation else g.relations.lookup run :=
  HashMap.lookup_insert_eq _ _ _ _

theorem parent_linked (g : ExecutionGraph) (relation : ExecutionRelation) :
    (g.linked relation).parent =
      fun run => if run = relation.child then some relation.parent else g.parent run := by
  funext run
  rw [parent, lookup_linked]
  split
  · rfl
  · rfl

theorem WellFormed.registered (h : g.WellFormed) {spec : RunSpec}
    (hfresh : g.runs.lookup spec.id = none) : (g.registered spec).WellFormed := by
  have hlookup : ∀ id, (g.registered spec).runs.lookup id =
      if id = spec.id then some spec else g.runs.lookup id :=
    fun id => HashMap.lookup_insert_eq _ _ _ _
  have hkeep : ∀ id other, g.runs.lookup id = some other →
      (g.registered spec).runs.lookup id = some other := by
    intro id other hother
    rw [hlookup, if_neg, hother]
    intro heq
    rw [heq, hfresh] at hother
    cases hother
  refine { h with named := ?_, valid := ?_ }
  · intro id other hother
    rw [hlookup] at hother
    split at hother
    · next heq =>
      obtain rfl := Option.some.inj hother
      exact heq.symm
    · exact h.named id other hother
  · intro child relation hrelation
    obtain ⟨hchild, parentSpec, childSpec, hparent, hchildSpec, hvalid⟩ :=
      h.valid child relation hrelation
    exact ⟨hchild, parentSpec, childSpec, hkeep _ _ hparent, hkeep _ _ hchildSpec, hvalid⟩

theorem WellFormed.linked (h : g.WellFormed) {relation : ExecutionRelation} (hl : g.Links relation) :
    (g.linked relation).WellFormed := by
  obtain ⟨parentSpec, childSpec, hparent, hchild, hvalid⟩ := hl.valid
  have hne : relation.parent ≠ relation.child := ExecutionRelation.validate_ne hvalid
  refine { h with valid := ?_, consistent := ?_, rooted := ?_ }
  · intro child other hother
    rw [lookup_linked] at hother
    split at hother
    · next heq =>
      obtain rfl := Option.some.inj hother
      exact ⟨heq.symm, parentSpec, childSpec, hparent, heq ▸ hchild, hvalid⟩
    · exact h.valid child other hother
  · intro run edge child below hedge hbelow hrun
    rw [lookup_linked] at hedge hbelow
    -- the new edge is the upper one, the lower one, or neither; it is never both
    split at hedge
    · next heq =>
      obtain rfl := Option.some.inj hedge
      split at hbelow
      · obtain rfl := Option.some.inj hbelow
        exact absurd (hrun.trans heq) hne
      · exact hl.downward child below hbelow (hrun.trans heq)
    · split at hbelow
      · obtain rfl := Option.some.inj hbelow
        rw [← hrun] at hedge
        exact (hl.upward edge hedge).symm
      · exact h.consistent run edge child below hedge hbelow hrun
  · rw [parent_linked]
    refine h.rooted.link ?_ hl.acyclic
    rw [parent, hl.fresh]
    rfl

theorem WellFormed.step (h : g.WellFormed) (hstep : g.Step g') : g'.WellFormed := by
  cases hstep with
  | same => exact h
  | register hfresh => exact h.registered hfresh
  | link hl => exact h.linked hl

end ExecutionGraph

/-! ## Paths -/

/-- Edges one below the other, from a first to a last one. -/
inductive DelegationPath (edge : ExecutionRelation → Prop) :
    ExecutionRelation → ExecutionRelation → List ExecutionRelation → Prop where
  | single {e : ExecutionRelation} (h : edge e) : DelegationPath edge e e [e]
  | cons {e f last : ExecutionRelation} {path : List ExecutionRelation} (h : edge e)
      (hbelow : f.parent = e.child) (rest : DelegationPath edge f last path) :
      DelegationPath edge e last (e :: path)

/-- All authority on a path has one issuer, and each edge holds all the tools of the last. -/
structure Narrows (first last : ExecutionRelation) (path : List ExecutionRelation) : Prop where
  issuer : ∀ e ∈ path, e.parentAuthority.issuer = first.parentAuthority.issuer ∧
    e.delegation.issuer = first.parentAuthority.issuer ∧
    e.childAuthority.issuer = first.parentAuthority.issuer
  tools : ∀ tool ∈ last.childAuthority.tools, tool ∈ first.parentAuthority.tools ∧
    ∀ e ∈ path, tool ∈ e.delegation.tools

/-- What a run is given on an edge is what it hands on below. -/
theorem DelegationPath.narrows {edge : ExecutionRelation → Prop}
    (hvalid : ∀ e, edge e → ∃ parentSpec childSpec, e.Valid parentSpec childSpec)
    (hconsistent : ∀ e f, edge e → edge f → f.parent = e.child →
      f.parentAuthority = e.childAuthority)
    {first last : ExecutionRelation} {path : List ExecutionRelation}
    (h : DelegationPath edge first last path) : edge first ∧ Narrows first last path := by
  induction h with
  | @single e he =>
    obtain ⟨_, _, hv⟩ := hvalid e he
    refine ⟨he, ⟨?_, ?_⟩⟩
    · intro e' he'
      obtain rfl := List.mem_singleton.mp he'
      exact ⟨rfl, hv.parentIssuer.symm, hv.childIssuer.trans hv.parentIssuer.symm⟩
    · intro tool htool
      obtain ⟨hparent, hgrant⟩ := hv.tools tool htool
      refine ⟨hparent, fun e' he' => ?_⟩
      obtain rfl := List.mem_singleton.mp he'
      exact hgrant
  | @cons e f last path he hbelow rest ih =>
    obtain ⟨hf, ih⟩ := ih
    obtain ⟨_, _, hv⟩ := hvalid e he
    have hsame : f.parentAuthority = e.childAuthority := hconsistent e f he hf hbelow
    have hissuer : f.parentAuthority.issuer = e.parentAuthority.issuer := by
      rw [hsame, hv.childIssuer, hv.parentIssuer]
    refine ⟨he, ⟨?_, ?_⟩⟩
    · intro e' he'
      rcases List.mem_cons.mp he' with rfl | hrest
      · exact ⟨rfl, hv.parentIssuer.symm, hv.childIssuer.trans hv.parentIssuer.symm⟩
      · rw [← hissuer]
        exact ih.issuer e' hrest
    · intro tool htool
      obtain ⟨hheld, hgrants⟩ := ih.tools tool htool
      rw [hsame] at hheld
      obtain ⟨hparent, hgrant⟩ := hv.tools tool hheld
      refine ⟨hparent, fun e' he' => ?_⟩
      rcases List.mem_cons.mp he' with rfl | hrest
      · exact hgrant
      · exact hgrants e' hrest

/-! ## Stores -/

section Stores

variable {σ : Type}

/-- A store has a relation. -/
def HasRelation (m : StoreMachine σ) (s : σ) (e : ExecutionRelation) : Prop :=
  (m.exec (.executionParent e.child) s).1 = .ok (some e)

/-- One run is the parent of another. -/
def IsParent (m : StoreMachine σ) (s : σ) (a c : RunId) : Prop :=
  ∃ e, HasRelation m s e ∧ e.parent = a ∧ e.child = c

def sessionOf (m : StoreMachine σ) (s : σ) (run : RunId) : Option SessionId :=
  match (m.exec (.getRun run) s).1 with
  | .ok spec => some spec.sessionId
  | .error _ => none

structure DelegationForest (m : StoreMachine σ) (s : σ) : Prop where
  /-- A run has one parent edge at most, and reading it never fails. -/
  parent : ∀ run, ∃ edge, (m.exec (.executionParent run) s).1 = .ok edge ∧
    ∀ e, edge = some e → e.child = run
  acyclic : ∀ run, ¬ Relation.TransGen (IsParent m s) run run
  registered : ∀ a c, IsParent m s a c → (sessionOf m s a).isSome ∧ (sessionOf m s c).isSome
  /-- The runs of a tree are in one session. -/
  session : ∀ a b, Relation.EqvGen (IsParent m s) a b → sessionOf m s a = sessionOf m s b
  authority : ∀ e f, HasRelation m s e → HasRelation m s f → f.parent = e.child →
    f.parentAuthority = e.childAuthority
  narrows : ∀ first last path, DelegationPath (HasRelation m s) first last path →
    Narrows first last path
  context : ∀ e, HasRelation m s e → ∃ child, (m.exec (.getRun e.child) s).1 = .ok child ∧
    (∀ id ∈ child.context.records, id ∈ e.delegation.context.records) ∧
    (∀ r ∈ child.context.resources, r ∈ e.delegation.context.resources) ∧
    ∀ i ∈ child.context.instructions, i ∈ e.delegation.context.instructions

/-- A store holds a graph, reads it without failing, and moves it by the steps above. -/
structure Delegates (m : StoreMachine σ) (holds : ExecutionGraph → σ → Prop) : Prop where
  wellFormed : ∀ g s, holds g s → g.WellFormed
  parent : ∀ g s run, holds g s →
    (m.exec (.executionParent run) s).1 = .ok (g.relations.lookup run)
  run : ∀ g s id, holds g s → (m.exec (.getRun id) s).1 =
    match g.runs.lookup id with
    | some spec => .ok spec
    | none => .error (.error .missingRun)
  step : ∀ {β : Type} (c : StoreCall β) g s, holds g s →
    ∃ g', holds g' (m.exec c s).2 ∧ g.Step g'

namespace Delegates

variable {m : StoreMachine σ} {holds : ExecutionGraph → σ → Prop} {g : ExecutionGraph} {s : σ}

theorem hasRelation_iff (h : Delegates m holds) (hs : holds g s) {e : ExecutionRelation} :
    HasRelation m s e ↔ g.relations.lookup e.child = some e := by
  unfold HasRelation
  rw [h.parent g s e.child hs, Except.ok.injEq]

theorem isParent_iff (h : Delegates m holds) (hs : holds g s) {a c : RunId} :
    IsParent m s a c ↔ g.parent c = some a := by
  have hwf := h.wellFormed g s hs
  unfold IsParent ExecutionGraph.parent
  rw [Option.map_eq_some_iff]
  constructor
  · rintro ⟨e, he, hparent, hchild⟩
    rw [h.hasRelation_iff hs, hchild] at he
    exact ⟨e, he, hparent⟩
  · rintro ⟨e, he, hparent⟩
    have hchild := (hwf.valid c e he).1
    exact ⟨e, (h.hasRelation_iff hs).mpr (hchild ▸ he), hparent, hchild⟩

theorem sessionOf_eq (h : Delegates m holds) (hs : holds g s) (run : RunId) :
    sessionOf m s run = (g.runs.lookup run).map (·.sessionId) := by
  unfold sessionOf
  rw [h.run g s run hs]
  cases g.runs.lookup run with
  | none => rfl
  | some spec => rfl

theorem forest (h : Delegates m holds) (hs : holds g s) : DelegationForest m s := by
  have hwf := h.wellFormed g s hs
  have hconsistent : ∀ e f, HasRelation m s e → HasRelation m s f → f.parent = e.child →
      f.parentAuthority = e.childAuthority := by
    intro e f he hf hbelow
    rw [h.hasRelation_iff hs] at he hf
    exact hwf.consistent e.child e f.child f he hf hbelow
  have hvalid : ∀ e, HasRelation m s e → ∃ parentSpec childSpec,
      g.runs.lookup e.parent = some parentSpec ∧ g.runs.lookup e.child = some childSpec ∧
        e.Valid parentSpec childSpec := by
    intro e he
    rw [h.hasRelation_iff hs] at he
    obtain ⟨-, parentSpec, childSpec, hparent, hchild, hv⟩ := hwf.valid e.child e he
    exact ⟨parentSpec, childSpec, hparent, hchild, ExecutionRelation.valid_of_validate hv⟩
  have hsession : ∀ a c, IsParent m s a c →
      (sessionOf m s a).isSome ∧ (sessionOf m s c).isSome ∧ sessionOf m s a = sessionOf m s c := by
    rintro a c ⟨e, he, rfl, rfl⟩
    obtain ⟨parentSpec, childSpec, hparent, hchild, hv⟩ := hvalid e he
    rw [h.sessionOf_eq hs, h.sessionOf_eq hs, hparent, hchild]
    exact ⟨rfl, rfl, congrArg some hv.session⟩
  constructor
  case parent =>
    intro run
    refine ⟨_, h.parent g s run hs, fun e he => (hwf.valid run e he).1⟩
  case acyclic =>
    intro run hcycle
    have hle : IsParent m s ≤ fun a c => g.parent c = some a := fun a c => (h.isParent_iff hs).mp
    exact hwf.rooted.irreflexive run (Relation.TransGen.mono hle run run hcycle)
  case registered => exact fun a c hac => ⟨(hsession a c hac).1, (hsession a c hac).2.1⟩
  case session =>
    intro a b hab
    induction hab with
    | rel a c hac => exact (hsession a c hac).2.2
    | refl a => rfl
    | symm a b _ ih => exact ih.symm
    | trans a b c _ _ ih ih' => exact ih.trans ih'
  case authority => exact hconsistent
  case narrows =>
    intro first last path hpath
    refine (hpath.narrows (fun e he => ?_) hconsistent).2
    obtain ⟨parentSpec, childSpec, -, -, hv⟩ := hvalid e he
    exact ⟨parentSpec, childSpec, hv⟩
  case context =>
    intro e he
    obtain ⟨parentSpec, childSpec, -, hchild, hv⟩ := hvalid e he
    refine ⟨childSpec, ?_, hv.records, hv.resources, hv.instructions⟩
    rw [h.run g s e.child hs, hchild]

theorem after (h : Delegates m holds) (hs : holds g s) (ops : List StoreOp) :
    ∃ g', holds g' (m.after ops s) :=
  m.after_invariant (P := fun s => ∃ g, holds g s)
    (fun c s ⟨g, hg⟩ => (h.step c g s hg).imp fun _ h => h.1) ops ⟨g, hs⟩

end Delegates

end Stores

end AgentBridge
