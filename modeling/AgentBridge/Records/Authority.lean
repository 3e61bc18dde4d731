import AgentBridge.Records.Refinement.GraphRows
import AgentBridge.Records.SingleUse

/-!
# Delegation in both stores

Each store holds a graph of runs and relations: the in-memory store in two maps, the SQLite store in
the rows of two tables.
-/

namespace AgentBridge

open Reasoning

/-- The calls that write runs. -/
def writesRuns {β : Type} : StoreCall β → Bool
  | .registerRun _ => true
  | _ => false

/-! ## The in-memory store -/

namespace MemoryStore

theorem exec_runs {state : State} (hwf : state.WellFormed) {β : Type} {c : StoreCall β}
    (h : writesRuns c = false) : (exec c state).2.runs = state.runs := by
  cases hw : writesHistory c with
  | false => exact (exec_sameHistory state hw).runs
  | true =>
    cases c with
    | registerRun spec => cases h
    | insert draft =>
      show (insert draft state).2.runs = _
      rcases insert_cases draft state with ⟨e, he⟩ | ⟨entry, -, -, he⟩ | ⟨ids, -, he⟩ <;>
        rw [he]
      rfl
    | checkpoint id r payload next =>
      show (checkpoint id r payload next state).2.runs = _
      rcases checkpoint_cases id r payload next state with ⟨e, he⟩ | ⟨entry, new, -, -, he⟩ <;>
        rw [he]
      rfl
    | resolve request r decision =>
      show (resolve request r decision state).2.runs = _
      rcases resolve_cases (fun q a hd => (hwf.decisions q a hd).2) request r decision with
        ⟨e, he⟩ | ⟨response, entry, -, -, he⟩ | ⟨entry, ids, -, he⟩ <;>
        rw [he]
      rfl
    | _ => cases hw

theorem exec_relations {state : State} (hwf : state.WellFormed) {β : Type} {c : StoreCall β}
    (h : writesRelations c = false) :
    (exec c state).2.executionRelations = state.executionRelations := by
  cases hw : writesHistory c with
  | true => exact (exec_sameLinks hwf hw).relations
  | false =>
    cases c with
    | createSession id =>
      show (createSession id state).2.executionRelations = _
      unfold createSession
      split <;> rfl
    | saveContinuation value =>
      show (saveContinuation value state).2.executionRelations = _
      rcases saveContinuation_cases value state with ⟨e, he⟩ | ⟨record, -, -, he⟩ | ⟨-, he⟩ <;>
        rw [he]
    | linkExecution relation => cases h
    | registerRun spec => cases hw
    | insert draft => cases hw
    | checkpoint id r payload next => cases hw
    | resolve request r decision => cases hw
    | _ => rfl

def State.graph (state : State) : ExecutionGraph := ⟨state.runs, state.executionRelations⟩

/-- The in-memory store holds its graph. -/
def HoldsGraph (g : ExecutionGraph) (state : State) : Prop :=
  state.WellFormed ∧ g.WellFormed ∧ state.graph = g

/-- What the checks of `link_execution` in the in-memory store have found. -/
theorem links_of_ok {state : State} {relation relation' : ExecutionRelation}
    (hfresh : state.executionRelations.lookup relation.child = none)
    (hok : (linkExecution relation state).1 = .ok relation') : state.graph.Links relation := by
  rcases linkExecution_cases relation state with
    ⟨e, he⟩ | ⟨hold, -⟩ | ⟨parent, child, hparent, hchild, hvalid, -, -⟩
  · rw [he] at hok
    cases hok
  · rw [hfresh] at hold
    cases hold
  have hrest := hok
  simp only [linkExecution, hfresh, hparent, hchild, hvalid] at hrest
  split at hrest
  · cases hrest
  · next hedges =>
    simp only [Bool.or_eq_true, not_or, Bool.not_eq_true] at hedges
    obtain ⟨hup, hdown⟩ := hedges
    refine ⟨hfresh, ⟨parent, child, hparent, hchild, hvalid⟩, ?_, ?_, ?_⟩
    · intro edge hedge
      have hedge' : state.executionRelations.lookup relation.parent = some edge := hedge
      rw [hedge'] at hup
      simpa using hup
    · intro run edge hedge hbelow
      have hmem : edge ∈ state.executionRelations.values :=
        (HashMap.mem_values_iff _ _).mpr ⟨run, hedge⟩
      have hedge' := List.any_eq_false.mp hdown edge hmem
      simpa [hbelow] using hedge'
    · intro l hl hmem
      split at hrest
      · cases hrest
      have hwalk : walkAncestors state.executionRelations relation.child relation.parent [] =
          .error (.error .executionCycle) :=
        (walkAncestors_lineage hl (by simp)).trans (if_pos hmem)
      rw [hwalk] at hrest
      cases hrest

theorem delegates : Delegates machine HoldsGraph where
  wellFormed g s h := h.2.1
  parent g s run h := by
    obtain ⟨-, -, rfl⟩ := h
    rfl
  run g s id h := by
    obtain ⟨-, -, rfl⟩ := h
    have hruns : s.graph.runs = s.runs := rfl
    rw [hruns]
    show getRun id s = _
    unfold getRun
    cases s.runs.lookup id <;> rfl
  step c g s h := by
    obtain ⟨hwf, hg, rfl⟩ := h
    have hwf' : (exec c s).2.WellFormed := hwf.exec c
    have hstep : s.graph.Step (exec c s).2.graph := by
      cases hr : writesRuns c with
      | true =>
        cases c with
        | registerRun spec =>
          show s.graph.Step (registerRun spec s).2.graph
          rcases registerRun_cases spec s with ⟨e, he⟩ | ⟨-, he⟩ | ⟨hfresh, -, -, -, he⟩
          · rw [he]
            exact .same
          · rw [he]
            exact .same
          · rw [he]
            exact .register hfresh
        | _ => cases hr
      | false =>
        cases hl : writesRelations c with
        | true =>
          cases c with
          | linkExecution relation =>
            show s.graph.Step (linkExecution relation s).2.graph
            rcases linkExecution_cases relation s with
              ⟨e, he⟩ | ⟨-, he⟩ | ⟨_, _, -, -, -, hfresh, he⟩
            · rw [he]
              exact .same
            · rw [he]
              exact .same
            · have hlinks := links_of_ok hfresh (by rw [he])
              rw [he]
              exact .link hlinks
          | _ => cases hl
        | false =>
          have hsame : (exec c s).2.graph = s.graph := by
            unfold State.graph
            rw [exec_runs hwf hr, exec_relations hwf hl]
          rw [hsame]
          exact .same
    exact ⟨_, ⟨hwf', hg.step hstep, rfl⟩, hstep⟩

end MemoryStore

/-! ## The SQLite store -/

namespace SqliteStore

variable {Text : Type} {J : SerdeJson Text} {db : Db Text}

theorem call_runs (hs : db.Sound) {β : Type} {c : StoreCall β} (h : writesRuns c = false) :
    (call J c db).2.runs = db.runs := by
  cases hw : writesHistory c with
  | false => exact (call_quiet c hw).runs
  | true =>
    cases c with
    | registerRun spec => cases h
    | insert draft =>
      show (write (insert J draft) db).2.runs = _
      rcases insert_cases J draft db with ⟨e, he⟩ | ⟨e, -, -, he⟩ | ⟨next, -, he⟩ <;>
        rw [he]
      rfl
    | checkpoint id r payload next =>
      show (write (checkpoint J id r payload next) db).2.runs = _
      rcases checkpoint_cases hs id r payload next with
        ⟨e, he⟩ | ⟨e, -, -, he⟩ | ⟨e, row, change, -, -, he⟩ <;>
        rw [he]
      rfl
    | resolve request r decision =>
      show (write (resolve J request r decision) db).2.runs = _
      rcases resolve_cases hs request r decision with
        ⟨e, he⟩ | ⟨response, e, -, -, he⟩ | ⟨e, row, change, next, -, he⟩ <;>
        rw [he]
      rfl
    | _ => cases hw

theorem saveContinuation_relations {value : Continuation} {result : ContinuationRecord × Db Text}
    (h : saveContinuation J value db = .ok result) :
    result.2.executionRelations = db.executionRelations := by
  unfold saveContinuation at h
  simp only [bind_eq_ok] at h
  obtain ⟨_, -, _, -, found, -, h⟩ := h
  cases found with
  | some existing =>
    simp only at h
    split at h <;> cases h
    rfl
  | none =>
    simp only [bind_eq_ok, Except.ok.injEq] at h
    obtain ⟨previous, -, _, -, _, -, inserted, hinsert, rfl⟩ := h
    obtain rfl := RegistryRows.insertContinuation_eq_ok hinsert
    cases previous with
    | none => rfl
    | some previous =>
      show (Db.updateContinuation _ _ _).executionRelations = _
      unfold Db.updateContinuation
      split <;> rfl

theorem call_relations (hs : db.Sound) {β : Type} {c : StoreCall β}
    (h : writesRelations c = false) :
    (call J c db).2.executionRelations = db.executionRelations := by
  cases hw : writesHistory c with
  | true => exact (call_sameLinks hs hw).relations
  | false =>
    cases c with
    | createSession id =>
      show (db.insertSession id.asStr).executionRelations = _
      unfold Db.insertSession
      split <;> rfl
    | saveContinuation value =>
      show (write (saveContinuation J value) db).2.executionRelations = _
      cases hsave : saveContinuation J value db with
      | error e => rw [write_error hsave]
      | ok result =>
        rw [write_ok hsave]
        exact saveContinuation_relations hsave
    | claimContinuation id =>
      show (write (claimContinuation J id) db).2.executionRelations = _
      cases hclaim : claimContinuation J id db with
      | error e => rw [write_error hclaim]
      | ok result =>
        rw [write_ok hclaim]
        unfold claimContinuation at hclaim
        obtain ⟨found, -, hclaim⟩ := bind_eq_ok.mp hclaim
        cases found with
        | none => cases hclaim
        | some record =>
          simp only at hclaim
          split at hclaim <;> cases hclaim
          unfold Db.updateContinuation
          split <;> rfl
    | linkExecution relation => cases h
    | registerRun spec => cases hw
    | insert draft => cases hw
    | checkpoint id r payload next => cases hw
    | resolve request r decision => cases hw
    | _ => rfl

/-- The database holds a graph in the rows of its tables. -/
def HoldsGraph (J : SerdeJson Text) (g : ExecutionGraph) (db : Db Text) : Prop :=
  db.Sound ∧ GraphRows J g db

theorem delegates (hJ : J.Lawful) : Delegates (machine J) (HoldsGraph J) where
  wellFormed g s h := h.2.wellFormed
  parent g s run h := by
    show orFault (readRelation J s run) = _
    rw [h.2.readRelation hJ]
    rfl
  run g s id h := by
    show orFault (getRun J id s) = _
    unfold getRun
    rw [h.2.readRun hJ]
    cases g.runs.lookup id <;> rfl
  step c g s h := by
    obtain ⟨hs, hrows⟩ := h
    have hs' : (call J c s).2.Sound := hs.step (call_step hs c)
    have hsame : ∀ db', db' = s → GraphRows J g db' := fun db' heq => heq ▸ hrows
    suffices hstep : ∃ g', GraphRows J g' (call J c s).2 ∧ g.Step g' by
      obtain ⟨g', hrows', hstep⟩ := hstep
      exact ⟨g', ⟨hs', hrows'⟩, hstep⟩
    cases hr : writesRuns c with
    | true =>
      cases c with
      | registerRun spec =>
        show ∃ g', GraphRows J g' (write (registerRun J spec) s).2 ∧ g.Step g'
        rcases registerRun_cases J spec s with ⟨e, he⟩ | ⟨-, he⟩ | ⟨hfresh, -, -, -, he⟩
        · exact ⟨g, hsame _ (by rw [he]), .same⟩
        · exact ⟨g, hsame _ (by rw [he]), .same⟩
        · obtain ⟨hnone, hafter⟩ := hrows.registered hfresh
          rw [he]
          exact ⟨_, hafter, .register hnone⟩
      | _ => cases hr
    | false =>
      cases hl : writesRelations c with
      | true =>
        cases c with
        | linkExecution relation =>
          show ∃ g', GraphRows J g' (write (linkExecution J relation) s).2 ∧ g.Step g'
          rcases hrows.link_cases hJ relation with ⟨e, he⟩ | he | ⟨hlinks, hafter⟩
          · exact ⟨g, hsame _ (by rw [he]), .same⟩
          · exact ⟨g, hsame _ he, .same⟩
          · exact ⟨_, hafter, .link hlinks⟩
        | _ => cases hl
      | false => exact ⟨g, hrows.congr (call_runs hs hr) (call_relations hs hl), .same⟩

end SqliteStore

/-! ## Both stores -/

/-- The walk of `link_execution` up from a run ends: it is along a list without repetitions. -/
structure WalkEnds {σ : Type} (m : StoreMachine σ) (s : σ)
    (walk : RunId → RunId → Except Fault Unit) (run : RunId) (lineage : List RunId) : Prop where
  first : lineage.head? = some run
  nodup : lineage.Nodup
  parents : lineage.IsChain fun c a => IsParent m s a c
  root : ∀ last, lineage.getLast? = some last → ∀ a, ¬ IsParent m s a last
  result : ∀ child, walk child run =
    if child ∈ lineage then .error (.error .executionCycle) else .ok ()

namespace Delegates

variable {σ : Type} {m : StoreMachine σ} {holds : ExecutionGraph → σ → Prop} {g : ExecutionGraph}
  {s : σ}

theorem lineage_isChain {parent : RunId → Option RunId} {run : RunId} {l : List RunId}
    (h : Lineage parent run l) : l.head? = some run ∧ l.IsChain (fun c a => parent c = some a) ∧
      ∀ last, l.getLast? = some last → parent last = none := by
  induction h with
  | root hroot => exact ⟨rfl, .singleton _, fun last hlast => by
      rw [List.getLast?_singleton, Option.some.injEq] at hlast
      exact hlast ▸ hroot⟩
  | @child v p l hparent hrest ih =>
    obtain ⟨hhead, hchain, hlast⟩ := ih
    cases l with
    | nil => cases hhead
    | cons q rest =>
      obtain rfl := Option.some.inj hhead
      refine ⟨rfl, .cons_cons hparent hchain, fun last hl => hlast last ?_⟩
      rw [List.getLast?_cons_cons] at hl
      exact hl

/-- Up from every run the walk ends. -/
theorem walkEnds (h : Delegates m holds) (hs : holds g s) {walk : RunId → RunId → Except Fault Unit}
    (hwalk : ∀ child run, walk child run = MemoryStore.walkAncestors g.relations child run [])
    (run : RunId) : ∃ lineage, WalkEnds m s walk run lineage := by
  obtain ⟨l, hl⟩ := (h.wellFormed g s hs).rooted run
  obtain ⟨hhead, hchain, hlast⟩ := lineage_isChain hl
  refine ⟨l, hhead, hl.nodup, ?_, ?_, ?_⟩
  · exact hchain.imp fun c a hca => (h.isParent_iff hs).mpr hca
  · intro last hlast' a hparent
    rw [h.isParent_iff hs, hlast last hlast'] at hparent
    cases hparent
  · intro child
    rw [hwalk]
    exact MemoryStore.walkAncestors_lineage hl (by simp)

end Delegates

theorem MemoryStore.holdsGraph_default : MemoryStore.HoldsGraph .empty MemoryStore.State.default :=
  ⟨.default, ExecutionGraph.wellFormed_empty, rfl⟩

theorem byName_empty {kind : IdKind} {V : Type} (name : String) :
    byName (∅ : HashMap (Identifier kind) V) name = none := by
  unfold byName
  split <;> simp

theorem SqliteStore.holdsGraph_empty {Text : Type} (J : SerdeJson Text) (epoch : String) :
    SqliteStore.HoldsGraph J .empty (SqliteStore.Db.empty Text epoch) := by
  refine ⟨.empty epoch, ExecutionGraph.wellFormed_empty, fun name => ?_, fun name => ?_⟩
  · rw [ExecutionGraph.empty, byName_empty]
    rfl
  · rw [ExecutionGraph.empty, byName_empty]
    rfl

theorem delegation_only_narrows :
    (∀ ops, DelegationForest MemoryStore.machine (MemoryStore.machine.after ops .default) ∧
      ∀ run, ∃ lineage, WalkEnds MemoryStore.machine (MemoryStore.machine.after ops .default)
        (fun child run => MemoryStore.walkAncestors
          (MemoryStore.machine.after ops .default).executionRelations child run []) run lineage) ∧
    ∀ {Text : Type} (J : SerdeJson Text) (epoch : String), J.Lawful → ∀ ops,
      DelegationForest (SqliteStore.machine J)
        ((SqliteStore.machine J).after ops (SqliteStore.Db.empty Text epoch)) ∧
      ∀ run, ∃ lineage, WalkEnds (SqliteStore.machine J)
        ((SqliteStore.machine J).after ops (SqliteStore.Db.empty Text epoch))
        (fun child run => orFault (SqliteStore.walkAncestors J
          ((SqliteStore.machine J).after ops (SqliteStore.Db.empty Text epoch)) child run []))
        run lineage := by
  constructor
  · intro ops
    obtain ⟨g, hs⟩ := MemoryStore.delegates.after MemoryStore.holdsGraph_default ops
    refine ⟨MemoryStore.delegates.forest hs, MemoryStore.delegates.walkEnds hs fun child run => ?_⟩
    rw [← hs.2.2]
    rfl
  · intro Text J epoch hJ ops
    have hstore := SqliteStore.delegates hJ
    obtain ⟨g, hs⟩ := hstore.after (SqliteStore.holdsGraph_empty J epoch) ops
    exact ⟨hstore.forest hs, hstore.walkEnds hs fun child run =>
      SqliteStore.walkAncestors_of_reads (hs.2.readRelation hJ) child run []⟩

namespace Sample

def team : SessionId := ⟨"team", by decide⟩

def host : ActorId := ⟨"host", by decide⟩

def worker : ActorId := ⟨"worker", by decide⟩

def runOf (id : RunId) (slot : SlotId) : RunSpec :=
  { id, sessionId := team, slotId := slot, context := .default, config := .default,
    continuation := none }

def lead : RunSpec := runOf ⟨"lead", by decide⟩ ⟨"first", (rfl : false = false)⟩

def helper : RunSpec := runOf ⟨"helper", by decide⟩ ⟨"second", (rfl : false = false)⟩

def clerk : RunSpec := runOf ⟨"clerk", by decide⟩ ⟨"third", (rfl : false = false)⟩

def search : ToolRef := ⟨"search", "1"⟩

def edit : ToolRef := ⟨"edit", "1"⟩

/-- The lead may search and edit, and lets its helper do both. -/
def helps : ExecutionRelation where
  parent := lead.id
  child := helper.id
  parentAuthority := ⟨host, host, ⟨team, lead.slotId⟩, [search, edit]⟩
  delegation := ⟨host, host, lead.id, .default, [search, edit]⟩
  childAuthority := ⟨host, worker, ⟨team, helper.slotId⟩, [search, edit]⟩

/-- The helper lets a clerk search. -/
def searches : ExecutionRelation where
  parent := helper.id
  child := clerk.id
  parentAuthority := helps.childAuthority
  delegation := ⟨host, worker, helper.id, .default, [search]⟩
  childAuthority := ⟨host, worker, ⟨team, clerk.slotId⟩, [search]⟩

def runOps : List StoreOp :=
  [⟨.createSession team⟩, ⟨.registerRun lead⟩, ⟨.registerRun helper⟩, ⟨.registerRun clerk⟩]

def linkOps : List StoreOp := [⟨.linkExecution helps⟩, ⟨.linkExecution searches⟩]

/-- The runs are registered. -/
def runsDb : SqliteStore.Db Json :=
  (SqliteStore.machine SerdeJson.tree).after runOps (SqliteStore.Db.empty Json "epoch")

/-- The row of a relation is inserted. -/
def related (db : SqliteStore.Db Json) (relation : ExecutionRelation) : SqliteStore.Db Json :=
  { db with
    executionRelations := db.executionRelations.insert relation.child.asStr
      ⟨relation.parent.asStr, Codec.documentText SerdeJson.tree relation⟩
    written := .relation relation :: db.written }

def helpsDb : SqliteStore.Db Json := related runsDb helps

def searchesDb : SqliteStore.Db Json := related helpsDb searches

theorem helps_is_linked :
    SqliteStore.linkExecution SerdeJson.tree helps runsDb = .ok (helps, helpsDb) := by
  have hwalk : SqliteStore.walkAncestors SerdeJson.tree runsDb helps.child helps.parent [] =
      .ok () := by
    rw [SqliteStore.walkAncestors_eq]
    rfl
  unfold SqliteStore.linkExecution
  simp only [hwalk]
  rfl

theorem searches_is_linked :
    SqliteStore.linkExecution SerdeJson.tree searches helpsDb = .ok (searches, searchesDb) := by
  -- the walk goes up from the helper to the lead
  have hlead : SqliteStore.walkAncestors SerdeJson.tree helpsDb searches.child lead.id
      [helper.id] = .ok () := by
    rw [SqliteStore.walkAncestors_eq]
    rfl
  have hwalk : SqliteStore.walkAncestors SerdeJson.tree helpsDb searches.child searches.parent [] =
      .ok () := by
    rw [SqliteStore.walkAncestors_eq]
    exact hlead
  unfold SqliteStore.linkExecution
  simp only [hwalk]
  rfl

theorem after_linkOps : (SqliteStore.machine SerdeJson.tree).after (runOps ++ linkOps)
    (SqliteStore.Db.empty Json "epoch") = searchesDb := by
  rw [Machine.after_append]
  show (SqliteStore.write (SqliteStore.linkExecution SerdeJson.tree searches)
    (SqliteStore.write (SqliteStore.linkExecution SerdeJson.tree helps) runsDb).2).2 = searchesDb
  rw [SqliteStore.write_ok helps_is_linked, SqliteStore.write_ok searches_is_linked]

/-- From the lead to the clerk. -/
theorem clerk_is_below : DelegationPath (HasRelation (SqliteStore.machine SerdeJson.tree)
    ((SqliteStore.machine SerdeJson.tree).after (runOps ++ linkOps)
      (SqliteStore.Db.empty Json "epoch"))) helps searches [helps, searches] := by
  rw [after_linkOps]
  exact .cons (rfl : _ = Except.ok (some helps)) rfl (.single (rfl : _ = Except.ok (some searches)))

end Sample

theorem helper_authority_is_narrowed :
    Narrows Sample.helps Sample.searches [Sample.helps, Sample.searches] :=
  ((delegation_only_narrows.2 SerdeJson.tree "epoch" SerdeJson.tree_lawful _).1.narrows
    _ _ _ Sample.clerk_is_below)

end AgentBridge
