import AgentBridge.Records.Refinement.GraphRows
import AgentBridge.Records.Refinement.Reads
import AgentBridge.Records.Refinement.RegistryRows

/-! # Runs, continuations and execution relations on both stores -/

namespace AgentBridge

open Reasoning SqliteStore

variable {Text : Type} {J : SerdeJson Text} {state : MemoryStore.State} {db : Db Text}

namespace Refines

section Calls

variable (h : Refines J state db)

include h

theorem session_isNone (session : SessionId) :
    (db.sessions.lookup session.asStr).isNone = (state.sessions.lookup session).isNone := by
  rw [h.sessions, byName_asStr, Option.isNone_map]

theorem run_isNone (run : RunId) :
    (db.runs.lookup run.asStr).isNone = (state.runs.lookup run).isNone := by
  rw [h.runs, byName_asStr, Option.isNone_map]

theorem continuation_isNone (continuation : ContinuationId) :
    (db.continuations.lookup continuation.asStr).isNone =
      (state.continuations.records.lookup continuation).isNone := by
  rw [h.continuations, byName_asStr, Option.isNone_map]

/-! ## Runs -/

/-- The row of a new run. -/
theorem registered {spec : RunSpec} (hfresh : state.runs.lookup spec.id = none)
    (hwf : MemoryStore.State.WellFormed { state with runs := state.runs.insert spec.id spec })
    (hsession : (state.sessions.lookup spec.sessionId).isSome)
    (hcontinuation : ∀ id, spec.continuation = some id →
      (state.continuations.records.lookup id).isSome) :
    ∃ db', db.insertRun spec.id.asStr (runRow J spec) [.context spec.context, .config spec.config] =
        .ok db' ∧
      Refines J { state with runs := state.runs.insert spec.id spec } db' := by
  have hrow : db.runs.lookup spec.id.asStr = none := by
    rw [h.runs, byName_asStr, hfresh]
    rfl
  have hforeign : ((db.sessions.lookup spec.sessionId.asStr).isNone ||
      (spec.continuation.map (·.asStr)).any fun id => (db.continuations.lookup id).isNone) =
        false := by
    rw [h.session_isNone, Bool.or_eq_false_iff]
    refine ⟨by simpa using hsession, ?_⟩
    cases hc : spec.continuation with
    | none => rfl
    | some id =>
      show (db.continuations.lookup id.asStr).isNone = false
      rw [h.continuation_isNone]
      simpa using hcontinuation id hc
  refine ⟨{ db with
      runs := db.runs.insert spec.id.asStr (runRow J spec)
      written := [.context spec.context, .config spec.config] ++ db.written }, ?_, ?_⟩
  · unfold Db.insertRun
    rw [if_neg (by simp [hrow])]
    apply if_neg
    rw [Bool.not_eq_true]
    exact hforeign
  refine { h with
    wellFormed := hwf
    runs := ?_
    documents := { h.documents.append [.context spec.context, .config spec.config] with
      runs := ?_ } }
  · exact lookup_insert_byName h.runs spec.id spec
  · intro id spec' hspec
    have hspec' := (HashMap.lookup_insert_eq _ _ _ _).symm.trans hspec
    split at hspec'
    · obtain rfl := Option.some.inj hspec'
      exact ⟨List.mem_append_left _ (by simp), List.mem_append_left _ (by simp)⟩
    · obtain ⟨hcontext, hconfig⟩ := h.documents.runs id spec' hspec'
      exact ⟨List.mem_append_right _ hcontext, List.mem_append_right _ hconfig⟩

/-! ## Relations -/

/-- The row of a new execution relation. -/
theorem linked {relation : ExecutionRelation}
    (hfresh : state.executionRelations.lookup relation.child = none)
    (hparent : (state.runs.lookup relation.parent).isSome)
    (hchild : (state.runs.lookup relation.child).isSome)
    (hne : relation.parent ≠ relation.child)
    (hwf : MemoryStore.State.WellFormed { state with
      executionRelations := state.executionRelations.insert relation.child relation }) :
    ∃ db', db.insertRelation relation.child.asStr (relationRow J relation) [.relation relation] =
        .ok db' ∧
      Refines J { state with
        executionRelations := state.executionRelations.insert relation.child relation } db' := by
  have hrow : db.executionRelations.lookup relation.child.asStr = none := by
    rw [h.relations, byName_asStr, hfresh]
    rfl
  have hforeign : ((db.runs.lookup relation.child.asStr).isNone ||
      (db.runs.lookup relation.parent.asStr).isNone) = false := by
    rw [h.run_isNone, h.run_isNone]
    simp [Option.isNone_eq_false_iff.mpr hparent, Option.isNone_eq_false_iff.mpr hchild]
  have hname : relation.child.asStr ≠ relation.parent.asStr :=
    fun heq => hne (Identifier.asStr_inj.mp heq).symm
  refine ⟨{ db with
      executionRelations := db.executionRelations.insert relation.child.asStr (relationRow J relation)
      written := [.relation relation] ++ db.written }, ?_, ?_⟩
  · unfold Db.insertRelation
    rw [if_neg (by simp [hrow])]
    rw [if_neg (show ¬ relation.child.asStr = (relationRow J relation).parent from hname)]
    apply if_neg
    rw [Bool.not_eq_true]
    exact hforeign
  refine { h with
    wellFormed := hwf
    relations := lookup_insert_byName h.relations relation.child relation
    documents := { h.documents.append [.relation relation] with relations := ?_ } }
  intro child other hother
  have hother' := (HashMap.lookup_insert_eq _ _ _ _).symm.trans hother
  split at hother'
  · obtain rfl := Option.some.inj hother'
    exact List.mem_append_left _ (by simp)
  · exact List.mem_append_right _ (h.documents.relations child other hother')

variable (hread : Db.ReadsBack J db)

include hread

theorem checkContinuation (spec : RunSpec) :
    orFault (SqliteStore.checkContinuation J db spec) = MemoryStore.checkContinuation state spec := by
  unfold SqliteStore.checkContinuation MemoryStore.checkContinuation
  cases spec.continuation with
  | none => rfl
  | some id =>
    simp only [h.readContinuation hread, ok_bind, Registry.get]
    cases state.continuations.records.lookup id with
    | none => rfl
    | some saved =>
      simp only [orFault_ok, ok_bind]
      split <;> rfl

theorem checkContextRecords : ∀ ids : List RecordId,
    orFault (SqliteStore.checkContextRecords J db ids) = MemoryStore.checkContextRecords state ids
  | [] => rfl
  | record :: ids => by
    have ih := checkContextRecords ids
    unfold SqliteStore.checkContextRecords MemoryStore.checkContextRecords
    simp only [h.entry hread, ok_bind]
    cases state.records.lookup record with
    | none => rfl
    | some e =>
      by_cases hfinal : e.current.state.isFinal = true
      · simp only [hfinal, ↓reduceIte]
        exact ih
      · simp only [hfinal, Bool.false_eq_true, ↓reduceIte]
        rfl

theorem registerRun (spec : RunSpec) :
    Simulates J (MemoryStore.registerRun spec state) (write (SqliteStore.registerRun J spec) db) := by
  have hrun := h.readRun hread spec.id
  cases hr : state.runs.lookup spec.id with
  | some existing =>
    rw [hr] at hrun
    by_cases hsame : existing = spec
    · exact h.answers false (by simp [SqliteStore.registerRun, hrun, hsame])
        (by simp [MemoryStore.registerRun, hr, hsame])
    · exact h.fails .identityConflict (by simp [SqliteStore.registerRun, hrun, hsame])
        (by simp [MemoryStore.registerRun, hr, hsame])
  | none =>
  rw [hr] at hrun
  have hsequence := h.sessionSequence spec.sessionId
  cases hs : state.sessions.lookup spec.sessionId with
  | none =>
    rw [hs] at hsequence
    exact h.fails .missingSession (by simp [SqliteStore.registerRun, hrun, hsequence])
      (by simp [MemoryStore.registerRun, hr, hs])
  | some ids =>
  rw [hs] at hsequence
  have hcontinuation := h.checkContinuation hread spec
  cases hc : SqliteStore.checkContinuation J db spec with
  | error e =>
    rw [hc, orFault_error] at hcontinuation
    exact h.fails e (by simp [SqliteStore.registerRun, hrun, hsequence, hc])
      (by simp [MemoryStore.registerRun, hr, hs, ← hcontinuation])
  | ok u =>
  rw [hc, orFault_ok] at hcontinuation
  have hcontext := h.checkContextRecords hread spec.context.records
  cases hx : SqliteStore.checkContextRecords J db spec.context.records with
  | error e =>
    rw [hx, orFault_error] at hcontext
    exact h.fails e (by simp [SqliteStore.registerRun, hrun, hsequence, hc, hx])
      (by simp [MemoryStore.registerRun, hr, hs, ← hcontinuation, ← hcontext])
  | ok u' =>
    rw [hx, orFault_ok] at hcontext
    have hmemory : MemoryStore.registerRun spec state =
        (.ok true, { state with runs := state.runs.insert spec.id spec }) := by
      simp [MemoryStore.registerRun, hr, hs, ← hcontinuation, ← hcontext]
    have hwf := h.wellFormed.registerRun spec
    rw [hmemory] at hwf
    have hexists : ∀ id, spec.continuation = some id →
        (state.continuations.records.lookup id).isSome := by
      intro id hid
      unfold MemoryStore.checkContinuation Registry.get at hcontinuation
      simp only [hid] at hcontinuation
      cases hrecord : state.continuations.records.lookup id with
      | none => simp [hrecord] at hcontinuation
      | some record => rfl
    obtain ⟨db', hinsert, hafter⟩ := h.registered hr hwf (by rw [hs]; rfl) hexists
    exact commits true hafter
      (by
        simp only [SqliteStore.registerRun, hrun, hsequence, hc, hx, ok_bind, Codec.encode]
        exact congrArg (· >>= _) hinsert) hmemory

/-! ## Continuations -/

theorem claimContinuation (id : ContinuationId) :
    Simulates J (MemoryStore.claimContinuation id state)
      (write (SqliteStore.claimContinuation J id) db) := by
  have hrow := h.readContinuation hread id
  cases hr : state.continuations.records.lookup id with
  | none =>
    rw [hr] at hrow
    apply h.fails .missingContinuation
    · simp [SqliteStore.claimContinuation, hrow]
    · simp [MemoryStore.claimContinuation, MemoryStore.withRegistry, Registry.claim, Registry.get, hr]
  | some record =>
  rw [hr] at hrow
  by_cases hclaimed : record.state ≠ .available ∨ record.latest = false
  · apply h.fails .continuationClaimed
    · simp [SqliteStore.claimContinuation, hrow, hclaimed]
    · simp [MemoryStore.claimContinuation, MemoryStore.withRegistry, Registry.claim, Registry.get, hr,
        hclaimed]
  obtain rfl := (h.wellFormed.registry.valid id record hr).1
  have hmemory : MemoryStore.claimContinuation record.continuation.id state =
      (.ok { record with state := .claimed }, { state with
        continuations := state.continuations.claimed record.continuation.id record }) := by
    simp [MemoryStore.claimContinuation, MemoryStore.withRegistry, Registry.claim, Registry.get, hr,
      hclaimed, Registry.claimed]
  have haction : SqliteStore.claimContinuation J record.continuation.id db =
      .ok ({ record with state := .claimed }, db.withContinuation record.continuation.id.asStr
        (continuationRow J { record with state := .claimed })) := by
    simp only [SqliteStore.claimContinuation, hrow, hclaimed, h.registryRows.updateContinuation hr, ok_bind,
      ↓reduceIte]
    rfl
  have hafter : Refines J { state with
        continuations := state.continuations.claimed record.continuation.id record }
      (db.withContinuation record.continuation.id.asStr
        (continuationRow J { record with state := .claimed })) := by
    refine { h with
      wellFormed := { h.wellFormed with registry := h.wellFormed.registry.claimed hr }
      continuations := lookup_insert_byName h.continuations _ _
      documents := { h.documents with continuations := ?_ } }
    intro id' record' hrecord'
    have hrecord'' := (HashMap.lookup_insert_eq _ _ _ _).symm.trans hrecord'
    split at hrecord''
    · obtain rfl := Option.some.inj hrecord''
      exact h.documents.continuations _ record hr
    · exact h.documents.continuations id' record' hrecord''
  exact commits _ hafter haction hmemory

omit hread in
theorem insertsContinuation {value : Continuation} (hs : state.continuations.Saves value)
    (hsession : (state.sessions.lookup value.sessionId).isSome)
    {continuations : HashMap String (ContinuationRow Text)}
    (hrows : ∀ name, continuations.lookup name =
      (byName (unlatched state.continuations value) name).map (continuationRow J)) :
    Db.InsertsContinuation { db with continuations } value.id.asStr
      (continuationRow J ⟨value, .available, true⟩) := by
  have hwf := h.wellFormed.registry
  have hfresh : (unlatched state.continuations value).lookup value.id = none := by
    unfold unlatched
    cases hprev : state.continuations.previous value with
    | none => exact hs.fresh
    | some previous =>
      have hrecord := ((Registry.previous_eq_some hwf).mp hprev).1
      show (state.continuations.records.insert _ _).lookup value.id = none
      rw [HashMap.lookup_insert_eq, if_neg, hs.fresh]
      intro heq
      rw [← heq, hs.fresh] at hrecord
      cases hrecord
  -- every other row was a row before, and none of them is the latest of the native session
  have hold : ∀ name other, continuations.lookup name = some other →
      ∃ id record old, other = continuationRow J record ∧
        state.continuations.records.lookup id = some old ∧
        record.continuation = old.continuation ∧
        (record.latest = true → old.latest = true ∧ old.continuation.key ≠ value.key) := by
    intro name other hother
    rw [hrows, Option.map_eq_some_iff] at hother
    obtain ⟨record, hrecord, rfl⟩ := hother
    obtain ⟨id, rfl, hid⟩ := byName_eq_some.mp hrecord
    have hne : id ≠ value.id := by
      intro heq
      rw [heq, hfresh] at hid
      cases hid
    have hsaved : (state.continuations.saved value).records.lookup id = some record := by
      refine (HashMap.lookup_insert_eq _ _ _ _).trans ?_
      rw [if_neg hne]
      exact hid
    obtain ⟨old, hold, heq, hlatest⟩ := Registry.of_lookup_saved hwf hne hsaved
    exact ⟨id, record, old, rfl, hold, heq, hlatest⟩
  constructor
  case fresh =>
    show continuations.lookup value.id.asStr = none
    rw [hrows, byName_asStr, hfresh]
    rfl
  case predecessor =>
    intro name other hother hsome heq
    obtain ⟨id, record, old, rfl, hid, hsame, -⟩ := hold name other hother
    obtain ⟨p, hp⟩ : ∃ p, value.predecessor = some p := by
      simpa [continuationRow, Option.isSome_iff_exists] using hsome
    have hpred : old.continuation.predecessor = some p := by
      have heq' : record.continuation.predecessor.map (·.asStr) = value.predecessor.map (·.asStr) :=
        heq
      rw [hp, hsame, Option.map_some, Option.map_eq_some_iff] at heq'
      obtain ⟨q, hq, hqp⟩ := heq'
      rw [hq, Identifier.asStr_inj.mp hqp]
    obtain ⟨succeeded, hsucceeded, hl⟩ := hwf.succeeded id old p hid hpred
    -- but the predecessor of the new continuation is a latest one
    have hsuccessor := hs.successor
    cases hprev : state.continuations.previous value with
    | none =>
      rw [hprev, Continuation.validateSuccessor_none, hp] at hsuccessor
      cases hsuccessor
    | some previous =>
      rw [hprev, Continuation.validateSuccessor_some] at hsuccessor
      have hrecord := ((Registry.previous_eq_some hwf).mp hprev).1
      have hid' := hsuccessor.predecessor
      rw [hp, Option.some.injEq] at hid'
      rw [hid', hrecord, Option.some.injEq] at hsucceeded
      rw [← hsucceeded, hsuccessor.latest] at hl
      cases hl
  case latest =>
    intro name other hother hlatest
    obtain ⟨id, record, old, rfl, hid, hsame, hkey⟩ := hold name other hother
    rw [Bool.eq_false_iff]
    intro his
    obtain ⟨hk, hl⟩ := isLatest_iff.mp his
    rw [hsame] at hk
    exact (hkey hl).2 hk
  case session =>
    show (db.sessions.lookup value.sessionId.asStr).isSome
    rw [h.sessions, byName_asStr, Option.isSome_map]
    exact hsession
  case reference =>
    intro p hp
    right
    obtain ⟨q, hq, rfl⟩ := Option.map_eq_some_iff.mp hp
    have hq' : value.predecessor = some q := hq
    show (continuations.lookup q.asStr).isSome
    rw [hrows, byName_asStr, Option.isSome_map]
    have hsuccessor := hs.successor
    cases hprev : state.continuations.previous value with
    | none =>
      rw [hprev, Continuation.validateSuccessor_none, hq'] at hsuccessor
      cases hsuccessor
    | some previous =>
      rw [hprev, Continuation.validateSuccessor_some] at hsuccessor
      have hid := hsuccessor.predecessor
      rw [hq', Option.some.injEq] at hid
      simp only [unlatched, hprev, HashMap.lookup_insert_eq, hid, ↓reduceIte, Option.isSome_some]

theorem readLatest (value : Continuation) :
    SqliteStore.readLatest J db value = .ok (state.continuations.previous value) := by
  unfold SqliteStore.readLatest
  rw [h.registryRows.selectLatest]
  cases hprev : state.continuations.previous value with
  | none => rfl
  | some previous =>
    have hid : SqliteStore.id previous.continuation.id.asStr = .ok previous.continuation.id :=
      id_eq_ok.mpr rfl
    have hrecord := ((Registry.previous_eq_some h.wellFormed.registry).mp hprev).1
    simp only [Option.map_some, hid, ok_bind, h.readContinuation hread, hrecord]

theorem saveContinuation (value : Continuation) :
    Simulates J (MemoryStore.saveContinuation value state)
      (write (SqliteStore.saveContinuation J value) db) := by
  have hsequence := h.sessionSequence value.sessionId
  cases hs : state.sessions.lookup value.sessionId with
  | none =>
    rw [hs] at hsequence
    exact h.fails .missingSession (by simp [SqliteStore.saveContinuation, hsequence])
      (by simp [MemoryStore.saveContinuation, hs])
  | some ids =>
  rw [hs] at hsequence
  have hmemory : MemoryStore.saveContinuation value state =
      MemoryStore.withRegistry state fun registry => registry.save value := by
    simp [MemoryStore.saveContinuation, hs]
  rw [hmemory]
  simp only [MemoryStore.withRegistry]
  cases hvalid : value.validate with
  | error e =>
    exact h.fails e (by simp [SqliteStore.saveContinuation, hsequence, hvalid])
      (by simp [Registry.save, hvalid])
  | ok u =>
  have hrow := h.readContinuation hread value.id
  cases hr : state.continuations.records.lookup value.id with
  | some record =>
    rw [hr] at hrow
    by_cases hsame : record.continuation = value
    · exact h.answers record
        (by simp [SqliteStore.saveContinuation, hsequence, hvalid, hrow, hsame])
        (by simp [Registry.save, hvalid, hr, hsame])
    · exact h.fails .identityConflict
        (by simp [SqliteStore.saveContinuation, hsequence, hvalid, hrow, hsame])
        (by simp [Registry.save, hvalid, hr, hsame])
  | none =>
  rw [hr] at hrow
  have hlatest := h.readLatest hread value
  cases hsucc : value.validateSuccessor (state.continuations.previous value) with
  | error e =>
    apply h.fails e
    · simp only [SqliteStore.saveContinuation, hsequence, hvalid, hrow, hlatest, hsucc, ok_bind,
        error_bind]
    · have hsucc' := hsucc
      rw [Registry.previous] at hsucc'
      simp only [Registry.save, hvalid, hr, hsucc', orFault_error]
  | ok u' =>
    have hsaves : state.continuations.Saves value := ⟨hvalid, hr, hsucc⟩
    have hsave : state.continuations.save value =
        (.ok ⟨value, .available, true⟩, state.continuations.saved value) := by
      have hsucc' := hsucc
      rw [Registry.previous] at hsucc'
      simp only [Registry.save, hvalid, hr, hsucc']
      rfl
    rw [hsave]
    obtain ⟨continuations, hunlatch, hrows⟩ := h.registryRows.afterUnlatch_eq value
    have hinserts := h.insertsContinuation hsaves (by rw [hs]; rfl) hrows
    have hinsert := @Db.insertContinuation_eq _ _ _ _ [.continuation value] hinserts
    apply commits _ ?_ ?_ rfl
    · exact { ({ db with continuations } : Db Text).withContinuation value.id.asStr
          (continuationRow J ⟨value, .available, true⟩) with
        written := [.continuation value] ++ db.written }
    · refine { h with
        wellFormed := { h.wellFormed with registry := h.wellFormed.registry.saved hsaves }
        continuations := lookup_insert_byName hrows value.id ⟨value, .available, true⟩
        documents := { h.documents.append [.continuation value] with continuations := ?_ } }
      intro id record hrecord
      by_cases hid : id = value.id
      · rw [hid] at hrecord
        have heq := (Registry.lookup_saved_self state.continuations value).symm.trans hrecord
        obtain rfl := Option.some.inj heq
        exact List.mem_append_left _ (by simp)
      · obtain ⟨old, hold, hsame, -⟩ :=
          Registry.of_lookup_saved h.wellFormed.registry hid hrecord
        rw [hsame]
        exact List.mem_append_right _ (h.documents.continuations id old hold)
    · simp only [SqliteStore.saveContinuation, hsequence, hvalid, hrow, hlatest, hsucc, ok_bind]
      show (do
        let db ← (afterUnlatch db (state.continuations.previous value)).insertContinuation
          value.id.asStr (continuationRow J ⟨value, .available, true⟩) [.continuation value]
        Except.ok ((⟨value, .available, true⟩ : ContinuationRecord), db)) = _
      rw [hunlatch, hinsert]
      rfl

/-! ## Execution relations -/

theorem checkDescendants (relation : ExecutionRelation) : ∀ edges : List ExecutionRelation,
    (∀ edge ∈ edges, state.executionRelations.lookup edge.child = some edge) →
      SqliteStore.checkDescendants J db relation (edges.map (·.child.asStr)) =
        if edges.any fun edge => edge.parentAuthority != relation.childAuthority then
          .error .invalidExecutionRelation
        else .ok ()
  | [], _ => rfl
  | edge :: edges, hmem => by
    have hid : SqliteStore.id edge.child.asStr = .ok edge.child := id_eq_ok.mpr rfl
    have hedge := h.readRelation hread edge.child
    rw [hmem edge List.mem_cons_self] at hedge
    have ih := checkDescendants relation edges fun a ha => hmem a (List.mem_cons_of_mem _ ha)
    simp only [List.map_cons, SqliteStore.checkDescendants, hid, hedge, ok_bind, List.any_cons]
    by_cases hne : edge.parentAuthority = relation.childAuthority
    · simp only [hne, ne_eq, not_true_eq_false, ↓reduceIte, bne_self_eq_false, Bool.false_or]
      exact ih
    · simp [hne]

theorem checkChildRecords (child : RunSpec) : ∀ ids : List RecordId,
    orFault (SqliteStore.checkChildRecords J db child ids) =
      MemoryStore.checkChildRecords state child ids
  | [] => rfl
  | record :: ids => by
    have ih := checkChildRecords child ids
    unfold SqliteStore.checkChildRecords MemoryStore.checkChildRecords
    simp only [h.entry hread, ok_bind]
    cases state.records.lookup record with
    | none => rfl
    | some e =>
      by_cases hsession : e.current.record.sessionId = child.sessionId
      · simp only [hsession, ne_eq, not_true_eq_false, ↓reduceIte]
        exact ih
      · simp only [hsession, ne_eq, not_false_eq_true, ↓reduceIte]
        rfl

theorem linkExecution (relation : ExecutionRelation) :
    Simulates J (MemoryStore.linkExecution relation state)
      (write (SqliteStore.linkExecution J relation) db) := by
  have hrow := h.readRelation hread relation.child
  cases hr : state.executionRelations.lookup relation.child with
  | some existing =>
    rw [hr] at hrow
    by_cases hsame : existing = relation
    · exact h.answers existing (by simp [SqliteStore.linkExecution, hrow, hsame])
        (by simp [MemoryStore.linkExecution, hr, hsame])
    · exact h.fails .executionRelationConflict (by simp [SqliteStore.linkExecution, hrow, hsame])
        (by simp [MemoryStore.linkExecution, hr, hsame])
  | none =>
  rw [hr] at hrow
  have hparentRow := h.readRun hread relation.parent
  cases hp : state.runs.lookup relation.parent with
  | none =>
    rw [hp] at hparentRow
    exact h.fails .missingRun (by simp [SqliteStore.linkExecution, hrow, hparentRow])
      (by simp [MemoryStore.linkExecution, hr, hp])
  | some parent =>
  rw [hp] at hparentRow
  have hchildRow := h.readRun hread relation.child
  cases hc : state.runs.lookup relation.child with
  | none =>
    rw [hc] at hchildRow
    exact h.fails .missingRun (by simp [SqliteStore.linkExecution, hrow, hparentRow, hchildRow])
      (by simp [MemoryStore.linkExecution, hr, hp, hc])
  | some child =>
  rw [hc] at hchildRow
  cases hvalid : relation.validate parent child with
  | error e =>
    exact h.fails e
      (by simp [SqliteStore.linkExecution, hrow, hparentRow, hchildRow, hvalid])
      (by simp [MemoryStore.linkExecution, hr, hp, hc, hvalid])
  | ok u =>
  have hedge := h.readRelation hread relation.parent
  -- the two halves of the authority check of the other store, in the order of the queries
  by_cases hup : ((state.executionRelations.lookup relation.parent).any
      fun edge => edge.childAuthority != relation.parentAuthority) = true
  · apply h.fails .invalidExecutionRelation
    · simp only [SqliteStore.linkExecution, hrow, hparentRow, hchildRow, hvalid, hedge, hup, ok_bind,
        ↓reduceIte]
    · simp only [MemoryStore.linkExecution, hr, hp, hc, hvalid, hup, Bool.true_or, ↓reduceIte]
  have hchildren : ∀ edge ∈ childrenOf state relation.child,
      state.executionRelations.lookup edge.child = some edge :=
    fun edge hmem => (h.mem_childrenOf.mp hmem).1
  have hdescendants := h.checkDescendants hread relation _ hchildren
  rw [← h.selectChildren] at hdescendants
  have hany : (state.executionRelations.values.any fun edge =>
      edge.parent == relation.child && edge.parentAuthority != relation.childAuthority) =
        (childrenOf state relation.child).any
          fun edge => edge.parentAuthority != relation.childAuthority := by
    rw [Bool.eq_iff_iff, List.any_eq_true, List.any_eq_true]
    constructor
    · rintro ⟨edge, hmem, hedge⟩
      rw [Bool.and_eq_true, beq_iff_eq] at hedge
      exact ⟨edge, h.mem_childrenOf.mpr ⟨h.mem_values_relations.mp hmem, hedge.1⟩, hedge.2⟩
    · rintro ⟨edge, hmem, hedge⟩
      obtain ⟨hlookup, hparent⟩ := h.mem_childrenOf.mp hmem
      refine ⟨edge, h.mem_values_relations.mpr hlookup, ?_⟩
      rw [hparent, beq_self_eq_true, hedge]
      rfl
  cases hdown : (childrenOf state relation.child).any
      fun edge => edge.parentAuthority != relation.childAuthority with
  | true =>
    rw [hdown, if_pos rfl] at hdescendants
    apply h.fails .invalidExecutionRelation
    · simp only [SqliteStore.linkExecution, hrow, hparentRow, hchildRow, hvalid, hedge, hup, ok_bind,
        hdescendants, error_bind, ↓reduceIte, Bool.false_eq_true]
    · simp only [MemoryStore.linkExecution, hr, hp, hc, hvalid, hany, hdown, Bool.or_true, ↓reduceIte]
  | false =>
  rw [hdown, if_neg Bool.false_ne_true] at hdescendants
  have hchecks : ((state.executionRelations.lookup relation.parent).any
        (fun edge => edge.childAuthority != relation.parentAuthority) ||
      state.executionRelations.values.any fun edge =>
        edge.parent == relation.child && edge.parentAuthority != relation.childAuthority) = false := by
    rw [hany, hdown, Bool.or_false, Bool.eq_false_iff]
    exact hup
  have hrecords := h.checkChildRecords hread child child.context.records
  cases hx : SqliteStore.checkChildRecords J db child child.context.records with
  | error e =>
    rw [hx, orFault_error] at hrecords
    apply h.fails e
    · simp only [SqliteStore.linkExecution, hrow, hparentRow, hchildRow, hvalid, hedge, hup, ok_bind,
        hdescendants, hx, error_bind, ↓reduceIte, Bool.false_eq_true]
    · simp only [MemoryStore.linkExecution, hr, hp, hc, hvalid, hchecks, ← hrecords, ↓reduceIte,
        Bool.false_eq_true]
  | ok u' =>
  rw [hx, orFault_ok] at hrecords
  have hwalk := walkAncestors_of_reads (h.readRelation hread) relation.child relation.parent []
  cases hw : SqliteStore.walkAncestors J db relation.child relation.parent [] with
  | error e =>
    rw [hw, orFault_error] at hwalk
    apply h.fails e
    · simp only [SqliteStore.linkExecution, hrow, hparentRow, hchildRow, hvalid, hedge, hup, ok_bind,
        hdescendants, hx, hw, error_bind, ↓reduceIte, Bool.false_eq_true]
    · simp only [MemoryStore.linkExecution, hr, hp, hc, hvalid, hchecks, ← hrecords, ← hwalk,
        ↓reduceIte, Bool.false_eq_true]
  | ok u'' =>
  rw [hw, orFault_ok] at hwalk
  have hmemory : MemoryStore.linkExecution relation state = (.ok relation, { state with
      executionRelations := state.executionRelations.insert relation.child relation }) := by
    simp only [MemoryStore.linkExecution, hr, hp, hc, hvalid, hchecks, ← hrecords, ← hwalk,
      ↓reduceIte, Bool.false_eq_true]
  obtain ⟨db', hinsert, hafter⟩ := h.linked hr (by rw [hp]; rfl) (by rw [hc]; rfl)
    (ExecutionRelation.validate_ne hvalid) (by
      have hwf := h.wellFormed.linkExecution relation
      rwa [hmemory] at hwf)
  refine commits relation hafter ?_ hmemory
  simp only [SqliteStore.linkExecution, hrow, hparentRow, hchildRow, hvalid, hedge, hup, ok_bind,
    hdescendants, hx, hw, ↓reduceIte, Bool.false_eq_true, Codec.encode]
  exact congrArg (· >>= _) hinsert

end Calls

end Refines

end AgentBridge
