import AgentBridge.Records.Refinement.Writes

/-! # Every call answers alike on both stores -/

namespace AgentBridge

open Reasoning SqliteStore

variable {Text : Type} {J : SerdeJson Text} {state : MemoryStore.State} {db : Db Text}

/-- Equal answers, and states that are still related. -/
def Simulates (J : SerdeJson Text) {β : Type} (r : Except Fault β × MemoryStore.State)
    (q : Except StoreError β × Db Text) : Prop :=
  r.1 = orFault q.1 ∧ Refines J r.2 q.2

theorem orFault_bind {α β : Type} (x : Except StoreError α) (f : α → Except StoreError β) :
    orFault (x >>= f) = orFault x >>= fun a => orFault (f a) := by
  cases x <;> rfl

/-- A transaction that commits what the other store keeps too. -/
theorem commits {β : Type} {action : Db Text → Except StoreError (β × Db Text)}
    {r : Except Fault β × MemoryStore.State} {db' : Db Text} {state' : MemoryStore.State} (b : β)
    (hafter : Refines J state' db') (haction : action db = .ok (b, db'))
    (hr : r = (.ok b, state')) : Simulates J r (write action db) := by
  rw [write_ok haction, hr]
  exact ⟨rfl, hafter⟩

namespace Refines

section Calls

variable (h : Refines J state db)

include h

/-- A transaction that fails as the other store does, which then changed nothing. -/
theorem fails {β : Type} {action : Db Text → Except StoreError (β × Db Text)}
    {r : Except Fault β × MemoryStore.State} (e : StoreError) (haction : action db = .error e)
    (hr : r = (.error (.error e), state)) : Simulates J r (write action db) := by
  rw [write_error haction, hr]
  exact ⟨rfl, h⟩

/-- A transaction that finds its answer and changes nothing. -/
theorem answers {β : Type} {action : Db Text → Except StoreError (β × Db Text)}
    {r : Except Fault β × MemoryStore.State} (b : β) (haction : action db = .ok (b, db))
    (hr : r = (.ok b, state)) : Simulates J r (write action db) := by
  rw [write_ok haction, hr]
  exact ⟨rfl, h⟩

theorem createSession (id : SessionId) :
    Simulates J (MemoryStore.createSession id state) (write (SqliteStore.createSession id) db) := by
  have hlookup : db.sessions.lookup id.asStr =
      (state.sessions.lookup id).map fun ids => (ids.length : Int) := by
    rw [h.sessions, byName_asStr]
  cases hid : state.sessions.lookup id with
  | some ids =>
    refine h.answers () ?_ (by simp [MemoryStore.createSession, hid])
    simp [SqliteStore.createSession, Db.insertSession, hlookup, hid]
  | none =>
    have hinsert : SqliteStore.createSession id db =
        .ok ((), { db with sessions := db.sessions.insert id.asStr 0 }) := by
      simp [SqliteStore.createSession, Db.insertSession, hlookup, hid]
    rw [write_ok hinsert]
    have hwf := h.wellFormed.createSession id
    simp only [MemoryStore.createSession, hid] at hwf ⊢
    refine ⟨rfl, { h with
      wellFormed := hwf, sessions := ?_, documents := { h.documents with } }⟩
    intro name
    refine (HashMap.lookup_insert_eq _ _ _ _).trans ?_
    refine Eq.trans ?_ (congrArg (Option.map _) (byName_insert _ _ _ _)).symm
    split
    · rfl
    · exact h.sessions name

variable (hread : Db.ReadsBack J db)

include hread

theorem checkRun (draft : Draft) :
    orFault (SqliteStore.checkRun J db draft) = state.checkRun draft := by
  unfold SqliteStore.checkRun MemoryStore.State.checkRun
  cases draft.runId with
  | none => rfl
  | some run =>
    simp only [h.readRun hread, ok_bind]
    cases state.runs.lookup run with
    | none => rfl
    | some spec =>
      simp only
      split <;> rfl

theorem checkReply (draft : Draft) :
    orFault (SqliteStore.checkReply J db draft) = state.checkReply draft := by
  unfold SqliteStore.checkReply MemoryStore.State.checkReply
  cases draft.replyToId with
  | none => rfl
  | some reply =>
    simp only [h.entry hread, ok_bind]
    cases state.records.lookup reply <;> rfl

theorem prepare (hb : Db.CountersBelowMax db) (draft : Draft) :
    orFault (SqliteStore.prepare J db draft) = state.prepare draft := by
  unfold SqliteStore.prepare MemoryStore.State.prepare MemoryStore.State.findSession
  rw [orFault_bind, h.sessionSequence]
  congr 1
  funext u
  cases hids : state.sessions.lookup draft.sessionId with
  | none => rfl
  | some ids =>
    have hlt := h.sequence_lt hb hids
    have hne : (ids.length : Int) ≠ i64Max := by omega
    have hle : ids.length ≤ u64Max := by
      unfold i64Max at hlt
      unfold u64Max
      omega
    have hnumber : number (ids.length : Int) = .ok ids.length := number_eq_ok.mpr rfl
    simp only [ok_bind, hne, ↓reduceIte, orFault_bind, h.checkRun hread, h.checkReply hread,
      hnumber, hle]
    rfl

/-- An `insert` that creates a record on one store creates it on the other. -/
theorem inserts (hb : Db.CountersBelowMax db) (hpos : db.changeClock.position < i64Max)
    {draft : Draft} {ids : List RecordId} (hins : state.Inserts draft ids) :
    SqliteStore.insert J draft db =
        .ok (Rules.created draft ids.length,
          afterInsert J db (Rules.created draft ids.length) ids.length) ∧
      Refines J (state.committed (Rules.created draft ids.length) ids)
        (afterInsert J db (Rules.created draft ids.length) ids.length) := by
  have hentry := h.entry hread draft.id
  rw [hins.fresh] at hentry
  have hreq : ¬ (draft.payload.isRequest = true ∧ draft.state ≠ .opened) :=
    fun hr => hr.2 (hins.requestOpen hr.1)
  have hprep := h.prepare hread hb draft
  rw [MemoryStore.State.prepare_eq_ok.mpr ⟨ids, hins.prepares, rfl⟩,
    MemoryStore.orFault_eq_ok] at hprep
  have hn := h.sequence_lt hb hins.prepares.session
  obtain ⟨hrow, hafter⟩ := h.inserted hpos hn hins.prepares hins.fresh
  refine ⟨?_, hafter⟩
  simp [SqliteStore.insert, hins.notResponse, hentry, hreq, hprep, hrow]

theorem insert (hb : Db.WithinBounds db) (draft : Draft) :
    Simulates J (MemoryStore.insert draft state) (write (SqliteStore.insert J draft) db) := by
  have hentry := h.entry hread draft.id
  cases hresp : draft.payload.isResponse with
  | true =>
    exact h.fails .invalidDecision (by simp [SqliteStore.insert, hresp])
      (by simp [MemoryStore.insert, hresp])
  | false =>
  cases he : state.records.lookup draft.id with
  | some e =>
    rw [he] at hentry
    by_cases hsame : Rules.sameDraft e.initial draft = true
    · exact h.answers e.current (by simp [SqliteStore.insert, hresp, hentry, hsame])
        (by simp [MemoryStore.insert, hresp, he, hsame])
    · exact h.fails .identityConflict (by simp [SqliteStore.insert, hresp, hentry, hsame])
        (by simp [MemoryStore.insert, hresp, he, hsame])
  | none =>
  rw [he] at hentry
  by_cases hreq : draft.payload.isRequest = true ∧ draft.state ≠ .opened
  · exact h.fails .invalidPayload (by simp [SqliteStore.insert, hresp, hentry, hreq])
      (by simp [MemoryStore.insert, hresp, he, hreq])
  have hprep := h.prepare hread hb.toCountersBelowMax draft
  cases hp : SqliteStore.prepare J db draft with
  | error e =>
    rw [hp, orFault_error] at hprep
    exact h.fails e (by simp [SqliteStore.insert, hresp, hentry, hreq, hp])
      (by simp [MemoryStore.insert, hresp, he, hreq, ← hprep])
  | ok snapshot =>
    rw [hp, orFault_ok] at hprep
    obtain ⟨ids, hprepares, rfl⟩ := MemoryStore.State.prepare_eq_ok.mp hprep.symm
    have hopen : draft.payload.isRequest = true → draft.state = .opened := by
      intro hr
      by_contra hne
      exact hreq ⟨hr, hne⟩
    have hpos := hb.position
    obtain ⟨haction, hafter⟩ := h.inserts hread hb.toCountersBelowMax (by omega)
      ⟨hresp, he, hopen, hprepares⟩
    have hcommit : state.commit (Rules.created draft ids.length) =
        (.ok (), state.committed (Rules.created draft ids.length) ids) :=
      MemoryStore.State.commit_eq hprepares.session
    refine commits (Rules.created draft ids.length) hafter haction ?_
    simp [MemoryStore.insert, hresp, he, hreq, ← hprep, hcommit]

/-- A `checkpoint` that makes a new version on one store makes it on the other. -/
theorem advances (hpos : db.changeClock.position < i64Max) {id : RecordId} {e : Entry} {r : Nat}
    {payload : Payload} {next : RecordState} (he : state.records.lookup id = some e)
    (hrev : (e.current.revision : Int) < i64Max)
    (hadv : Rules.Advances e.current r payload next) :
    ∃ db', SqliteStore.checkpoint J id r payload next db =
        .ok (Rules.advance e.current payload next, db') ∧
      db'.changeClock.position = db.changeClock.position + 1 ∧
      db'.written = updateDocs e.current (Rules.advance e.current payload next) ++ db.written ∧
      Refines J (state.withCurrent id e (Rules.advance e.current payload next)) db' := by
  have hentry := h.entry hread id
  rw [he] at hentry
  obtain ⟨db', hrow, -, hposition, hwritten, hafter⟩ := h.updated hpos he hrev hadv.valid
  refine ⟨db', ?_, hposition, hwritten, hafter⟩
  simp [SqliteStore.checkpoint, hentry, Rules.checkpoint_advance hadv, hrow]

theorem checkpoint (hb : Db.WithinBounds db) (id : RecordId) (r : Nat) (payload : Payload)
    (next : RecordState) :
    Simulates J (MemoryStore.checkpoint id r payload next state)
      (write (SqliteStore.checkpoint J id r payload next) db) := by
  have hentry := h.entry hread id
  cases he : state.records.lookup id with
  | none =>
    rw [he] at hentry
    exact h.fails .missingRecord (by simp [SqliteStore.checkpoint, hentry])
      (by simp [MemoryStore.checkpoint, he])
  | some e =>
  rw [he] at hentry
  cases hrule : Rules.checkpoint e.current r payload next with
  | error error =>
    exact h.fails error (by simp [SqliteStore.checkpoint, hentry, hrule])
      (by simp [MemoryStore.checkpoint, he, hrule])
  | ok new =>
  have hmemory : MemoryStore.checkpoint id r payload next state =
      (.ok new, state.withCurrent id e new) := by
    simp [MemoryStore.checkpoint, he, hrule, MemoryStore.State.withCurrent]
  have hpos : db.changeClock.position < i64Max := by
    have := hb.position
    omega
  obtain ⟨-, rfl⟩ | ⟨hadv, rfl⟩ := Rules.checkpoint_cases hrule
  · -- a retry: the same entry is stored again, and no row is touched
    have hsame : updateRow J db e.current e.current = .ok db := by simp [updateRow]
    exact commits e.current (h.restored he)
      (by simp [SqliteStore.checkpoint, hentry, hrule, hsame]) hmemory
  · obtain ⟨db', haction, -, -, hafter⟩ :=
      h.advances hread hpos he (h.revision_lt hb.toCountersBelowMax he) hadv
    exact commits _ hafter haction hmemory

theorem resolve (hb : Db.WithinBounds db) (request : RecordId) (r : Nat) (decision : Draft) :
    Simulates J (MemoryStore.resolve request r decision state)
      (write (SqliteStore.resolve J request r decision) db) := by
  have hdecision : db.decisions.lookup request.asStr =
      (state.decisions.lookup request).map (·.asStr) := by
    rw [h.decisions, byName_asStr]
  cases hdec : state.decisions.lookup request with
  | some response =>
    rw [hdec, Option.map_some] at hdecision
    obtain ⟨e, he⟩ := Option.isSome_iff_exists.mp (h.wellFormed.decisions request response hdec).2
    have hentry := h.entry hread response
    rw [he] at hentry
    have hid : SqliteStore.id response.asStr = .ok response := id_eq_ok.mpr rfl
    by_cases hsame : Rules.sameDraft e.initial decision = true
    · exact h.answers e.current (by simp [SqliteStore.resolve, hdecision, hid, hentry, hsame])
        (by simp [MemoryStore.resolve, hdec, he, hsame])
    · exact h.fails .alreadyResolved
        (by simp [SqliteStore.resolve, hdecision, hid, hentry, hsame])
        (by simp [MemoryStore.resolve, hdec, he, hsame])
  | none =>
  rw [hdec, Option.map_none] at hdecision
  have hfreshRow := h.entry hread decision.id
  cases hfresh : state.records.lookup decision.id with
  | some e =>
    rw [hfresh] at hfreshRow
    exact h.fails .identityConflict (by simp [SqliteStore.resolve, hdecision, hfreshRow])
      (by simp [MemoryStore.resolve, hdec, hfresh])
  | none =>
  rw [hfresh] at hfreshRow
  have hentry := h.entry hread request
  cases he : state.records.lookup request with
  | none =>
    rw [he] at hentry
    exact h.fails .missingRecord (by simp [SqliteStore.resolve, hdecision, hfreshRow, hentry])
      (by simp [MemoryStore.resolve, hdec, hfresh, he])
  | some e =>
  rw [he] at hentry
  cases hrule : Rules.resolveRequest e.current r decision with
  | error error =>
    exact h.fails error (by simp [SqliteStore.resolve, hdecision, hfreshRow, hentry, hrule])
      (by simp [MemoryStore.resolve, hdec, hfresh, he, hrule])
  | ok resolved =>
  have hprep := h.prepare hread hb.toCountersBelowMax decision
  cases hp : SqliteStore.prepare J db decision with
  | error error =>
    rw [hp, orFault_error] at hprep
    exact h.fails error (by simp [SqliteStore.resolve, hdecision, hfreshRow, hentry, hrule, hp])
      (by simp [MemoryStore.resolve, hdec, hfresh, he, hrule, ← hprep])
  | ok snapshot =>
    rw [hp, orFault_ok] at hprep
    obtain ⟨ids, hprepares, rfl⟩ := MemoryStore.State.prepare_eq_ok.mp hprep.symm
    obtain ⟨hresolves, rfl⟩ := Rules.resolveRequest_eq_ok.mp hrule
    have hreq := (Rules.responseMatches_kinds hresolves.answers).1
    have hvalid : Rules.validate e.current.record.payload .complete = .ok () :=
      Rules.validate_request (h.wellFormed.entries request e he).1.valid hreq
    have hpos := hb.position
    -- the request's row, then the response's row, then the pair of them
    obtain ⟨db₁, hupdate, hsessions, hposition, -, hafter₁⟩ :=
      h.updated (by omega) he (h.revision_lt hb.toCountersBelowMax he) hvalid
    have hne : decision.id ≠ request := by
      rintro heq
      rw [heq, he] at hfresh
      cases hfresh
    have hfresh₁ : (state.withCurrent request e
        (Rules.advance e.current e.current.record.payload .complete)).records.lookup decision.id =
          none := by
      rw [MemoryStore.State.lookup_withCurrent, if_neg hne, hfresh]
    obtain ⟨hinsert, hafter₂⟩ := hafter₁.inserted (by omega) (h.sequence_lt hb.toCountersBelowMax hprepares.session)
      (hprepares.withCurrent request e _) hfresh₁
    have hrequest : ((MemoryStore.State.committed (state.withCurrent request e
        (Rules.advance e.current e.current.record.payload .complete))
          (Rules.created decision ids.length) ids).records.lookup request).isSome := by
      rw [MemoryStore.State.lookup_committed, MemoryStore.State.lookup_withCurrent, if_pos rfl]
      split <;> rfl
    have hresponse : ((MemoryStore.State.committed (state.withCurrent request e
        (Rules.advance e.current e.current.record.payload .complete))
          (Rules.created decision ids.length) ids).records.lookup decision.id).isSome := by
      rw [MemoryStore.State.lookup_committed]
      split
      · rfl
      · next hother => exact absurd rfl hother
    have hnew : ∀ q, state.decisions.lookup q ≠ some decision.id := by
      intro q hq
      have hsome := (h.wellFormed.decisions q decision.id hq).2
      rw [hfresh] at hsome
      cases hsome
    obtain ⟨db₃, hdecide, hafter₃⟩ := hafter₂.decided hdec hrequest hresponse hnew
    have hcommit (records : HashMap RecordId Entry) (decisions : HashMap RecordId RecordId) :
        MemoryStore.State.commit { state with records, decisions }
            (Rules.created decision ids.length) =
          (.ok (), MemoryStore.State.committed { state with records, decisions }
            (Rules.created decision ids.length) ids) :=
      MemoryStore.State.commit_eq hprepares.session
    refine commits (Rules.created decision ids.length) hafter₃ ?_ ?_
    · have hdecide' : (afterInsert J db₁ (Rules.created decision ids.length)
          ids.length).insertDecision request.asStr
            (Rules.created decision ids.length).record.id.asStr = .ok db₃ := hdecide
      simp [SqliteStore.resolve, hdecision, hfreshRow, hentry, hrule, hp, hupdate, hinsert, hdecide']
    · simp only [MemoryStore.resolve, hdec, hfresh, he, hrule, ← hprep, hcommit, Option.isSome_none,
        Bool.false_eq_true, ↓reduceIte]
      rfl

end Calls

end Refines

end AgentBridge
