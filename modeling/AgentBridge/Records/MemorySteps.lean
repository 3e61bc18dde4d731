import AgentBridge.Records.Memory
import AgentBridge.Reasoning.Except

/-! # What each call of the in-memory store does, and the invariant of its state -/

namespace AgentBridge

open Reasoning

namespace MemoryStore

theorem orFault_eq_ok {α : Type} {x : Except StoreError α} {a : α} :
    orFault x = .ok a ↔ x = .ok a := by
  cases x <;> simp

/-! ## Creating records -/

/-- What `prepare` checks, with the ids of the draft's session. -/
structure State.Prepares (state : State) (draft : Draft) (ids : List RecordId) : Prop where
  valid : Rules.validate draft.payload draft.state = .ok ()
  session : state.sessions.lookup draft.sessionId = some ids
  run : ∀ run, draft.runId = some run →
    ∃ spec, state.runs.lookup run = some spec ∧ spec.sessionId = draft.sessionId
  reply : ∀ reply, draft.replyToId = some reply → (state.records.lookup reply).isSome
  bound : ids.length ≤ u64Max

theorem State.findSession_eq_ok {state : State} {id : SessionId} {ids : List RecordId} :
    state.findSession id = .ok ids ↔ state.sessions.lookup id = some ids := by
  unfold State.findSession
  cases state.sessions.lookup id <;> simp

theorem State.checkRun_eq_ok {state : State} {draft : Draft} {u : Unit} :
    state.checkRun draft = .ok u ↔ ∀ run, draft.runId = some run →
      ∃ spec, state.runs.lookup run = some spec ∧ spec.sessionId = draft.sessionId := by
  unfold State.checkRun
  cases draft.runId with
  | none => simp
  | some run => cases hrun : state.runs.lookup run <;> simp [hrun]

theorem State.checkReply_eq_ok {state : State} {draft : Draft} {u : Unit} :
    state.checkReply draft = .ok u ↔ ∀ reply, draft.replyToId = some reply →
      (state.records.lookup reply).isSome := by
  unfold State.checkReply
  cases draft.replyToId with
  | none => simp
  | some reply => cases hreply : state.records.lookup reply <;> simp [hreply]

theorem State.prepare_eq_ok {state : State} {draft : Draft} {snapshot : Snapshot} :
    state.prepare draft = .ok snapshot ↔
      ∃ ids, state.Prepares draft ids ∧ snapshot = Rules.created draft ids.length := by
  unfold State.prepare
  simp only [bind_eq_ok, orFault_eq_ok, State.findSession_eq_ok, State.checkRun_eq_ok,
    State.checkReply_eq_ok]
  constructor
  · rintro ⟨⟨⟩, hvalid, ids, hids, ⟨⟩, hrun, ⟨⟩, hreply, h⟩
    split at h
    · next hbound => exact ⟨ids, ⟨hvalid, hids, hrun, hreply, hbound⟩, (Except.ok.inj h).symm⟩
    · cases h
  · rintro ⟨ids, h, rfl⟩
    exact ⟨(), h.valid, ids, h.session, (), h.run, (), h.reply, by rw [if_pos h.bound]⟩

/-! ## The calls that change records -/

/-- The state after `commit`, when the snapshot's session has these ids. -/
def State.committed (state : State) (snapshot : Snapshot) (ids : List RecordId) : State :=
  { state with
    sessions := state.sessions.insert snapshot.record.sessionId (ids ++ [snapshot.record.id])
    records := state.records.insert snapshot.record.id ⟨snapshot, snapshot⟩ }

def State.withCurrent (state : State) (id : RecordId) (entry : Entry) (current : Snapshot) :
    State :=
  { state with records := state.records.insert id { entry with current } }

theorem State.lookup_committed (state : State) (snapshot : Snapshot) (ids : List RecordId)
    (id : RecordId) :
    (state.committed snapshot ids).records.lookup id =
      if id = snapshot.record.id then some ⟨snapshot, snapshot⟩ else state.records.lookup id :=
  HashMap.lookup_insert_eq _ _ _ _

theorem State.lookup_withCurrent (state : State) (id : RecordId) (entry : Entry)
    (current : Snapshot) (other : RecordId) :
    (state.withCurrent id entry current).records.lookup other =
      if other = id then some ⟨entry.initial, current⟩ else state.records.lookup other :=
  HashMap.lookup_insert_eq _ _ _ _

/-- What `prepare` checked still holds when only a record's version has changed. -/
theorem State.Prepares.withCurrent {state : State} {draft : Draft} {ids : List RecordId}
    (hp : state.Prepares draft ids) (id : RecordId) (entry : Entry) (current : Snapshot) :
    (state.withCurrent id entry current).Prepares draft ids := by
  refine { hp with reply := ?_ }
  intro reply hreply
  rw [State.lookup_withCurrent]
  split
  · rfl
  · exact hp.reply reply hreply

theorem State.commit_eq {state : State} {snapshot : Snapshot} {ids : List RecordId}
    (h : state.sessions.lookup snapshot.record.sessionId = some ids) :
    state.commit snapshot = (.ok (), state.committed snapshot ids) := by
  simp [State.commit, h, State.committed]

/-- What `insert` checks before it creates a record. -/
structure State.Inserts (state : State) (draft : Draft) (ids : List RecordId) : Prop where
  notResponse : draft.payload.isResponse = false
  fresh : state.records.lookup draft.id = none
  requestOpen : draft.payload.isRequest = true → draft.state = .opened
  prepares : state.Prepares draft ids

/-- A repeated draft. -/
structure State.Repeats (state : State) (draft : Draft) (id : RecordId) (entry : Entry) :
    Prop where
  found : state.records.lookup id = some entry
  same : Rules.draftOf entry.initial = draft

theorem insert_eq {state : State} {draft : Draft} {ids : List RecordId}
    (h : state.Inserts draft ids) : insert draft state =
      (.ok (Rules.created draft ids.length),
        state.committed (Rules.created draft ids.length) ids) := by
  have hreq : ¬ (draft.payload.isRequest = true ∧ draft.state ≠ .opened) :=
    fun hr => hr.2 (h.requestOpen hr.1)
  have hprep : state.prepare draft = .ok (Rules.created draft ids.length) :=
    State.prepare_eq_ok.mpr ⟨ids, h.prepares, rfl⟩
  have hcommit : state.commit (Rules.created draft ids.length) =
      (.ok (), state.committed (Rules.created draft ids.length) ids) :=
    State.commit_eq h.prepares.session
  simp [insert, h.notResponse, h.fresh, hreq, hprep, hcommit]

theorem insert_cases (draft : Draft) (state : State) :
    (∃ e, insert draft state = (.error e, state)) ∨
      (∃ entry, draft.payload.isResponse = false ∧ state.Repeats draft draft.id entry ∧
        insert draft state = (.ok entry.current, state)) ∨
      ∃ ids, state.Inserts draft ids ∧ insert draft state =
        (.ok (Rules.created draft ids.length),
          state.committed (Rules.created draft ids.length) ids) := by
  cases hresp : draft.payload.isResponse with
  | true => exact .inl ⟨.error .invalidDecision, by simp [insert, hresp]⟩
  | false =>
  cases hentry : state.records.lookup draft.id with
  | some entry =>
    by_cases hsame : Rules.sameDraft entry.initial draft = true
    · exact .inr (.inl ⟨entry, rfl, ⟨hentry, Rules.sameDraft_iff.mp hsame⟩, by
        simp [insert, hresp, hentry, hsame]⟩)
    · exact .inl ⟨.error .identityConflict, by simp [insert, hresp, hentry, hsame]⟩
  | none =>
  by_cases hreq : draft.payload.isRequest = true ∧ draft.state ≠ .opened
  · exact .inl ⟨.error .invalidPayload, by simp [insert, hresp, hentry, hreq]⟩
  cases hprep : state.prepare draft with
  | error e => exact .inl ⟨e, by simp [insert, hresp, hentry, hreq, hprep]⟩
  | ok snapshot =>
    obtain ⟨ids, hp, rfl⟩ := State.prepare_eq_ok.mp hprep
    have hopen : draft.payload.isRequest = true → draft.state = .opened := by
      intro hr
      by_contra hne
      exact hreq ⟨hr, hne⟩
    have hins : state.Inserts draft ids := ⟨hresp, hentry, hopen, hp⟩
    exact .inr (.inr ⟨ids, hins, insert_eq hins⟩)

theorem checkpoint_cases (id : RecordId) (r : Nat) (payload : Payload) (next : RecordState)
    (state : State) :
    (∃ e, checkpoint id r payload next state = (.error e, state)) ∨
      ∃ entry new, state.records.lookup id = some entry ∧
        Rules.checkpoint entry.current r payload next = .ok new ∧
        checkpoint id r payload next state = (.ok new, state.withCurrent id entry new) := by
  cases hentry : state.records.lookup id with
  | none => exact .inl ⟨.error .missingRecord, by simp [checkpoint, hentry]⟩
  | some entry =>
    cases hrule : Rules.checkpoint entry.current r payload next with
    | error e => exact .inl ⟨.error e, by simp [checkpoint, hentry, hrule]⟩
    | ok new =>
      exact .inr ⟨entry, new, rfl, hrule, by
        simp [checkpoint, hentry, hrule, State.withCurrent]⟩

/-- What `resolve` checks before it answers a request. -/
structure State.Answers (state : State) (request : RecordId) (r : Nat) (decision : Draft)
    (entry : Entry) (ids : List RecordId) : Prop where
  unresolved : state.decisions.lookup request = none
  fresh : state.records.lookup decision.id = none
  found : state.records.lookup request = some entry
  resolves : Rules.Resolves entry.current r decision
  prepares : state.Prepares decision ids

/-- The state after `resolve` answers a request. -/
def State.answered (state : State) (request : RecordId) (entry : Entry) (decision : Draft)
    (ids : List RecordId) : State :=
  State.committed
    { state.withCurrent request entry
        (Rules.advance entry.current entry.current.record.payload .complete) with
      decisions := state.decisions.insert request decision.id }
    (Rules.created decision ids.length) ids

theorem resolve_cases {state : State}
    (hdecisions : ∀ request response, state.decisions.lookup request = some response →
      (state.records.lookup response).isSome)
    (request : RecordId) (r : Nat) (decision : Draft) :
    (∃ e, resolve request r decision state = (.error e, state)) ∨
      (∃ response entry, state.decisions.lookup request = some response ∧
        state.Repeats decision response entry ∧
        resolve request r decision state = (.ok entry.current, state)) ∨
      ∃ entry ids, state.Answers request r decision entry ids ∧
        resolve request r decision state =
          (.ok (Rules.created decision ids.length), state.answered request entry decision ids) := by
  cases hdec : state.decisions.lookup request with
  | some response =>
    obtain ⟨entry, hentry⟩ := Option.isSome_iff_exists.mp (hdecisions request response hdec)
    by_cases hsame : Rules.sameDraft entry.initial decision = true
    · exact .inr (.inl ⟨response, entry, rfl, ⟨hentry, Rules.sameDraft_iff.mp hsame⟩, by
        simp [resolve, hdec, hentry, hsame]⟩)
    · exact .inl ⟨.error .alreadyResolved, by simp [resolve, hdec, hentry, hsame]⟩
  | none =>
  cases hfresh : state.records.lookup decision.id with
  | some entry => exact .inl ⟨.error .identityConflict, by simp [resolve, hdec, hfresh]⟩
  | none =>
  cases hentry : state.records.lookup request with
  | none => exact .inl ⟨.error .missingRecord, by simp [resolve, hdec, hfresh, hentry]⟩
  | some entry =>
  cases hrule : Rules.resolveRequest entry.current r decision with
  | error e => exact .inl ⟨.error e, by simp [resolve, hdec, hfresh, hentry, hrule]⟩
  | ok resolved =>
  cases hprep : state.prepare decision with
  | error e => exact .inl ⟨e, by simp [resolve, hdec, hfresh, hentry, hrule, hprep]⟩
  | ok snapshot =>
    obtain ⟨hresolves, rfl⟩ := Rules.resolveRequest_eq_ok.mp hrule
    obtain ⟨ids, hp, rfl⟩ := State.prepare_eq_ok.mp hprep
    -- the updates before the commit leave the sessions as `prepare` read them
    have hcommit (records : HashMap RecordId Entry) (decisions : HashMap RecordId RecordId) :
        State.commit { state with records, decisions } (Rules.created decision ids.length) =
          (.ok (), State.committed { state with records, decisions }
            (Rules.created decision ids.length) ids) :=
      State.commit_eq hp.session
    refine .inr (.inr ⟨entry, ids, ⟨hdec, hfresh, hentry, hresolves, hp⟩, ?_⟩)
    simp only [resolve, hdec, hfresh, hentry, hrule, hprep, hcommit, Option.isSome_none,
      Bool.false_eq_true, ↓reduceIte]
    rfl

/-! ## The other calls -/

theorem registerRun_cases (spec : RunSpec) (state : State) :
    (∃ e, registerRun spec state = (.error e, state)) ∨
      (state.runs.lookup spec.id = some spec ∧ registerRun spec state = (.ok false, state)) ∨
      (state.runs.lookup spec.id = none ∧ (state.sessions.lookup spec.sessionId).isSome ∧
        checkContinuation state spec = .ok () ∧
        checkContextRecords state spec.context.records = .ok () ∧
        registerRun spec state =
          (.ok true, { state with runs := state.runs.insert spec.id spec })) := by
  cases hrun : state.runs.lookup spec.id with
  | some existing =>
    by_cases hsame : existing = spec
    · exact .inr (.inl ⟨by rw [hsame], by simp [registerRun, hrun, hsame]⟩)
    · exact .inl ⟨.error .identityConflict, by simp [registerRun, hrun, hsame]⟩
  | none =>
  cases hsession : state.sessions.lookup spec.sessionId with
  | none => exact .inl ⟨.error .missingSession, by simp [registerRun, hrun, hsession]⟩
  | some ids =>
  cases hcont : checkContinuation state spec with
  | error e => exact .inl ⟨e, by simp [registerRun, hrun, hsession, hcont]⟩
  | ok u =>
  cases hctx : checkContextRecords state spec.context.records with
  | error e => exact .inl ⟨e, by simp [registerRun, hrun, hsession, hcont, hctx]⟩
  | ok u =>
    exact .inr (.inr ⟨rfl, rfl, rfl, rfl, by simp [registerRun, hrun, hsession, hcont, hctx]⟩)

theorem checkContextRecords_eq_ok {state : State} {ids : List RecordId} :
    checkContextRecords state ids = .ok () ↔
      ∀ id ∈ ids, ∃ entry, state.records.lookup id = some entry ∧
        entry.current.state.isFinal = true := by
  induction ids with
  | nil => simp [checkContextRecords]
  | cons id ids ih =>
    simp only [checkContextRecords, List.mem_cons, forall_eq_or_imp]
    cases hentry : state.records.lookup id with
    | none => simp
    | some entry =>
      by_cases hfinal : entry.current.state.isFinal = true
      · simp [hfinal, ih]
      · simp [hfinal]

theorem linkExecution_cases (relation : ExecutionRelation) (state : State) :
    (∃ e, linkExecution relation state = (.error e, state)) ∨
      (state.executionRelations.lookup relation.child = some relation ∧
        linkExecution relation state = (.ok relation, state)) ∨
      (∃ parent child, state.runs.lookup relation.parent = some parent ∧
        state.runs.lookup relation.child = some child ∧
        relation.validate parent child = .ok () ∧
        state.executionRelations.lookup relation.child = none ∧
        linkExecution relation state = (.ok relation, { state with
          executionRelations := state.executionRelations.insert relation.child relation })) := by
  cases hrel : state.executionRelations.lookup relation.child with
  | some existing =>
    by_cases hsame : existing = relation
    · exact .inr (.inl ⟨by rw [hsame], by simp [linkExecution, hrel, hsame]⟩)
    · exact .inl ⟨.error .executionRelationConflict, by simp [linkExecution, hrel, hsame]⟩
  | none =>
  cases hparent : state.runs.lookup relation.parent with
  | none => exact .inl ⟨.error .missingRun, by simp [linkExecution, hrel, hparent]⟩
  | some parent =>
  cases hchild : state.runs.lookup relation.child with
  | none => exact .inl ⟨.error .missingRun, by simp [linkExecution, hrel, hparent, hchild]⟩
  | some child =>
  cases hvalid : relation.validate parent child with
  | error e =>
    exact .inl ⟨.error e, by simp [linkExecution, hrel, hparent, hchild, hvalid]⟩
  | ok u =>
    by_cases hedges : ((state.executionRelations.lookup relation.parent).any
        (fun edge => edge.childAuthority != relation.parentAuthority) ||
      state.executionRelations.values.any
        (fun edge => edge.parent == relation.child &&
          edge.parentAuthority != relation.childAuthority)) = true
    · refine .inl ⟨.error .invalidExecutionRelation, ?_⟩
      simp only [linkExecution, hrel, hparent, hchild, hvalid, hedges, ↓reduceIte]
    cases hrecords : checkChildRecords state child child.context.records with
    | error e =>
      refine .inl ⟨e, ?_⟩
      simp only [linkExecution, hrel, hparent, hchild, hvalid, hedges, ↓reduceIte, hrecords,
        Bool.false_eq_true]
    | ok u =>
    cases hwalk : walkAncestors state.executionRelations relation.child relation.parent [] with
    | error e =>
      refine .inl ⟨e, ?_⟩
      simp only [linkExecution, hrel, hparent, hchild, hvalid, hedges, ↓reduceIte, hrecords, hwalk,
        Bool.false_eq_true]
    | ok u =>
      refine .inr (.inr ⟨parent, child, rfl, rfl, hvalid, rfl, ?_⟩)
      simp only [linkExecution, hrel, hparent, hchild, hvalid, hedges, ↓reduceIte, hrecords, hwalk,
        Bool.false_eq_true]

/-! ## The invariant -/

structure State.WellFormed (state : State) : Prop where
  entries : ∀ id entry, state.records.lookup id = some entry →
    entry.WellFormed ∧ entry.current.record.id = id
  /-- A record is in its session's list at its sequence, -/
  placed : ∀ id entry, state.records.lookup id = some entry →
    ∃ ids, state.sessions.lookup entry.current.record.sessionId = some ids ∧
      ids[entry.current.record.sequence]? = some id
  /-- and a session's list holds nothing else. -/
  listed : ∀ session ids (i : Nat) id, state.sessions.lookup session = some ids →
    ids[i]? = some id → ∃ entry, state.records.lookup id = some entry ∧
      entry.current.record.sessionId = session ∧ entry.current.record.sequence = i
  runs : ∀ id spec, state.runs.lookup id = some spec → spec.id = id
  decisions : ∀ request response, state.decisions.lookup request = some response →
    (state.records.lookup request).isSome ∧ (state.records.lookup response).isSome
  registry : state.continuations.WellFormed
  relations : ∀ child relation, state.executionRelations.lookup child = some relation →
    relation.child = child ∧ ∃ parentSpec childSpec,
      state.runs.lookup relation.parent = some parentSpec ∧
      state.runs.lookup child = some childSpec ∧ relation.validate parentSpec childSpec = .ok ()

namespace State.WellFormed

theorem default : State.default.WellFormed := by
  refine ⟨?_, ?_, ?_, ?_, ?_, Registry.wellFormed_empty, ?_⟩ <;> simp [State.default]

variable {state : State}

theorem createSession (h : state.WellFormed) (id : SessionId) :
    (createSession id state).2.WellFormed := by
  unfold MemoryStore.createSession
  cases hid : state.sessions.lookup id with
  | some ids => exact h
  | none =>
    have hlookup : ∀ s, (state.sessions.insert id []).lookup s =
        if s = id then some [] else state.sessions.lookup s :=
      fun s => HashMap.lookup_insert_eq _ _ _ _
    refine { h with placed := ?_, listed := ?_ }
    · intro rid entry hentry
      obtain ⟨ids, hids, hi⟩ := h.placed rid entry hentry
      refine ⟨ids, ?_, hi⟩
      have hne : entry.current.record.sessionId ≠ id := by
        intro heq
        rw [heq, hid] at hids
        cases hids
      simp only [hlookup, hne, ↓reduceIte, hids]
    · intro session ids i rid hs hi
      simp only [hlookup] at hs
      split at hs
      · obtain rfl := Option.some.inj hs
        simp at hi
      · exact h.listed session ids i rid hs hi

/-- A new version of a record keeps its identity, so only the entry changes. -/
theorem withCurrent (h : state.WellFormed) {id : RecordId} {entry : Entry} {current : Snapshot}
    (hentry : state.records.lookup id = some entry)
    (hwf : (⟨entry.initial, current⟩ : Entry).WellFormed)
    (hid : current.record.id = entry.current.record.id)
    (hsession : current.record.sessionId = entry.current.record.sessionId)
    (hsequence : current.record.sequence = entry.current.record.sequence) :
    (state.withCurrent id entry current).WellFormed := by
  have hlookup := state.lookup_withCurrent id entry current
  have hsome : ∀ other, (state.records.lookup other).isSome →
      ((state.withCurrent id entry current).records.lookup other).isSome := by
    intro other ho
    rw [hlookup]
    split
    · rfl
    · exact ho
  refine { h with entries := ?_, placed := ?_, listed := ?_, decisions := ?_ }
  · intro other e he
    rw [hlookup] at he
    split at he
    · next heq =>
      obtain rfl := Option.some.inj he
      exact ⟨hwf, by rw [hid, heq]; exact (h.entries id entry hentry).2⟩
    · exact h.entries other e he
  · intro other e he
    rw [hlookup] at he
    split at he
    · next heq =>
      obtain rfl := Option.some.inj he
      obtain ⟨ids, hids, hi⟩ := h.placed id entry hentry
      exact ⟨ids, by rw [← hids, ← hsession]; rfl, by rw [heq, ← hi, ← hsequence]⟩
    · exact h.placed other e he
  · intro session ids i other hs hi
    obtain ⟨e, he, hes, heq⟩ := h.listed session ids i other hs hi
    rw [hlookup]
    by_cases ho : other = id
    · subst ho
      obtain rfl : entry = e := by simpa [hentry] using he
      exact ⟨_, if_pos rfl, by rw [← hes, ← hsession], by rw [← heq, ← hsequence]⟩
    · exact ⟨e, by rw [if_neg ho, he], hes, heq⟩
  · intro request response hd
    obtain ⟨hq, hr⟩ := h.decisions request response hd
    exact ⟨hsome request hq, hsome response hr⟩

theorem committed (h : state.WellFormed) {draft : Draft} {ids : List RecordId}
    (hvalid : Rules.validate draft.payload draft.state = .ok ())
    (hfresh : state.records.lookup draft.id = none)
    (hids : state.sessions.lookup draft.sessionId = some ids) :
    (state.committed (Rules.created draft ids.length) ids).WellFormed := by
  have hrecords : ∀ other,
      (state.committed (Rules.created draft ids.length) ids).records.lookup other =
        if other = draft.id then
          some ⟨Rules.created draft ids.length, Rules.created draft ids.length⟩
        else state.records.lookup other :=
    state.lookup_committed (Rules.created draft ids.length) ids
  have hsessions : ∀ s,
      (state.committed (Rules.created draft ids.length) ids).sessions.lookup s =
        if s = draft.sessionId then some (ids ++ [draft.id]) else state.sessions.lookup s :=
    fun s => HashMap.lookup_insert_eq _ _ _ _
  refine { h with entries := ?_, placed := ?_, listed := ?_, decisions := ?_ }
  · intro other e he
    rw [hrecords] at he
    split at he
    · next heq =>
      obtain rfl := Option.some.inj he
      exact ⟨Entry.wellFormed_created hvalid, heq.symm⟩
    · exact h.entries other e he
  · intro other e he
    rw [hrecords] at he
    split at he
    · next heq =>
      obtain rfl := Option.some.inj he
      refine ⟨ids ++ [draft.id], ?_, ?_⟩
      · exact (hsessions draft.sessionId).trans (if_pos rfl)
      · rw [heq]
        exact List.getElem?_concat_length
    · next hne =>
      obtain ⟨others, hothers, hi⟩ := h.placed other e he
      rw [hsessions]
      by_cases hs : e.current.record.sessionId = draft.sessionId
      · rw [hs, hids, Option.some.injEq] at hothers
        subst hothers
        refine ⟨_, if_pos hs, ?_⟩
        have hlt := (List.getElem?_eq_some_iff.mp hi).1
        rw [List.getElem?_append_left hlt, hi]
      · exact ⟨others, by rw [if_neg hs, hothers], hi⟩
  · intro session others i other hs hi
    rw [hsessions] at hs
    rw [hrecords]
    split at hs
    · next heq =>
      obtain rfl := Option.some.inj hs
      by_cases hlt : i < ids.length
      · rw [List.getElem?_append_left hlt] at hi
        obtain ⟨e, he, hes, hseq⟩ := h.listed draft.sessionId ids i other hids hi
        have hne : other ≠ draft.id := by
          rintro rfl
          rw [hfresh] at he
          cases he
        exact ⟨e, by rw [if_neg hne, he], by rw [hes, heq], hseq⟩
      · have hilen := (List.getElem?_eq_some_iff.mp hi).1
        simp only [List.length_append, List.length_singleton] at hilen
        obtain rfl : i = ids.length := by omega
        rw [List.getElem?_concat_length, Option.some.injEq] at hi
        exact ⟨_, if_pos hi.symm, heq.symm, rfl⟩
    · obtain ⟨e, he, hes, hseq⟩ := h.listed session others i other hs hi
      have hne : other ≠ draft.id := by
        rintro rfl
        rw [hfresh] at he
        cases he
      exact ⟨e, by rw [if_neg hne, he], hes, hseq⟩
  · intro request response hd
    obtain ⟨hq, hr⟩ := h.decisions request response hd
    constructor
    · rw [hrecords]
      split
      · rfl
      · exact hq
    · rw [hrecords]
      split
      · rfl
      · exact hr

theorem answered (h : state.WellFormed) {request : RecordId} {r : Nat} {decision : Draft}
    {entry : Entry} {ids : List RecordId} (ha : state.Answers request r decision entry ids) :
    (state.answered request entry decision ids).WellFormed := by
  obtain ⟨hwf, hid⟩ := h.entries request entry ha.found
  have hreq := (Rules.responseMatches_kinds ha.resolves.answers).1
  have hne : decision.id ≠ request := by
    rintro heq
    have hfresh := ha.fresh
    rw [heq, ha.found] at hfresh
    cases hfresh
  have hcurrent := h.withCurrent ha.found (hwf.resolve hreq) rfl rfl rfl
  have hlookup := state.lookup_withCurrent request entry
    (Rules.advance entry.current entry.current.record.payload .complete)
  have hfresh : (state.withCurrent request entry
      (Rules.advance entry.current entry.current.record.payload .complete)).records.lookup
        decision.id = none := by
    rw [hlookup, if_neg hne, ha.fresh]
  have hcommitted := hcurrent.committed ha.prepares.valid hfresh ha.prepares.session
  refine { hcommitted with decisions := ?_ }
  intro q response hd
  have hdecisions : (state.answered request entry decision ids).decisions.lookup q =
      if q = request then some decision.id else state.decisions.lookup q :=
    HashMap.lookup_insert_eq _ _ _ _
  rw [hdecisions] at hd
  split at hd
  · next heq =>
    obtain rfl := Option.some.inj hd
    constructor
    · refine (congrArg Option.isSome ((HashMap.lookup_insert_eq _ _ _ _).trans
        (if_neg ?_))).trans ?_
      · rw [heq]
        exact hne.symm
      · rw [hlookup, if_pos heq]
        rfl
    · exact congrArg Option.isSome ((HashMap.lookup_insert_eq _ _ _ _).trans (if_pos rfl))
  · exact hcommitted.decisions q response hd

theorem registerRun (h : state.WellFormed) (spec : RunSpec) :
    (registerRun spec state).2.WellFormed := by
  obtain ⟨e, he⟩ | ⟨-, he⟩ | ⟨hfresh, -, -, -, he⟩ := registerRun_cases spec state
  · rw [he]
    exact h
  · rw [he]
    exact h
  · rw [he]
    have hlookup : ∀ id, (state.runs.insert spec.id spec).lookup id =
        if id = spec.id then some spec else state.runs.lookup id :=
      fun id => HashMap.lookup_insert_eq _ _ _ _
    have hold : ∀ id old, state.runs.lookup id = some old →
        (state.runs.insert spec.id spec).lookup id = some old := by
      intro id old ho
      rw [hlookup, if_neg, ho]
      rintro rfl
      rw [hfresh] at ho
      cases ho
    refine { h with runs := ?_, relations := ?_ }
    · intro id other ho
      simp only [hlookup] at ho
      split at ho
      · next heq =>
        obtain rfl := Option.some.inj ho
        exact heq.symm
      · exact h.runs id other ho
    · intro child relation hr
      obtain ⟨hc, p, c, hp, hcs, hv⟩ := h.relations child relation hr
      exact ⟨hc, p, c, hold _ p hp, hold _ c hcs, hv⟩

theorem linkExecution (h : state.WellFormed) (relation : ExecutionRelation) :
    (linkExecution relation state).2.WellFormed := by
  obtain ⟨e, he⟩ | ⟨-, he⟩ | ⟨parent, child, hp, hc, hv, -, he⟩ :=
    linkExecution_cases relation state
  · rw [he]
    exact h
  · rw [he]
    exact h
  · rw [he]
    refine { h with relations := ?_ }
    intro id other ho
    have hlookup : (state.executionRelations.insert relation.child relation).lookup id =
        if id = relation.child then some relation else state.executionRelations.lookup id :=
      HashMap.lookup_insert_eq _ _ _ _
    simp only [hlookup] at ho
    split at ho
    · next heq =>
      obtain rfl := Option.some.inj ho
      exact ⟨heq.symm, parent, child, hp, by rw [heq, hc], hv⟩
    · exact h.relations id other ho

theorem insert (h : state.WellFormed) (draft : Draft) : (insert draft state).2.WellFormed := by
  obtain ⟨e, he⟩ | ⟨entry, -, -, he⟩ | ⟨ids, hins, he⟩ := insert_cases draft state
  · rw [he]
    exact h
  · rw [he]
    exact h
  · rw [he]
    exact h.committed hins.prepares.valid hins.fresh hins.prepares.session

theorem checkpoint (h : state.WellFormed) (id : RecordId) (r : Nat) (payload : Payload)
    (next : RecordState) : (checkpoint id r payload next state).2.WellFormed := by
  obtain ⟨e, he⟩ | ⟨entry, new, hentry, hrule, he⟩ := checkpoint_cases id r payload next state
  · rw [he]
    exact h
  · rw [he]
    have hwf := (h.entries id entry hentry).1
    obtain ⟨-, rfl⟩ | ⟨hadv, rfl⟩ := Rules.checkpoint_cases hrule
    · exact h.withCurrent hentry hwf rfl rfl rfl
    · exact h.withCurrent hentry (hwf.advance hadv.valid) rfl rfl rfl

theorem resolve (h : state.WellFormed) (request : RecordId) (r : Nat) (decision : Draft) :
    (resolve request r decision state).2.WellFormed := by
  obtain ⟨e, he⟩ | ⟨response, entry, -, -, he⟩ | ⟨entry, ids, ha, he⟩ :=
    resolve_cases (fun q a hd => (h.decisions q a hd).2) request r decision
  · rw [he]
    exact h
  · rw [he]
    exact h
  · rw [he]
    exact h.answered ha

theorem withRegistry (h : state.WellFormed) {α : Type}
    (action : Registry → Except StoreError α × Registry)
    (haction : (action state.continuations).2.WellFormed) :
    (withRegistry state action).2.WellFormed :=
  { h with registry := haction }

theorem exec (h : state.WellFormed) {β : Type} (call : StoreCall β) :
    (exec call state).2.WellFormed := by
  cases call with
  | createSession id => exact h.createSession id
  | registerRun spec => exact h.registerRun spec
  | insert draft => exact h.insert draft
  | checkpoint id r payload next => exact h.checkpoint id r payload next
  | resolve request r decision => exact h.resolve request r decision
  | get id => exact h
  | getRun id => exact h
  | list session after limit => exact h
  | saveContinuation value =>
    show (saveContinuation value state).2.WellFormed
    unfold saveContinuation
    split
    · exact h
    · refine h.withRegistry _ ?_
      obtain ⟨e, he⟩ | ⟨record, -, -, he⟩ | ⟨hs, he⟩ :=
        Registry.save_cases state.continuations value
      · rw [he]
        exact h.registry
      · rw [he]
        exact h.registry
      · rw [he]
        exact h.registry.saved hs
  | getContinuation id => exact h
  | claimContinuation id =>
    refine h.withRegistry _ ?_
    obtain ⟨e, he⟩ | ⟨record, hrecord, -, -, he⟩ := Registry.claim_cases state.continuations id
    · rw [he]
      exact h.registry
    · rw [he]
      exact h.registry.claimed hrecord
  | linkExecution relation => exact h.linkExecution relation
  | executionParent child => exact h
  | executionChildren parent => exact h

/-- Every state that calls can reach is well formed. -/
theorem after (ops : List StoreOp) : (machine.after ops State.default).WellFormed :=
  machine.after_invariant (fun call _ h => h.exec call) ops default

end State.WellFormed

/-! ## What a call can do to the records and the runs -/

/-- The same records, responses and runs. -/
structure State.SameHistory (state state' : State) : Prop where
  records : ∀ id, state'.records.lookup id = state.records.lookup id
  decisions : state'.decisions = state.decisions
  runs : state'.runs = state.runs

theorem State.SameHistory.refl (state : State) : state.SameHistory state :=
  ⟨fun _ => rfl, rfl, rfl⟩

inductive State.HistoryStep (state : State) : State → Prop where
  | same {state' : State} (h : state.SameHistory state') : HistoryStep state state'
  | register {spec : RunSpec} (hfresh : state.runs.lookup spec.id = none)
      (hcontext : ∀ id ∈ spec.context.records, ∃ entry, state.records.lookup id = some entry ∧
        entry.current.state.isFinal = true) :
      HistoryStep state { state with runs := state.runs.insert spec.id spec }
  | insert {draft : Draft} {ids : List RecordId} (h : state.Inserts draft ids) :
      HistoryStep state (state.committed (Rules.created draft ids.length) ids)
  | advance {id : RecordId} {entry : Entry} {r : Nat} {payload : Payload} {next : RecordState}
      (hentry : state.records.lookup id = some entry)
      (hadv : Rules.Advances entry.current r payload next) :
      HistoryStep state (state.withCurrent id entry (Rules.advance entry.current payload next))
  | answer {request : RecordId} {r : Nat} {decision : Draft} {entry : Entry} {ids : List RecordId}
      (h : state.Answers request r decision entry ids) :
      HistoryStep state (state.answered request entry decision ids)

/-- Storing an entry again. -/
theorem State.sameHistory_withCurrent {state : State} {id : RecordId} {entry : Entry}
    (hentry : state.records.lookup id = some entry) :
    state.SameHistory (state.withCurrent id entry entry.current) := by
  refine ⟨fun other => ?_, rfl, rfl⟩
  rw [State.lookup_withCurrent]
  split
  · next heq => rw [heq, hentry]
  · rfl

theorem exec_sameHistory (state : State) {β : Type} {c : StoreCall β} (h : writesHistory c = false) :
    state.SameHistory (exec c state).2 := by
  cases c with
  | registerRun spec => cases h
  | insert draft => cases h
  | checkpoint id r payload next => cases h
  | resolve request r decision => cases h
  | createSession id =>
    show state.SameHistory (createSession id state).2
    unfold createSession
    split <;> exact ⟨fun _ => rfl, rfl, rfl⟩
  | linkExecution relation =>
    show state.SameHistory (linkExecution relation state).2
    rcases linkExecution_cases relation state with ⟨e, he⟩ | ⟨-, he⟩ | ⟨_, _, -, -, -, -, he⟩ <;>
      rw [he] <;> exact ⟨fun _ => rfl, rfl, rfl⟩
  | saveContinuation value =>
    show state.SameHistory (saveContinuation value state).2
    unfold saveContinuation
    split <;> exact ⟨fun _ => rfl, rfl, rfl⟩
  | claimContinuation id => exact ⟨fun _ => rfl, rfl, rfl⟩
  | get id => exact .refl state
  | getRun id => exact .refl state
  | list session after limit => exact .refl state
  | getContinuation id => exact .refl state
  | executionParent child => exact .refl state
  | executionChildren parent => exact .refl state

theorem exec_step {state : State} (hwf : state.WellFormed) {β : Type} (call : StoreCall β) :
    state.HistoryStep (exec call state).2 := by
  have hrefl : state.HistoryStep state := .same (.refl state)
  cases hw : writesHistory call with
  | false => exact .same (exec_sameHistory state hw)
  | true =>
    cases call with
    | registerRun spec =>
      show state.HistoryStep (registerRun spec state).2
      rcases registerRun_cases spec state with ⟨e, he⟩ | ⟨-, he⟩ | ⟨hfresh, -, -, hcontext, he⟩
      · rw [he]
        exact hrefl
      · rw [he]
        exact hrefl
      · rw [he]
        exact .register hfresh (checkContextRecords_eq_ok.mp hcontext)
    | insert draft =>
      show state.HistoryStep (insert draft state).2
      rcases insert_cases draft state with ⟨e, he⟩ | ⟨entry, -, -, he⟩ | ⟨ids, h, he⟩
      · rw [he]
        exact hrefl
      · rw [he]
        exact hrefl
      · rw [he]
        exact .insert h
    | checkpoint id r payload next =>
      show state.HistoryStep (checkpoint id r payload next state).2
      rcases checkpoint_cases id r payload next state with ⟨e, he⟩ | ⟨entry, new, hentry, hrule, he⟩
      · rw [he]
        exact hrefl
      · rw [he]
        rcases Rules.checkpoint_cases hrule with ⟨-, rfl⟩ | ⟨hadv, rfl⟩
        · exact .same (State.sameHistory_withCurrent hentry)
        · exact .advance hentry hadv
    | resolve request r decision =>
      show state.HistoryStep (resolve request r decision state).2
      rcases resolve_cases (fun q a hd => (hwf.decisions q a hd).2) request r decision with
        ⟨e, he⟩ | ⟨response, entry, -, -, he⟩ | ⟨entry, ids, h, he⟩
      · rw [he]
        exact hrefl
      · rw [he]
        exact hrefl
      · rw [he]
        exact .answer h
    | _ => cases hw

end MemoryStore

end AgentBridge
