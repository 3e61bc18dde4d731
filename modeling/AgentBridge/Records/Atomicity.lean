import AgentBridge.Records.MemorySteps

/-!
# Atomicity of the in-memory store

A call that fails fails with an error of the store and changes nothing.  The panics of the model,
the `unwrap`s and the indexing of `memory.rs`, are the answers to rule out: the invariant of the
state gives each of them the entry it looks up.
-/

namespace AgentBridge

open Reasoning

/-- The answer is a value or an error of the store. -/
def NoPanic {α : Type} (answer : Except Fault α) : Prop := answer ≠ .error .panic

/-- The answer is no panic, and an error leaves the state alone. -/
structure Atomic {α σ : Type} (state : σ) (outcome : Except Fault α × σ) : Prop where
  noPanic : NoPanic outcome.1
  unchanged : ∀ e, outcome.1 = .error e → outcome.2 = state

@[simp] theorem noPanic_ok {α : Type} (a : α) : NoPanic (.ok a) := fun h => by cases h

@[simp] theorem noPanic_error {α : Type} (e : StoreError) :
    NoPanic (.error (.error e) : Except Fault α) := fun h => by cases h

theorem noPanic_orFault {α : Type} (x : Except StoreError α) : NoPanic (orFault x) := by
  cases x with
  | error e => exact noPanic_error e
  | ok a => exact noPanic_ok a

/-- The `?` of a check. -/
theorem NoPanic.error {α β : Type} {x : Except Fault α} {e : Fault} (h : NoPanic x)
    (hx : x = .error e) : NoPanic (.error e : Except Fault β) := by
  intro he
  apply h
  rw [hx, Except.error.inj he]

theorem NoPanic.bind {α β : Type} {x : Except Fault α} {f : α → Except Fault β} (hx : NoPanic x)
    (hf : ∀ a, x = .ok a → NoPanic (f a)) : NoPanic (x >>= f) := by
  cases x with
  | error e => exact fun h => hx (by simpa using h)
  | ok a => exact hf a rfl

theorem Atomic.ok {α σ : Type} {state next : σ} (a : α) : Atomic state (.ok a, next) :=
  ⟨noPanic_ok a, fun _ h => by cases h⟩

theorem Atomic.error {α σ : Type} {state : σ} {answer : Except Fault α} (h : NoPanic answer) :
    Atomic state (answer, state) :=
  ⟨h, fun _ _ => rfl⟩

namespace MemoryStore

variable {state : State}

/-! ## The checks -/

theorem State.noPanic_prepare (state : State) (draft : Draft) : NoPanic (state.prepare draft) := by
  have hsession : NoPanic (state.findSession draft.sessionId) := by
    unfold State.findSession
    cases state.sessions.lookup draft.sessionId <;> simp
  have hrun : NoPanic (state.checkRun draft) := by
    unfold State.checkRun
    cases draft.runId with
    | none => exact noPanic_ok ()
    | some run =>
      cases hspec : state.runs.lookup run with
      | none => simp only [hspec, noPanic_error]
      | some spec => by_cases hs : spec.sessionId = draft.sessionId <;> simp [hspec, hs]
  have hreply : NoPanic (state.checkReply draft) := by
    unfold State.checkReply
    cases draft.replyToId with
    | none => exact noPanic_ok ()
    | some reply => cases hentry : state.records.lookup reply <;> simp [hentry]
  apply (noPanic_orFault _).bind
  intro _ _
  apply hsession.bind
  intro ids _
  apply hrun.bind
  intro _ _
  apply hreply.bind
  intro _ _
  by_cases hbound : ids.length ≤ u64Max <;> simp [hbound]

theorem noPanic_checkContinuation (state : State) (spec : RunSpec) :
    NoPanic (checkContinuation state spec) := by
  unfold checkContinuation
  cases spec.continuation with
  | none => exact noPanic_ok ()
  | some id =>
    apply (noPanic_orFault _).bind
    intro saved _
    split
    · exact noPanic_error _
    · exact noPanic_ok ()

theorem noPanic_checkContextRecords (state : State) (ids : List RecordId) :
    NoPanic (checkContextRecords state ids) := by
  induction ids with
  | nil => exact noPanic_ok ()
  | cons id ids ih =>
    cases hentry : state.records.lookup id with
    | none => simp [checkContextRecords, hentry]
    | some entry =>
      by_cases hfinal : entry.current.state.isFinal = true
      · simpa [checkContextRecords, hentry, hfinal] using ih
      · simp [checkContextRecords, hentry, hfinal]

theorem noPanic_checkChildRecords (state : State) (child : RunSpec) (ids : List RecordId) :
    NoPanic (checkChildRecords state child ids) := by
  induction ids with
  | nil => exact noPanic_ok ()
  | cons id ids ih =>
    cases hentry : state.records.lookup id with
    | none => simp [checkChildRecords, hentry]
    | some entry =>
      by_cases hs : entry.current.record.sessionId = child.sessionId
      · simpa [checkChildRecords, hentry, hs] using ih
      · simp [checkChildRecords, hentry, hs]

-- the walk recurses on the ancestor its edge names, with one more visited run
theorem noPanic_walkAncestors (relations : HashMap RunId ExecutionRelation) (child ancestor : RunId)
    (visited : List RunId) : NoPanic (walkAncestors relations child ancestor visited) := by
  induction ancestor, visited using walkAncestors.induct relations child with
  | case1 ancestor visited hseen =>
    rw [walkAncestors_eq, if_pos hseen]
    exact noPanic_error _
  | case2 ancestor visited hseen hroot =>
    rw [walkAncestors_eq, if_neg hseen]
    simp only [hroot, noPanic_ok]
  | case3 ancestor visited hseen edge hedge ih =>
    rw [walkAncestors_eq, if_neg hseen]
    simpa only [hedge] using ih

/-! ## The lookups that must succeed -/

/-- `list` finds the record of each id in the session's list. -/
theorem State.WellFormed.noPanic_currents (h : state.WellFormed) {session : SessionId}
    {ids page : List RecordId} (hids : state.sessions.lookup session = some ids)
    (hpage : ∀ id ∈ page, id ∈ ids) : NoPanic (currents state page) := by
  induction page with
  | nil => exact noPanic_ok []
  | cons id page ih =>
    obtain ⟨i, hi⟩ := List.getElem?_of_mem (hpage id (by simp))
    obtain ⟨entry, hentry, -⟩ := h.listed session ids i id hids hi
    have hrest : NoPanic (currents state page) := ih fun other ho => hpage other (by simp [ho])
    simp only [currents, hentry, ok_bind]
    apply hrest.bind
    intro rest _
    exact noPanic_ok _

/-- `commit` finds the session of what `prepare` built. -/
theorem State.commit_prepared {snapshot : Snapshot} {draft : Draft}
    (hprep : state.prepare draft = .ok snapshot) (records : HashMap RecordId Entry)
    (decisions : HashMap RecordId RecordId) :
    ∃ next, State.commit { state with records, decisions } snapshot = (.ok (), next) := by
  obtain ⟨ids, hp, rfl⟩ := State.prepare_eq_ok.mp hprep
  exact ⟨_, State.commit_eq hp.session⟩

/-! ## The calls -/

theorem atomic_insert (draft : Draft) (state : State) : Atomic state (insert draft state) := by
  by_cases hresp : draft.payload.isResponse = true
  · simpa [insert, hresp] using Atomic.error (noPanic_error _)
  cases hentry : state.records.lookup draft.id with
  | some entry =>
    by_cases hsame : Rules.sameDraft entry.initial draft = true
    · simpa [insert, hresp, hentry, hsame] using Atomic.ok entry.current
    · simpa [insert, hresp, hentry, hsame] using Atomic.error (noPanic_error _)
  | none =>
  by_cases hreq : draft.payload.isRequest = true ∧ draft.state ≠ .opened
  · simpa [insert, hresp, hentry, hreq] using Atomic.error (noPanic_error _)
  cases hprep : state.prepare draft with
  | error e =>
    have he : NoPanic (.error e : Except Fault Snapshot) :=
      (state.noPanic_prepare draft).error hprep
    simpa [insert, hresp, hentry, hreq, hprep] using Atomic.error he
  | ok snapshot =>
    obtain ⟨next, hnext⟩ := State.commit_prepared hprep state.records state.decisions
    have hcommit : state.commit snapshot = (.ok (), next) := hnext
    simpa [insert, hresp, hentry, hreq, hprep, hcommit] using Atomic.ok snapshot

theorem atomic_checkpoint (id : RecordId) (r : Nat) (payload : Payload) (next : RecordState)
    (state : State) : Atomic state (checkpoint id r payload next state) := by
  unfold checkpoint
  cases state.records.lookup id with
  | none => exact .error (noPanic_error _)
  | some entry =>
    dsimp only
    cases Rules.checkpoint entry.current r payload next with
    | error e => exact .error (noPanic_error e)
    | ok snapshot => exact .ok snapshot

/-- The lookups of `resolve`: a response recorded as a decision has an entry, and the request still
has its own after the decision is recorded. -/
theorem State.WellFormed.atomic_resolve (h : state.WellFormed) (request : RecordId) (r : Nat)
    (decision : Draft) : Atomic state (MemoryStore.resolve request r decision state) := by
  unfold MemoryStore.resolve
  cases hdec : state.decisions.lookup request with
  | some response =>
    obtain ⟨entry, hentry⟩ := Option.isSome_iff_exists.mp (h.decisions request response hdec).2
    simp only [hentry]
    split
    · exact .ok entry.current
    · exact .error (noPanic_error _)
  | none =>
    dsimp only
    split
    · exact .error (noPanic_error _)
    cases hentry : state.records.lookup request with
    | none => exact .error (noPanic_error _)
    | some original =>
      dsimp only
      cases Rules.resolveRequest original.current r decision with
      | error e => exact .error (noPanic_error e)
      | ok resolved =>
        dsimp only
        cases hprep : state.prepare decision with
        | error e => exact .error ((state.noPanic_prepare decision).error hprep)
        | ok snapshot =>
          obtain ⟨next, hcommit⟩ := State.commit_prepared hprep
            (state.records.insert request { original with current := resolved })
            (state.decisions.insert request snapshot.record.id)
          simp only [hcommit]
          exact .ok snapshot

theorem atomic_registerRun (spec : RunSpec) (state : State) :
    Atomic state (registerRun spec state) := by
  unfold registerRun
  cases state.runs.lookup spec.id with
  | some existing =>
    dsimp only
    split
    · exact .ok false
    · exact .error (noPanic_error _)
  | none =>
    dsimp only
    cases state.sessions.lookup spec.sessionId with
    | none => exact .error (noPanic_error _)
    | some ids =>
      dsimp only
      cases hcont : checkContinuation state spec with
      | error e => exact .error ((noPanic_checkContinuation state spec).error hcont)
      | ok u =>
        dsimp only
        cases hctx : checkContextRecords state spec.context.records with
        | error e => exact .error ((noPanic_checkContextRecords state _).error hctx)
        | ok u => exact .ok true

theorem atomic_linkExecution (relation : ExecutionRelation) (state : State) :
    Atomic state (linkExecution relation state) := by
  unfold linkExecution
  cases state.executionRelations.lookup relation.child with
  | some existing =>
    dsimp only
    split
    · exact .ok existing
    · exact .error (noPanic_error _)
  | none =>
    dsimp only
    cases state.runs.lookup relation.parent with
    | none => exact .error (noPanic_error _)
    | some parent =>
      dsimp only
      cases state.runs.lookup relation.child with
      | none => exact .error (noPanic_error _)
      | some child =>
        dsimp only
        cases relation.validate parent child with
        | error e => exact .error (noPanic_error e)
        | ok u =>
          dsimp only
          split
          · exact .error (noPanic_error _)
          cases hrec : checkChildRecords state child child.context.records with
          | error e => exact .error ((noPanic_checkChildRecords state child _).error hrec)
          | ok u =>
            dsimp only
            cases hwalk :
                walkAncestors state.executionRelations relation.child relation.parent [] with
            | error e => exact .error ((noPanic_walkAncestors _ _ _ _).error hwalk)
            | ok u => exact .ok relation

/-- A registry call whose error leaves the registry alone. -/
theorem atomic_withRegistry {α : Type} (state : State)
    (action : Registry → Except StoreError α × Registry)
    (haction : ∀ e, (action state.continuations).1 = .error e →
      (action state.continuations).2 = state.continuations) :
    Atomic state (withRegistry state action) := by
  refine ⟨noPanic_orFault _, ?_⟩
  intro f hf
  unfold withRegistry at hf ⊢
  cases hanswer : (action state.continuations).1 with
  | ok a => simp [hanswer] at hf
  | error e => simp only [haction e hanswer]

theorem atomic_saveContinuation (value : Continuation) (state : State) :
    Atomic state (saveContinuation value state) := by
  unfold saveContinuation
  cases state.sessions.lookup value.sessionId with
  | none => exact .error (noPanic_error _)
  | some ids =>
    apply atomic_withRegistry
    intro e he
    obtain ⟨_, hs⟩ | ⟨_, -, -, hs⟩ | ⟨-, hs⟩ := Registry.save_cases state.continuations value
    · rw [hs]
    · rw [hs]
    · simp [hs] at he

theorem atomic_claimContinuation (id : ContinuationId) (state : State) :
    Atomic state (claimContinuation id state) := by
  apply atomic_withRegistry
  intro e he
  obtain ⟨_, hs⟩ | ⟨_, -, -, -, hs⟩ := Registry.claim_cases state.continuations id
  · rw [hs]
  · simp [hs] at he

theorem State.WellFormed.noPanic_list (h : state.WellFormed) (session : SessionId)
    (after : Option Nat) (limit : Nat) : NoPanic (list session after limit state) := by
  unfold list
  split
  · exact noPanic_error _
  cases hids : state.sessions.lookup session with
  | none => exact noPanic_error _
  | some ids =>
    apply h.noPanic_currents hids
    intro id hid
    exact List.mem_of_mem_drop (List.mem_of_mem_take hid)

theorem State.WellFormed.atomic_exec (h : state.WellFormed) {β : Type} (call : StoreCall β) :
    Atomic state (MemoryStore.exec call state) := by
  cases call with
  | createSession id =>
    show Atomic state (MemoryStore.createSession id state)
    unfold MemoryStore.createSession
    cases state.sessions.lookup id with
    | some ids => exact .ok ()
    | none => exact .ok ()
  | registerRun spec => exact atomic_registerRun spec state
  | insert draft => exact atomic_insert draft state
  | checkpoint id r payload next => exact atomic_checkpoint id r payload next state
  | resolve request r decision => exact h.atomic_resolve request r decision
  | get id =>
    apply Atomic.error
    unfold get
    cases state.records.lookup id <;> simp
  | getRun id =>
    apply Atomic.error
    unfold getRun
    cases state.runs.lookup id <;> simp
  | list session after limit => exact .error (h.noPanic_list session after limit)
  | saveContinuation value => exact atomic_saveContinuation value state
  | getContinuation id => exact .error (noPanic_orFault _)
  | claimContinuation id => exact atomic_claimContinuation id state
  | linkExecution relation => exact atomic_linkExecution relation state
  | executionParent child => exact .ok _
  | executionChildren parent => exact .ok _

/-- In every state that calls can reach, a call that fails has changed nothing, and no `unwrap` or
index of a call fails. -/
theorem calls_are_atomic (ops : List StoreOp) {β : Type} (call : StoreCall β) :
    (∀ e, (machine.exec call (machine.after ops State.default)).1 = .error e →
      (machine.exec call (machine.after ops State.default)).2 =
        machine.after ops State.default) ∧
    (machine.exec call (machine.after ops State.default)).1 ≠ .error .panic := by
  have hatomic := (State.WellFormed.after ops).atomic_exec call
  exact ⟨hatomic.unchanged, hatomic.noPanic⟩

end MemoryStore

end AgentBridge
