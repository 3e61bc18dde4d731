import AgentBridge.Records.Payload

/-! # The validation and update rules that both record stores share -/

namespace AgentBridge

/-- The largest `u64`. -/
def u64Max : Nat := 2 ^ 64 - 1

/-- `u64::checked_add(1)`. -/
def checkedSucc (n : Nat) : Option Nat := if n < u64Max then some (n + 1) else none

namespace Rules

def sameDraft (snapshot : Snapshot) (draft : Draft) : Bool :=
  let record := snapshot.record
  record.id == draft.id && record.sessionId == draft.sessionId && record.runId == draft.runId &&
    record.actor == draft.actor && record.replyToId == draft.replyToId &&
    record.payload == draft.payload && snapshot.source == draft.source &&
    snapshot.state == draft.state

/-- The `any` over a permission's options; `ids` holds the ids inserted so far. -/
def anyInvalidOption : List PermissionOption → List String → Bool
  | [], _ => false
  | option :: options, ids =>
      isBlank option.id || ids.contains option.id || anyInvalidOption options (option.id :: ids)

def validate (payload : Payload) (state : RecordState) : Except StoreError Unit := do
  match payload with
  | .question question => question.validate
  | .permission _ options => if anyInvalidOption options [] then .error .invalidPayload else .ok ()
  | _ => .ok ()
  if payload.isResponse && state != .complete then .error .invalidPayload else .ok ()

/-- `kind` of two messages differs. -/
def messageKindChanged : Payload → Payload → Bool
  | .message old _, .message new _ => old != new
  | _, _ => false

/-- The snapshot that `prepare` of either store makes of a draft. -/
def created (draft : Draft) (sequence : Nat) : Snapshot where
  record := {
    id := draft.id
    sessionId := draft.sessionId
    runId := draft.runId
    sequence
    actor := draft.actor
    replyToId := draft.replyToId
    payload := draft.payload }
  source := draft.source
  revision := 0
  state := draft.state

def checkpoint (current : Snapshot) (expectedRevision : Nat) (payload : Payload)
    (next : RecordState) : Except StoreError Snapshot :=
  if current.record.payload = payload ∧ current.state = next ∧
      (current.revision = expectedRevision ∨
        some current.revision = checkedSucc expectedRevision) then
    .ok current
  else if current.revision ≠ expectedRevision then .error .revisionConflict
  else if current.state.isFinal then .error .finalized
  else if current.record.payload.discriminant ≠ payload.discriminant then .error .invalidPayload
  else if messageKindChanged current.record.payload payload then .error .invalidPayload
  else if payload.isRequest ∧ (payload ≠ current.record.payload ∨ next = .complete) then
    .error .invalidDecision
  else do
    validate payload next
    match checkedSucc current.revision with
    | none => .error .sequenceExhausted
    | some revision =>
        .ok { current with record := { current.record with payload }, state := next, revision }

/-- The match of `resolve_request` on the request's and the response's payloads. -/
def responseMatches (request response : Payload) : Except StoreError Unit :=
  match request, response with
  | .permission _ options, .decision (.selected id) _ =>
      if options.any fun option => option.id == id then .ok () else .error .invalidDecision
  | .permission _ _, .decision .cancelled _ => .ok ()
  | .question question, .answer outcome _ => question.validateAnswer outcome
  | _, _ => .error .invalidDecision

def resolveRequest (original : Snapshot) (expectedRevision : Nat) (decision : Draft) :
    Except StoreError Snapshot :=
  if original.revision ≠ expectedRevision then .error .revisionConflict
  else if original.state ≠ .opened then .error .finalized
  else if decision.replyToId ≠ some original.record.id ∨
      decision.sessionId ≠ original.record.sessionId ∨
      decision.runId ≠ original.record.runId then
    .error .invalidDecision
  else do
    responseMatches original.record.payload decision.payload
    match checkedSucc original.revision with
    | none => .error .sequenceExhausted
    | some revision => .ok { original with state := .complete, revision }

/-! ## What the rules accept -/

theorem checkedSucc_eq_some {n m : Nat} : checkedSucc n = some m ↔ n < u64Max ∧ m = n + 1 := by
  unfold checkedSucc
  split
  · simp_all [eq_comm]
  · simp_all

theorem validate_isResponse {payload : Payload} {state : RecordState}
    (h : validate payload state = .ok ()) (hr : payload.isResponse = true) :
    state = .complete := by
  cases payload <;> simp_all [validate, Payload.isResponse, bind, Except.bind]

theorem validate_request {payload : Payload} {state state' : RecordState}
    (h : validate payload state = .ok ()) (hr : payload.isRequest = true) :
    validate payload state' = .ok () := by
  cases payload <;> simp_all [validate, Payload.isRequest, Payload.isResponse]

/-- The draft that creates a record with this snapshot as its initial one. -/
def draftOf (snapshot : Snapshot) : Draft where
  id := snapshot.record.id
  sessionId := snapshot.record.sessionId
  runId := snapshot.record.runId
  actor := snapshot.record.actor
  replyToId := snapshot.record.replyToId
  source := snapshot.source
  payload := snapshot.record.payload
  state := snapshot.state

theorem sameDraft_iff {snapshot : Snapshot} {draft : Draft} :
    sameDraft snapshot draft = true ↔ draftOf snapshot = draft := by
  cases draft
  simp only [sameDraft, draftOf, Bool.and_eq_true, beq_iff_eq, Draft.mk.injEq]
  tauto

/-- A record's next version: same identity, the payload and state given, one revision later. -/
def advance (current : Snapshot) (payload : Payload) (next : RecordState) : Snapshot :=
  { current with
    record := { current.record with payload }, state := next, revision := current.revision + 1 }

@[simp] theorem draftOf_created (draft : Draft) (sequence : Nat) :
    draftOf (created draft sequence) = draft := rfl

/-- The creation snapshot with this content of a record that is at `current` now. -/
def withInitial (current : Snapshot) (payload : Payload) (state : RecordState) : Snapshot :=
  { current with record := { current.record with payload }, state, revision := 0 }

/-- `checkpoint` makes a new version: its guards, as facts. -/
structure Advances (current : Snapshot) (expectedRevision : Nat) (payload : Payload)
    (next : RecordState) : Prop where
  changed : ¬ (current.record.payload = payload ∧ current.state = next)
  revision : current.revision = expectedRevision
  bound : current.revision < u64Max
  opened : current.state = .opened
  discriminant : current.record.payload.discriminant = payload.discriminant
  messageKind : messageKindChanged current.record.payload payload = false
  request : payload.isRequest = true → current.record.payload = payload ∧ next ≠ .complete
  valid : validate payload next = .ok ()

/-- `checkpoint` answers a retry: the version asked for is the current one. -/
structure Retries (current : Snapshot) (expectedRevision : Nat) (payload : Payload)
    (next : RecordState) : Prop where
  payload_eq : current.record.payload = payload
  state_eq : current.state = next
  revision : current.revision = expectedRevision ∨
    some current.revision = checkedSucc expectedRevision

theorem checkpoint_retry {current : Snapshot} {r : Nat} {payload : Payload} {next : RecordState}
    (h : Retries current r payload next) : checkpoint current r payload next = .ok current := by
  unfold checkpoint
  rw [if_pos ⟨h.payload_eq, h.state_eq, h.revision⟩]

theorem checkpoint_advance {current : Snapshot} {r : Nat} {payload : Payload} {next : RecordState}
    (h : Advances current r payload next) :
    checkpoint current r payload next = .ok (advance current payload next) := by
  have hsucc : checkedSucc current.revision = some (current.revision + 1) :=
    checkedSucc_eq_some.mpr ⟨h.bound, rfl⟩
  unfold checkpoint
  rw [if_neg (fun hc => h.changed ⟨hc.1, hc.2.1⟩), if_neg (not_not.mpr h.revision),
    if_neg (by simp [h.opened]), if_neg (not_not.mpr h.discriminant),
    if_neg (by simp [h.messageKind])]
  rw [if_neg]
  · simp only [h.valid, hsucc, advance, bind, Except.bind]
  · rintro ⟨hreq, hne | hne⟩
    · exact hne (h.request hreq).1.symm
    · exact (h.request hreq).2 hne

/-- Everything a successful `checkpoint` can do. -/
theorem checkpoint_cases {current new : Snapshot} {r : Nat} {payload : Payload}
    {next : RecordState} (h : checkpoint current r payload next = .ok new) :
    (Retries current r payload next ∧ new = current) ∨
      (Advances current r payload next ∧ new = advance current payload next) := by
  unfold checkpoint at h
  split at h
  · next hc => exact .inl ⟨⟨hc.1, hc.2.1, hc.2.2⟩, by simpa using h.symm⟩
  · next hc =>
    split at h
    · cases h
    next hrev =>
    have hrev : current.revision = r := not_not.mp hrev
    split at h
    · cases h
    next hfinal =>
    split at h
    · cases h
    next hdisc =>
    split at h
    · cases h
    next hkind =>
    split at h
    · cases h
    next hreq =>
    cases hv : validate payload next with
    | error e => simp [hv, bind, Except.bind] at h
    | ok u =>
      cases hs : checkedSucc current.revision with
      | none => simp [hv, hs, bind, Except.bind] at h
      | some m =>
        obtain ⟨hbound, rfl⟩ := checkedSucc_eq_some.mp hs
        simp only [hv, hs, bind, Except.bind, Except.ok.injEq] at h
        refine .inr ⟨⟨?_, hrev, hbound, ?_, ?_, ?_, ?_, by simpa using hv⟩, h.symm⟩
        · exact fun hsame => hc ⟨hsame.1, hsame.2, .inl hrev⟩
        · exact RecordState.isFinal_eq_false.mp (by simpa using hfinal)
        · exact not_not.mp hdisc
        · simpa using hkind
        · intro hr
          by_contra hne
          refine hreq ⟨hr, ?_⟩
          by_contra hboth
          simp only [not_or, not_not] at hboth
          exact hne ⟨hboth.1.symm, hboth.2⟩

/-- The guards of `resolve_request`, as facts. -/
structure Resolves (original : Snapshot) (expectedRevision : Nat) (decision : Draft) : Prop where
  revision : original.revision = expectedRevision
  bound : original.revision < u64Max
  opened : original.state = .opened
  replyTo : decision.replyToId = some original.record.id
  session : decision.sessionId = original.record.sessionId
  run : decision.runId = original.record.runId
  answers : responseMatches original.record.payload decision.payload = .ok ()

theorem resolveRequest_eq_ok {original resolved : Snapshot} {r : Nat} {decision : Draft} :
    resolveRequest original r decision = .ok resolved ↔
      Resolves original r decision ∧ resolved = advance original original.record.payload .complete := by
  unfold resolveRequest
  constructor
  · intro h
    split at h
    · cases h
    next hrev =>
    split at h
    · cases h
    next hopen =>
    split at h
    · cases h
    next hids =>
    simp only [not_or, not_not] at hids
    cases hm : responseMatches original.record.payload decision.payload with
    | error e => simp [hm, bind, Except.bind] at h
    | ok u =>
      cases hs : checkedSucc original.revision with
      | none => simp [hm, hs, bind, Except.bind] at h
      | some m =>
        obtain ⟨hbound, rfl⟩ := checkedSucc_eq_some.mp hs
        simp only [hm, hs, bind, Except.bind, Except.ok.injEq] at h
        exact ⟨⟨not_not.mp hrev, hbound, not_not.mp hopen, hids.1, hids.2.1, hids.2.2, hm⟩, h.symm⟩
  · rintro ⟨h, rfl⟩
    have hsucc : checkedSucc original.revision = some (original.revision + 1) :=
      checkedSucc_eq_some.mpr ⟨h.bound, rfl⟩
    rw [if_neg (not_not.mpr h.revision), if_neg (not_not.mpr h.opened), if_neg]
    · simp only [h.answers, hsucc, advance, bind, Except.bind]
    · rintro (hne | hne | hne)
      · exact hne h.replyTo
      · exact hne h.session
      · exact hne h.run

/-- Only a request is answered, and only by a response. -/
theorem responseMatches_kinds {request response : Payload}
    (h : responseMatches request response = .ok ()) :
    request.isRequest = true ∧ response.isResponse = true := by
  unfold responseMatches at h
  split at h <;> simp_all [Payload.isRequest, Payload.isResponse]

end Rules

/-- What the rules keep of an entry: both of its snapshots are valid, they differ in content and
revision only, and the first version is the creation snapshot itself. -/
structure Entry.WellFormed (e : Entry) : Prop where
  initial_eq : e.initial = Rules.withInitial e.current e.initial.record.payload e.initial.state
  first : e.current.revision = 0 → e.initial = e.current
  validInitial : Rules.validate e.initial.record.payload e.initial.state = .ok ()
  valid : Rules.validate e.current.record.payload e.current.state = .ok ()

namespace Entry

theorem wellFormed_created {draft : Draft} {sequence : Nat}
    (h : Rules.validate draft.payload draft.state = .ok ()) :
    (⟨Rules.created draft sequence, Rules.created draft sequence⟩ : Entry).WellFormed :=
  ⟨rfl, fun _ => rfl, h, h⟩

theorem WellFormed.advance {e : Entry} (h : e.WellFormed) {payload : Payload} {next : RecordState}
    (hvalid : Rules.validate payload next = .ok ()) :
    (⟨e.initial, Rules.advance e.current payload next⟩ : Entry).WellFormed where
  initial_eq := h.initial_eq
  first hrev := absurd hrev (Nat.succ_ne_zero _)
  validInitial := h.validInitial
  valid := hvalid

theorem WellFormed.resolve {e : Entry} (h : e.WellFormed)
    (hr : e.current.record.payload.isRequest = true) :
    (⟨e.initial, Rules.advance e.current e.current.record.payload .complete⟩ : Entry).WellFormed :=
  h.advance (Rules.validate_request h.valid hr)

end Entry

end AgentBridge
