import AgentBridge.Reasoning.Pairing
import AgentBridge.Records.History

/-!
# Requests and responses stay paired

A permission or a question is a request; a decision or an answer is a response.  Both stores are
ledgers whose calls only write unlinked records or answer an open request.
-/

namespace AgentBridge

open Reasoning

/-- A response of the right kind for its request: a selected option is one of those offered, and an
answer is valid for the question. -/
def ResponseFits : Payload → Payload → Prop
  | .permission _ options, .decision (.selected id) _ => ∃ option ∈ options, option.id = id
  | .permission _ _, .decision .cancelled _ => True
  | .question question, .answer outcome _ => question.validateAnswer outcome = .ok ()
  | _, _ => False

theorem responseMatches_eq_ok {request response : Payload} :
    Rules.responseMatches request response = .ok () ↔ ResponseFits request response := by
  unfold Rules.responseMatches ResponseFits
  split
  · next title options id delivery =>
    by_cases hany : (options.any fun option => option.id == id) = true
    · simp only [hany, ↓reduceIte, true_iff]
      simpa using hany
    · simp only [hany, Bool.false_eq_true, ↓reduceIte, reduceCtorEq, false_iff]
      simpa using hany
  · simp
  · rfl
  · simp

/-- The response of a request: complete, never updated, in its session and run, and fitting. -/
structure Answered (request : RecordId) (asked given : Snapshot) : Prop where
  complete : given.state = .complete
  revision : given.revision = 0
  replyTo : given.record.replyToId = some request
  session : given.record.sessionId = asked.record.sessionId
  run : given.record.runId = asked.record.runId
  fits : ResponseFits asked.record.payload given.record.payload

def recordRules : PairingRules RecordId Entry where
  isRequest e := e.current.record.payload.isRequest = true
  isResponse e := e.current.record.payload.isResponse = true
  isAnswered e := e.current.state = .complete
  answers request e f := Answered request e.current f.current

/-- What is true of the requests and responses of a store. -/
structure RequestsPaired (record : RecordId → Option Entry)
    (response : RecordId → Option RecordId) : Prop where
  complete_iff : ∀ q e, record q = some e → e.current.record.payload.isRequest = true →
    (e.current.state = .complete ↔ ∃! a, response q = some a)
  answered : ∀ q a, response q = some a → ∃ e f, record q = some e ∧ record a = some f ∧
    e.current.record.payload.isRequest = true ∧ Answered q e.current f.current
  one_request : ∀ a f, record a = some f → f.current.record.payload.isResponse = true →
    ∃! q, response q = some a
  /-- The responses that name a request are the one that is linked to it. -/
  replies : ∀ q a f, record a = some f → f.current.record.payload.isResponse = true →
    (f.current.record.replyToId = some q ↔ response q = some a)
  unchanged : ∀ q e, record q = some e → e.current.record.payload.isRequest = true →
    e.current.record.payload = e.initial.record.payload

theorem requestsPaired_of_paired {l : Ledger RecordId Entry}
    (h : recordRules.Paired l)
    (hunchanged : ∀ q e, l.entry q = some e → e.current.record.payload.isRequest = true →
      e.current.record.payload = e.initial.record.payload) :
    RequestsPaired l.entry l.response where
  complete_iff q e he hr := by
    rw [show (e.current.state = .complete ↔ _) from h.answered_iff q e he hr]
    constructor
    · rintro ⟨a, ha⟩
      exact ⟨a, ha, fun b hb => by rw [ha, Option.some.injEq] at hb; exact hb.symm⟩
    · exact fun h => h.exists
  answered q a ha := by
    obtain ⟨e, f, he, hf, hrequest, -, hanswered⟩ := h.linked q a ha
    exact ⟨e, f, he, hf, hrequest, hanswered⟩
  one_request a f hf hr := by
    obtain ⟨q, hq⟩ := h.covered a f hf hr
    exact ⟨q, hq, fun p hp => h.injective p q a hp hq⟩
  replies q a f hf hr := by
    obtain ⟨p, hp⟩ := h.covered a f hf hr
    obtain ⟨e, f', -, hf', -, -, hanswered⟩ := h.linked p a hp
    rw [hf, Option.some.injEq] at hf'
    subst hf'
    have hreply : f.current.record.replyToId = some p := hanswered.replyTo
    constructor
    · intro hq
      rw [hreply, Option.some.injEq] at hq
      rw [← hq, hp]
    · intro hq
      rw [h.injective q p a hq hp, hreply]
  unchanged := hunchanged

/-- The requests of a store stay, with their payloads. -/
def RequestsKept (record record' : RecordId → Option Entry) : Prop :=
  ∀ q e, record q = some e → e.current.record.payload.isRequest = true →
    ∃ e', record' q = some e' ∧ e'.current.record.payload = e.current.record.payload

theorem RequestsKept.trans {r r' r'' : RecordId → Option Entry} (h : RequestsKept r r')
    (h' : RequestsKept r' r'') : RequestsKept r r'' := by
  intro q e he hr
  obtain ⟨e', he', hp'⟩ := h q e he hr
  obtain ⟨e'', he'', hp''⟩ := h' q e' he' (by rw [hp', hr])
  exact ⟨e'', he'', hp''.trans hp'⟩

/-! ## Snapshots that are not linked -/

theorem unlinked_created {draft : Draft} {e : Entry}
    (hresponse : draft.payload.isResponse = false)
    (hopen : draft.payload.isRequest = true → draft.state = .opened)
    (hpayload : e.current.record.payload.discriminant = draft.payload.discriminant)
    (hstate : e.current.state = draft.state) : recordRules.Unlinked e where
  notResponse hr := by
    have hr' : e.current.record.payload.isResponse = true := hr
    rw [Payload.isResponse_of_discriminant hpayload, hresponse] at hr'
    cases hr'
  open_ hr hanswered := by
    have hr' : e.current.record.payload.isRequest = true := hr
    rw [Payload.isRequest_of_discriminant hpayload] at hr'
    have hcomplete : e.current.state = .complete := hanswered
    rw [hstate, hopen hr'] at hcomplete
    cases hcomplete

/-- An open record with a valid payload. -/
theorem unlinked_of_opened {e : Entry} (hopen : e.current.state = .opened)
    (hvalid : Rules.validate e.current.record.payload e.current.state = .ok ()) :
    recordRules.Unlinked e where
  notResponse hr := by
    have hcomplete := Rules.validate_isResponse hvalid hr
    rw [hopen] at hcomplete
    cases hcomplete
  open_ _ hanswered := by
    have hcomplete : e.current.state = .complete := hanswered
    rw [hopen] at hcomplete
    cases hcomplete

theorem unlinked_advance {old e : Entry} {r : Nat} {payload : Payload} {next : RecordState}
    (hold : recordRules.Unlinked old) (h : Rules.Advances old.current r payload next)
    (hpayload : e.current.record.payload.discriminant = payload.discriminant)
    (hstate : e.current.state = next) : recordRules.Unlinked e where
  notResponse hr := by
    have hr' : e.current.record.payload.isResponse = true := hr
    rw [Payload.isResponse_of_discriminant (hpayload.trans h.discriminant.symm)] at hr'
    exact hold.notResponse hr'
  open_ hr hanswered := by
    have hr' : e.current.record.payload.isRequest = true := hr
    rw [Payload.isRequest_of_discriminant hpayload] at hr'
    have hcomplete : e.current.state = .complete := hanswered
    rw [hstate] at hcomplete
    exact (h.request hr').2 hcomplete

/-- What `resolve` writes is a response of the request. -/
theorem answered_created {request : RecordId} {original : Snapshot} {r n : Nat} {decision : Draft}
    (h : Rules.Resolves original r decision) (hid : original.record.id = request)
    (hvalid : Rules.validate decision.payload decision.state = .ok ()) :
    Answered request (Rules.advance original original.record.payload .complete)
      (Rules.created decision n) where
  complete := Rules.validate_isResponse hvalid (Rules.responseMatches_kinds h.answers).2
  revision := rfl
  replyTo := by rw [← hid]; exact h.replyTo
  session := h.session
  run := h.run
  fits := responseMatches_eq_ok.mp h.answers

/-! ## The in-memory store -/

namespace MemoryStore

def State.ledger (state : State) : Ledger RecordId Entry where
  entry := state.record
  response q := state.decisions.lookup q

theorem State.WellFormed.unlinked {state : State} (h : state.WellFormed) {id : RecordId}
    {e : Entry} (he : state.record id = some e) (hopen : e.current.state = .opened) :
    recordRules.Unlinked e :=
  unlinked_of_opened hopen (h.entries id e he).1.valid

theorem paired_step {state state' : State} (hwf : state.WellFormed)
    (hp : recordRules.Paired state.ledger) (h : state.HistoryStep state') :
    recordRules.Paired state'.ledger := by
  cases h with
  | same h =>
    apply hp.congr h.records
    intro q
    show state'.decisions.lookup q = state.decisions.lookup q
    rw [h.decisions]
  | register hfresh hcontext => exact hp.congr (fun _ => rfl) fun _ => rfl
  | @insert draft ids h =>
    apply hp.write (i := draft.id) (v := some ⟨Rules.created draft ids.length,
      Rules.created draft ids.length⟩)
    · intro u hu
      have hu' : state.records.lookup draft.id = some u := hu
      rw [h.fresh] at hu'
      cases hu'
    · intro w hw
      obtain rfl := Option.some.inj hw
      exact unlinked_created h.notResponse h.requestOpen rfl rfl
    · exact state.lookup_committed (Rules.created draft ids.length) ids
    · exact fun _ => rfl
  | @advance id entry r payload next hentry hadv =>
    have hold := hwf.unlinked hentry hadv.opened
    apply hp.write (i := id) (v := some ⟨entry.initial, Rules.advance entry.current payload next⟩)
    · intro u hu
      have hu' : state.records.lookup id = some u := hu
      rw [hentry, Option.some.injEq] at hu'
      exact hu' ▸ hold
    · intro w hw
      obtain rfl := Option.some.inj hw
      exact unlinked_advance hold hadv rfl rfl
    · exact state.lookup_withCurrent id entry _
    · exact fun _ => rfl
  | @answer request r decision entry ids h =>
    have hkinds := Rules.responseMatches_kinds h.resolves.answers
    have hid := (hwf.entries request entry h.found).2
    refine @PairingRules.Paired.answer _ _ recordRules _ _ _ hp request decision.id entry
      ⟨entry.initial, Rules.advance entry.current entry.current.record.payload .complete⟩
      ⟨Rules.created decision ids.length, Rules.created decision ids.length⟩ h.found
      (hwf.unlinked h.found h.resolves.opened) h.fresh hkinds.1 rfl hkinds.2 ?_ ?_ (answered_created h.resolves hid h.prepares.valid) ?_ ?_
    · intro hr
      exact Bool.false_ne_true ((Payload.isRequest_eq_false_of_isResponse hr).symm.trans hkinds.1)
    · intro hr
      exact Bool.false_ne_true ((Payload.isRequest_eq_false_of_isResponse hkinds.2).symm.trans hr)
    · intro j
      refine (State.lookup_committed _ (Rules.created decision ids.length) ids j).trans ?_
      show (if j = decision.id then _ else _) = if j = decision.id then _ else _
      split
      · rfl
      · exact state.lookup_withCurrent request entry _ j
    · exact fun j => HashMap.lookup_insert_eq _ _ _ _

/-- A request has the payload that it was inserted with. -/
def State.RequestsUnchanged (state : State) : Prop :=
  ∀ q e, state.record q = some e → e.current.record.payload.isRequest = true →
    e.current.record.payload = e.initial.record.payload

theorem State.RequestsUnchanged.step {state state' : State} (hunchanged : state.RequestsUnchanged)
    (h : state.HistoryStep state') : state'.RequestsUnchanged := by
  intro q e he hr
  have he' : state'.records.lookup q = some e := he
  cases h with
  | same h =>
    rw [h.records] at he'
    exact hunchanged q e he' hr
  | register hfresh hcontext => exact hunchanged q e he' hr
  | @insert draft ids h =>
    rw [State.lookup_committed] at he'
    split at he'
    · obtain rfl := Option.some.inj he'
      rfl
    · exact hunchanged q e he' hr
  | @advance id entry r payload next hentry hadv =>
    rw [State.lookup_withCurrent] at he'
    split at he'
    · obtain rfl := Option.some.inj he'
      have hpayload := (hadv.request hr).1
      rw [← hunchanged id entry hentry (by rw [hpayload]; exact hr)]
      exact hpayload.symm
    · exact hunchanged q e he' hr
  | @answer request r decision entry ids h =>
    rw [State.answered, State.lookup_committed] at he'
    split at he'
    · obtain rfl := Option.some.inj he'
      rfl
    · replace he' := (state.lookup_withCurrent request entry _ q).symm.trans he'
      split at he'
      · obtain rfl := Option.some.inj he'
        exact hunchanged request entry h.found hr
      · exact hunchanged q e he' hr

theorem requestsPaired_after (ops : List StoreOp) :
    RequestsPaired (machine.after ops State.default).record
      (machine.after ops State.default).decisions.lookup := by
  have h : (machine.after ops State.default).WellFormed ∧
      recordRules.Paired (machine.after ops State.default).ledger ∧
      (machine.after ops State.default).RequestsUnchanged := by
    refine machine.after_invariant
      (P := fun state => state.WellFormed ∧ recordRules.Paired state.ledger ∧
        state.RequestsUnchanged) ?_ ops
      ⟨State.WellFormed.default, .empty (fun _ => rfl) fun _ => rfl, fun _ _ h => by cases h⟩
    intro β call state h
    have hstep := exec_step h.1 call
    exact ⟨h.1.exec call, paired_step h.1 h.2.1 hstep, h.2.2.step hstep⟩
  exact requestsPaired_of_paired h.2.1 h.2.2

theorem State.HistoryStep.requestsKept {state state' : State} (h : state.HistoryStep state') :
    RequestsKept state.record state'.record := by
  intro q e he hr
  cases h with
  | same h => exact ⟨e, (h.records q).trans he, rfl⟩
  | register hfresh hcontext => exact ⟨e, he, rfl⟩
  | @insert draft ids h =>
    have hne : q ≠ draft.id := by
      rintro rfl
      have hfresh := h.fresh.symm.trans he
      cases hfresh
    exact ⟨e, (state.lookup_committed _ ids q).trans ((if_neg hne).trans he), rfl⟩
  | @advance id entry r payload next hentry hadv =>
    by_cases hq : q = id
    · subst hq
      obtain rfl := Option.some.inj (hentry.symm.trans he)
      refine ⟨_, (state.lookup_withCurrent q entry _ q).trans (if_pos rfl), ?_⟩
      rw [Payload.isRequest_of_discriminant hadv.discriminant] at hr
      exact (hadv.request hr).1.symm
    · exact ⟨e, (state.lookup_withCurrent id entry _ q).trans ((if_neg hq).trans he), rfl⟩
  | @answer request r decision entry ids h =>
    have hne : q ≠ decision.id := by
      rintro rfl
      have hfresh := h.fresh.symm.trans he
      cases hfresh
    have hafter : (state.answered request entry decision ids).record q =
        if q = request then
          some ⟨entry.initial, Rules.advance entry.current entry.current.record.payload .complete⟩
        else state.record q :=
      (State.lookup_committed _ (Rules.created decision ids.length) ids q).trans
        ((if_neg hne).trans (state.lookup_withCurrent request entry _ q))
    rw [hafter]
    split
    · next hq =>
      rw [hq] at he
      obtain rfl := Option.some.inj (h.found.symm.trans he)
      exact ⟨_, rfl, rfl⟩
    · exact ⟨e, he, rfl⟩

theorem requestsKept_after {state : State} (hwf : state.WellFormed) (ops : List StoreOp) :
    RequestsKept state.record (machine.after ops state).record :=
  machine.after_relation (R := fun state state' => RequestsKept state.record state'.record)
    (fun _ _ e he _ => ⟨e, he, rfl⟩) RequestsKept.trans (fun call _ h => h.exec call)
    (fun call _ h => (exec_step h call).requestsKept) ops hwf

end MemoryStore

/-! ## The SQLite store -/

namespace SqliteStore

variable {Text : Type} {J : SerdeJson Text} {db db' : Db Text}

def Db.response (db : Db Text) (request : RecordId) : Option RecordId :=
  (db.decisions.lookup request.asStr).bind fun text => (Identifier.new text).toOption

def Db.ledger (J : SerdeJson Text) (db : Db Text) : Ledger RecordId Entry where
  entry := db.read J
  response := db.response

theorem Updates.unlinked {record : RecordId} {e : Entry} {row : RowData Text}
    {change : RecordChange} (h : Updates J db record e row change)
    (hopen : e.current.state = .opened) : recordRules.Unlinked e :=
  unlinked_of_opened hopen h.decodes.valid

section Lawful

variable (hJ : J.Lawful)

include hJ

/-- The next version of a request reads back. -/
theorem Updates.request_decodes {record : RecordId} {e : Entry} {row : RowData Text}
    {change : RecordChange} (h : Updates J db record e row change)
    (hr : e.current.record.payload.isRequest = true) (next : RecordState) :
    DecodesTo J (nextRow J row e.current (Rules.advance e.current e.current.record.payload next))
      ⟨e.initial, Rules.advance e.current e.current.record.payload next⟩ :=
  decodesTo_nextRow h.decodes (Rules.validate_request h.decodes.valid hr)
    (Codec.readsBack_of_isRequest hJ hr)
    fun _ => Codec.readsBack_initial_of_isRequest hJ hr e.current.state

theorem decodesTo_response {decision : Draft} {n : Nat} (hn : (n : Int) < i64Max)
    (hvalid : Rules.validate decision.payload decision.state = .ok ())
    (hr : decision.payload.isResponse = true) :
    DecodesTo J (newRow J (Rules.created decision n))
      ⟨Rules.created decision n, Rules.created decision n⟩ :=
  decodesTo_newRow hn hvalid (Codec.readsBack_of_isResponse hJ hr)
    fun source _ => Codec.readsBack_sourceRef hJ source

/-- What is read after `resolve` answers a request. -/
theorem Answers.read_after {request : RecordId} {r : Nat} {decision : Draft} {e : Entry}
    {row : RowData Text} {change : RecordChange} {next : Nat}
    (h : Answers J db request r decision e row change next) (j : RecordId) :
    (afterResolve J db e row change request decision next).read J j =
      if j = decision.id then some ⟨Rules.created decision next, Rules.created decision next⟩
      else if j = request then
        some ⟨e.initial, Rules.advance e.current e.current.record.payload .complete⟩
      else db.read J j := by
  have hkinds := Rules.responseMatches_kinds h.resolves.answers
  have hnamed := h.updates.named
  have hsame : (afterResolve J db e row change request decision next).read J j =
      (afterInsert J (afterUpdate J db row change e.current
        (Rules.advance e.current e.current.record.payload .complete))
        (Rules.created decision next) next).read J j :=
    Db.read_congr (entry_congr rfl)
  rw [hsame]
  split
  · next hj =>
    rw [hj]
    exact Db.read_eq_some.mpr (entry_afterInsert_self.mpr
      (decodesTo_response hJ h.bound h.prepares.valid hkinds.2))
  · next hj =>
    rw [Db.read_congr (entry_afterInsert_ne hj)]
    split
    · next hq =>
      rw [hq, ← hnamed]
      exact Db.read_eq_some.mpr (entry_afterUpdate_self.mpr
        (h.updates.request_decodes hJ hkinds.1 .complete))
    · next hq => exact Db.read_congr (entry_afterUpdate_ne (by rw [hnamed]; exact hq))

omit hJ in
theorem response_afterResolve {request : RecordId} {decision : Draft} {e : Entry}
    {row : RowData Text} {change : RecordChange} {next : Nat} (q : RecordId) :
    (afterResolve J db e row change request decision next).response q =
      if q = request then some decision.id else db.response q := by
  have hlookup : (afterResolve J db e row change request decision next).decisions.lookup q.asStr =
      if q.asStr = request.asStr then some decision.id.asStr
      else db.decisions.lookup q.asStr := HashMap.lookup_insert_eq _ _ _ _
  unfold Db.response
  rw [hlookup]
  by_cases hq : q = request
  · rw [if_pos hq, if_pos (by rw [hq])]
    simp [Except.toOption]
  · rw [if_neg hq, if_neg fun heq => hq (Identifier.asStr_inj.mp heq)]

theorem paired_step (hp : recordRules.Paired (db.ledger J)) (h : db.HistoryStep J db') :
    recordRules.Paired (db'.ledger J) := by
  cases h with
  | same h =>
    apply hp.congr
    · intro q
      exact Db.read_congr (entry_congr (by rw [h.records]))
    · intro q
      show db'.response q = db.response q
      unfold Db.response
      rw [h.decisions]
  | register hfresh hcontext =>
    exact hp.congr (fun _ => Db.read_congr (entry_congr rfl)) fun _ => rfl
  | @insert draft next h =>
    apply hp.write (i := draft.id)
      (v := (afterInsert J db (Rules.created draft next) next).read J draft.id)
    · intro u hu
      have hnone : db.read J draft.id = none := Db.read_of_fresh h.inserts.fresh
      have hu' : db.read J draft.id = some u := hu
      rw [hnone] at hu'
      cases hu'
    · intro w hw
      have hreading := newRow_reading hJ
        (entry_afterInsert_self.mp (Db.read_eq_some.mp hw))
      apply unlinked_created h.notResponse h.requestOpen
      · rw [hreading.1, Payload.discriminant_readBack]
      · exact hreading.2.1
    · intro j
      show (afterInsert J db (Rules.created draft next) next).read J j = _
      split
      · next hj => rw [hj]
      · next hj => exact Db.read_congr (entry_afterInsert_ne hj)
    · exact fun _ => rfl
  | @advance record e row change r payload next h hadv =>
    have hold := h.unlinked hadv.opened
    apply hp.write (i := record) (v := (afterUpdate J db row change e.current
      (Rules.advance e.current payload next)).read J record)
    · intro u hu
      have hu' : db.read J record = some u := hu
      rw [h.read_eq, Option.some.injEq] at hu'
      exact hu' ▸ hold
    · intro w hw
      rw [← h.named] at hw
      have hreading := nextRow_reading hJ h.decodes
        (entry_afterUpdate_self.mp (Db.read_eq_some.mp hw))
      apply unlinked_advance hold hadv
      · rw [hreading]
        exact Payload.discriminant_readBack payload
      · rw [hreading]
        rfl
    · intro j
      show (afterUpdate J db row change e.current
        (Rules.advance e.current payload next)).read J j = _
      split
      · next hj => rw [hj]
      · next hj => exact Db.read_congr (entry_afterUpdate_ne (by rw [h.named]; exact hj))
    · exact fun _ => rfl
  | @answer request r decision e row change next h =>
    have hkinds := Rules.responseMatches_kinds h.resolves.answers
    refine @PairingRules.Paired.answer _ _ recordRules _ _ _ hp request decision.id e
      ⟨e.initial, Rules.advance e.current e.current.record.payload .complete⟩
      ⟨Rules.created decision next, Rules.created decision next⟩ h.updates.read_eq
      (h.updates.unlinked h.resolves.opened) (Db.read_of_fresh h.fresh) hkinds.1 rfl hkinds.2 ?_ ?_
      (answered_created h.resolves h.updates.named h.prepares.valid) (h.read_after hJ)
      response_afterResolve
    · intro hr
      exact Bool.false_ne_true ((Payload.isRequest_eq_false_of_isResponse hr).symm.trans hkinds.1)
    · intro hr
      exact Bool.false_ne_true ((Payload.isRequest_eq_false_of_isResponse hkinds.2).symm.trans hr)

/-- The rows of requests and responses read, and the rows of decisions name records. -/
structure Db.RequestsReadable (J : SerdeJson Text) (db : Db Text) : Prop where
  rows : ∀ name row, db.records.lookup name = some row → ∃ payload : Payload,
    row.payload = Codec.documentText J payload ∧
      (payload.isRequest = true ∨ payload.isResponse = true →
        ∃ e, DecodesTo J row e ∧ e.current.record.payload = payload)
  decisions : ∀ name text, db.decisions.lookup name = some text →
    ∃ request response : RecordId, name = request.asStr ∧ text = response.asStr
  unchanged : ∀ q e, db.read J q = some e → e.current.record.payload.isRequest = true →
    e.current.record.payload = e.initial.record.payload

omit hJ in
theorem Db.RequestsReadable.empty (epoch : String) :
    (Db.empty Text epoch).RequestsReadable J where
  rows _ _ h := by cases h
  decisions _ _ h := by cases h
  unchanged _ _ h := by cases h

omit hJ in
/-- A row is stored: a new one, or the next version of one. -/
theorem Db.RequestsReadable.stored (h : db.RequestsReadable J) {key : RecordId}
    {row : RowData Text} {payload : Payload}
    (hrows : ∀ name, db'.records.lookup name =
      if name = key.asStr then some row else db.records.lookup name)
    (hdecisions : db'.decisions = db.decisions)
    (hpayload : row.payload = Codec.documentText J payload)
    (hread : payload.isRequest = true ∨ payload.isResponse = true →
      ∃ e, DecodesTo J row e ∧ e.current.record.payload = payload)
    (hunchanged : ∀ e, DecodesTo J row e → e.current.record.payload.isRequest = true →
      e.current.record.payload = e.initial.record.payload) : db'.RequestsReadable J where
  rows name other hother := by
    rw [hrows] at hother
    split at hother
    · obtain rfl := Option.some.inj hother
      exact ⟨payload, hpayload, hread⟩
    · exact h.rows name other hother
  decisions := by
    rw [hdecisions]
    exact h.decisions
  unchanged q e he hr := by
    by_cases hq : q = key
    · obtain ⟨other, hother, hdecodes⟩ := entry_eq_some.mp (Db.read_eq_some.mp he)
      rw [hrows, if_pos (by rw [hq])] at hother
      obtain rfl := Option.some.inj hother
      exact hunchanged e hdecodes hr
    · rw [Db.read_congr (entry_congr
        ((hrows q.asStr).trans (if_neg fun heq => hq (Identifier.asStr_inj.mp heq))))] at he
      exact h.unchanged q e he hr

theorem Db.RequestsReadable.afterInsert (h : db.RequestsReadable J) {draft : Draft} {n : Nat}
    (hn : (n : Int) < i64Max) (hvalid : Rules.validate draft.payload draft.state = .ok ()) :
    (afterInsert J db (Rules.created draft n) n).RequestsReadable J := by
  have hrows : ∀ name, (SqliteStore.afterInsert J db (Rules.created draft n) n).records.lookup name =
      if name = draft.id.asStr then some (newRow J (Rules.created draft n))
      else db.records.lookup name := lookup_afterInsert (Rules.created draft n) n
  have hpayload : (newRow J (Rules.created draft n)).payload =
      Codec.documentText J draft.payload := rfl
  apply h.stored hrows rfl hpayload
  · intro hkind
    have hread : Codec.ReadsBack J draft.payload := by
      rcases hkind with hr | hr
      · exact Codec.readsBack_of_isRequest hJ hr
      · exact Codec.readsBack_of_isResponse hJ hr
    exact ⟨_, decodesTo_newRow hn hvalid hread fun source _ => Codec.readsBack_sourceRef hJ source,
      rfl⟩
  · intro e he _
    rw [(newRow_reading hJ he).2.2.2.1]

theorem Db.RequestsReadable.afterUpdate (h : db.RequestsReadable J) {record : RecordId} {e : Entry}
    {row : RowData Text} {change : RecordChange} (hu : Updates J db record e row change)
    (hopen : e.current.state = .opened) {payload : Payload} {next : RecordState}
    (hdisc : e.current.record.payload.discriminant = payload.discriminant)
    (hrequest : payload.isRequest = true → e.current.record.payload = payload) :
    (afterUpdate J db row change e.current
      (Rules.advance e.current payload next)).RequestsReadable J := by
  have hrows := @lookup_afterUpdate _ J db row change e.current
    (Rules.advance e.current payload next)
  rw [hu.named] at hrows
  have hpayload : (nextRow J row e.current (Rules.advance e.current payload next)).payload =
      Codec.documentText J payload := rfl
  apply h.stored hrows rfl hpayload
  · intro hkind
    rcases hkind with hr | hr
    · obtain rfl := hrequest hr
      exact ⟨_, hu.request_decodes hJ hr next, rfl⟩
    · -- an open record is no response
      rw [← Payload.isResponse_of_discriminant hdisc] at hr
      exact absurd hr (hu.unlinked hopen).notResponse
  · intro e' he' hr
    have hcurrent := nextRow_reading hJ hu.decodes he'
    rw [hcurrent] at hr ⊢
    have hr' : payload.isRequest = true := by
      rw [← hr]
      exact Payload.isRequest_of_discriminant (Payload.discriminant_readBack payload).symm
    have hpayload := hrequest hr'
    have hold := h.unchanged record e hu.read_eq (by rw [hpayload]; exact hr')
    show payload.readBack = e'.initial.record.payload
    have hback := Payload.readBack_of_isRequest hr'
    rcases nextRow_initial hJ hu.decodes he' with hinitial | hinitial
    · rw [hback, hinitial, ← hold, hpayload]
    · rw [hinitial, ← hold, hpayload]

theorem Db.RequestsReadable.step (h : db.RequestsReadable J) (hstep : db.HistoryStep J db') :
    db'.RequestsReadable J := by
  cases hstep with
  | same hq =>
    refine ⟨by rw [hq.records]; exact h.rows, by rw [hq.decisions]; exact h.decisions, ?_⟩
    intro q e he
    have hsame : db'.read J q = db.read J q :=
      Db.read_congr (entry_congr (by rw [hq.records]))
    rw [hsame] at he
    exact h.unchanged q e he
  | register hfresh hcontext => exact { h with }
  | insert hi => exact h.afterInsert hJ hi.bound hi.prepares.valid
  | advance hu hadv =>
    exact h.afterUpdate hJ hu hadv.opened hadv.discriminant fun hr => (hadv.request hr).1
  | @answer request r decision e row change next ha =>
    have hupdated : (SqliteStore.afterUpdate J db row change e.current
        (Rules.advance e.current e.current.record.payload .complete)).RequestsReadable J :=
      h.afterUpdate hJ ha.updates ha.resolves.opened rfl fun _ => rfl
    have hinserted := hupdated.afterInsert hJ ha.bound ha.prepares.valid
    refine { hinserted with decisions := ?_ }
    intro name text htext
    have htext' := (HashMap.lookup_insert_eq _ _ _ _).symm.trans htext
    split at htext'
    · next heq =>
      obtain rfl := Option.some.inj htext'
      exact ⟨request, decision.id, heq, rfl⟩
    · exact h.decisions name text htext'

theorem requestsKept_step (h : db.HistoryStep J db') :
    RequestsKept (db.read J) (db'.read J) := by
  intro q e he hr
  cases h with
  | same h =>
    have hsame : db'.read J q = db.read J q :=
      Db.read_congr (entry_congr (by rw [h.records]))
    exact ⟨e, hsame.trans he, rfl⟩
  | register hfresh hcontext => exact ⟨e, he, rfl⟩
  | @insert draft next h =>
    have hne : q ≠ draft.id := by
      rintro rfl
      have hnone : db.read J draft.id = none := Db.read_of_fresh h.inserts.fresh
      rw [hnone] at he
      cases he
    exact ⟨e, by rw [Db.read_congr (entry_afterInsert_ne hne), he], rfl⟩
  | @advance record e₀ row change r payload next h hadv =>
    by_cases hq : q = record
    · subst hq
      rw [h.read_eq, Option.some.injEq] at he
      subst he
      rw [Payload.isRequest_of_discriminant hadv.discriminant] at hr
      obtain rfl := (hadv.request hr).1
      have hread := (@entry_afterUpdate_self _ J db row change _ _ _).mpr
        (h.request_decodes hJ hr next)
      rw [h.named] at hread
      exact ⟨_, Db.read_eq_some.mpr hread, rfl⟩
    · exact ⟨e, by rw [Db.read_congr (entry_afterUpdate_ne (by rw [h.named]; exact hq)), he], rfl⟩
  | @answer request r decision e₀ row change next h =>
    have hne : q ≠ decision.id := by
      rintro rfl
      rw [Db.read_of_fresh h.fresh] at he
      cases he
    rw [h.read_after hJ, if_neg hne]
    split
    · next hq =>
      rw [hq, h.updates.read_eq, Option.some.injEq] at he
      subst he
      exact ⟨_, rfl, rfl⟩
    · exact ⟨e, he, rfl⟩

theorem requestsPaired_after (epoch : String) (ops : List StoreOp) :
    RequestsPaired (((machine J).after ops (Db.empty Text epoch)).read J)
        ((machine J).after ops (Db.empty Text epoch)).response ∧
      ((machine J).after ops (Db.empty Text epoch)).RequestsReadable J := by
  have h : ((machine J).after ops (Db.empty Text epoch)).Sound ∧
      recordRules.Paired (((machine J).after ops (Db.empty Text epoch)).ledger J) ∧
      ((machine J).after ops (Db.empty Text epoch)).RequestsReadable J := by
    refine (machine J).after_invariant
      (P := fun db => db.Sound ∧ recordRules.Paired (db.ledger J) ∧ db.RequestsReadable J) ?_ ops
      ⟨.empty epoch, .empty (fun _ => rfl) fun _ => rfl, .empty epoch⟩
    intro β c db h
    have hstep := call_step (J := J) h.1 c
    exact ⟨h.1.step hstep, paired_step hJ h.2.1 hstep, h.2.2.step hJ hstep⟩
  exact ⟨requestsPaired_of_paired h.2.1 h.2.2.unchanged, h.2.2⟩

theorem requestsKept_after (hs : db.Sound) (ops : List StoreOp) :
    RequestsKept (db.read J) (((machine J).after ops db).read J) :=
  (machine J).after_relation (R := fun db db' => RequestsKept (db.read J) (db'.read J))
    (fun _ _ e he _ => ⟨e, he, rfl⟩) RequestsKept.trans
    (fun c _ hs => hs.step (call_step hs c))
    (fun c _ hs => requestsKept_step hJ (call_step hs c)) ops hs

end Lawful

end SqliteStore

/-! ## Both stores -/

/-- In every state that calls reach, in either store: a request is complete exactly when one
response is linked to it, the response is complete and fits the request, every response is that of
one request, and no later call changes or loses a request's payload. -/
theorem requests_and_responses_are_paired {Text : Type} (J : SerdeJson Text) (hJ : J.Lawful)
    (epoch : String) (ops later : List StoreOp) :
    (∀ state state', state = MemoryStore.machine.after ops .default →
      state' = MemoryStore.machine.after (ops ++ later) .default →
        RequestsPaired state.record state.decisions.lookup ∧
        RequestsKept state.record state'.record) ∧
    (∀ db db', db = (SqliteStore.machine J).after ops (SqliteStore.Db.empty Text epoch) →
      db' = (SqliteStore.machine J).after (ops ++ later) (SqliteStore.Db.empty Text epoch) →
        RequestsPaired (db.read J) db.response ∧ db.RequestsReadable J ∧
        RequestsKept (db.read J) (db'.read J)) := by
  constructor
  · rintro state state' rfl rfl
    rw [Machine.after_append]
    exact ⟨MemoryStore.requestsPaired_after ops,
      MemoryStore.requestsKept_after (MemoryStore.State.WellFormed.after ops) later⟩
  · rintro db db' rfl rfl
    rw [Machine.after_append]
    obtain ⟨hpaired, hreadable⟩ := SqliteStore.requestsPaired_after hJ epoch ops
    exact ⟨hpaired, hreadable,
      SqliteStore.requestsKept_after hJ (SqliteStore.Db.Sound.after J epoch ops) later⟩

namespace Sample

def prompt : RecordId := ⟨"prompt", by decide⟩

def choice : RecordId := ⟨"choice", by decide⟩

/-- A permission with one option. -/
def promptDraft : Draft where
  id := prompt
  sessionId := session
  runId := none
  actor := ⟨"actor", (rfl : false = false)⟩
  replyToId := none
  source := none
  payload := .permission "run the tests" [⟨"allow", "Allow", "allow_once"⟩]
  state := .opened

/-- The option is selected. -/
def choiceDraft : Draft where
  id := choice
  sessionId := session
  runId := none
  actor := ⟨"actor", (rfl : false = false)⟩
  replyToId := some prompt
  source := none
  payload := .decision (.selected "allow") .queued
  state := .complete

def promptOps : List StoreOp :=
  [⟨.createSession session⟩, ⟨.insert promptDraft⟩, ⟨.resolve prompt 0 choiceDraft⟩]

end Sample

/-- The answered permission of a session is the request of its decision. -/
theorem answered_prompt_is_paired :
    (MemoryStore.machine.after Sample.promptOps .default).decisions.lookup Sample.prompt =
      some Sample.choice :=
  (((requests_and_responses_are_paired SerdeJson.tree SerdeJson.tree_lawful "epoch"
    Sample.promptOps []).1 _ _ rfl rfl).1.replies Sample.prompt Sample.choice
      ⟨Rules.created Sample.choiceDraft 1, Rules.created Sample.choiceDraft 1⟩ rfl rfl).mp rfl

end AgentBridge
