import AgentBridge.Records.Sqlite.Rows

/-!
# What each mutation of the SQLite store does

A call in a transaction fails and changes nothing, answers a retry and changes nothing, or makes
the writes of its success.  No assumption on the text format is used here: rows may be unreadable.
-/

namespace AgentBridge

open Reasoning

namespace SqliteStore

variable {Text : Type} {J : SerdeJson Text} {db : Db Text}

/-- A transaction that fails leaves the database alone. -/
theorem write_error {α : Type} {action : Db Text → Except StoreError (α × Db Text)} {e : StoreError}
    (h : action db = .error e) : write action db = (.error e, db) := by
  simp [write, h]

theorem write_ok {α : Type} {action : Db Text → Except StoreError (α × Db Text)} {a : α}
    {db' : Db Text} (h : action db = .ok (a, db')) : write action db = (.ok a, db') := by
  simp [write, h]

/-- What is true of every database that calls can reach. -/
structure Db.Sound (db : Db Text) : Prop where
  key : ∀ name row, db.records.lookup name = some row → row.id = name
  revision : ∀ name row, db.records.lookup name = some row →
    0 ≤ row.revision ∧ row.revision ≤ i64Max
  change : ∀ name row, db.records.lookup name = some row →
    ∃ change, db.recordChanges.lookup name = some change ∧ change.session = row.session
  recorded : ∀ name change, db.recordChanges.lookup name = some change →
    (db.records.lookup name).isSome
  position : ∀ name change, db.recordChanges.lookup name = some change →
    0 < change.position ∧ change.position ≤ db.changeClock.position
  distinct : ∀ name name' change change', db.recordChanges.lookup name = some change →
    db.recordChanges.lookup name' = some change' → change.position = change'.position →
      name = name'
  clock : 0 ≤ db.changeClock.position

theorem Db.Sound.empty (epoch : String) : (Db.empty Text epoch).Sound := by
  refine ⟨?_, ?_, ?_, ?_, ?_, ?_, Int.le_refl 0⟩ <;> simp [Db.empty]

/-! ## Creating a record -/

/-- What `prepare` checks, with the next sequence of the draft's session. -/
structure Prepares (J : SerdeJson Text) (db : Db Text) (draft : Draft) (next : Nat) : Prop where
  valid : Rules.validate draft.payload draft.state = .ok ()
  session : db.sessions.lookup draft.sessionId.asStr = some (next : Int)
  bound : (next : Int) ≠ i64Max
  run : ∀ run, draft.runId = some run →
    ∃ spec, readRun J db run = .ok (some spec) ∧ spec.sessionId = draft.sessionId
  reply : ∀ reply, draft.replyToId = some reply → ∃ e, entry J db reply = .ok (some e)

theorem sessionSequence_eq_ok {session : SessionId} {next : Int} :
    sessionSequence db session = .ok next ↔ db.sessions.lookup session.asStr = some next := by
  unfold sessionSequence
  cases db.sessions.lookup session.asStr <;> simp

theorem checkRun_eq_ok {draft : Draft} {u : Unit} :
    checkRun J db draft = .ok u ↔ ∀ run, draft.runId = some run →
      ∃ spec, readRun J db run = .ok (some spec) ∧ spec.sessionId = draft.sessionId := by
  unfold checkRun
  cases draft.runId with
  | none => simp
  | some run =>
    cases hrun : readRun J db run with
    | error e => simp [hrun]
    | ok spec => cases spec <;> simp [hrun]

theorem checkReply_eq_ok {draft : Draft} {u : Unit} :
    checkReply J db draft = .ok u ↔ ∀ reply, draft.replyToId = some reply →
      ∃ e, entry J db reply = .ok (some e) := by
  unfold checkReply
  cases draft.replyToId with
  | none => simp
  | some reply =>
    cases hentry : entry J db reply with
    | error e => simp [hentry]
    | ok e => cases e <;> simp [hentry]

theorem prepare_eq_ok {draft : Draft} {snapshot : Snapshot} :
    prepare J db draft = .ok snapshot ↔
      ∃ next, Prepares J db draft next ∧ snapshot = Rules.created draft next := by
  unfold prepare
  simp only [bind_eq_ok, sessionSequence_eq_ok, ite_error_eq_ok, checkRun_eq_ok, checkReply_eq_ok,
    number_eq_ok, Except.ok.injEq]
  constructor
  · rintro ⟨⟨⟩, hvalid, sequence, hsession, hbound, ⟨⟩, hrun, ⟨⟩, hreply, next, rfl, rfl⟩
    exact ⟨next, ⟨hvalid, hsession, hbound, hrun, hreply⟩, rfl⟩
  · rintro ⟨next, h, rfl⟩
    exact ⟨(), h.valid, next, h.session, h.bound, (), h.run, (), h.reply, next, rfl, rfl⟩

/-- What `insert` checks before it creates a record, and what the statements check. -/
structure Inserts (J : SerdeJson Text) (db : Db Text) (draft : Draft) (next : Nat) : Prop where
  notResponse : draft.payload.isResponse = false
  requestOpen : draft.payload.isRequest = true → draft.state = .opened
  prepares : Prepares J db draft next
  inserts : db.InsertsRecord (newRow J (Rules.created draft next))
  bound : (next : Int) < i64Max

/-- A repeated draft. -/
structure Repeats (J : SerdeJson Text) (db : Db Text) (draft : Draft) (id : RecordId) (e : Entry) :
    Prop where
  found : entry J db id = .ok (some e)
  same : Rules.draftOf e.initial = draft

theorem insertRow_created {draft : Draft} {next : Nat} {db' : Db Text}
    (hp : Prepares J db draft next) :
    insertRow J db (Rules.created draft next) = .ok db' ↔
      (next : Int) < i64Max ∧ db.InsertsRecord (newRow J (Rules.created draft next)) ∧
        db' = afterInsert J db (Rules.created draft next) next := by
  rw [insertRow_eq_ok]
  constructor
  · rintro ⟨n, hn, hlt, hins, rfl⟩
    have hnext : db.sessions.lookup (Rules.created draft next).record.sessionId.asStr =
        some (next : Int) := hp.session
    obtain rfl : n = next := by simpa [hnext] using hn.symm
    exact ⟨hlt, hins, rfl⟩
  · rintro ⟨hlt, hins, rfl⟩
    exact ⟨next, hp.session, hlt, hins, rfl⟩

theorem insert_cases (J : SerdeJson Text) (draft : Draft) (db : Db Text) :
    (∃ e, write (insert J draft) db = (.error e, db)) ∨
      (∃ e, draft.payload.isResponse = false ∧ Repeats J db draft draft.id e ∧
        write (insert J draft) db = (.ok e.current, db)) ∨
      ∃ next, Inserts J db draft next ∧ write (insert J draft) db =
        (.ok (Rules.created draft next), afterInsert J db (Rules.created draft next) next) := by
  cases hresult : insert J draft db with
  | error e => exact .inl ⟨e, write_error hresult⟩
  | ok r =>
  right
  unfold insert at hresult
  obtain ⟨hresp, hresult⟩ := ite_error_eq_ok.mp hresult
  have hresp : draft.payload.isResponse = false := by simpa using hresp
  obtain ⟨found, hfound, hresult⟩ := bind_eq_ok.mp hresult
  cases found with
  | some e =>
    left
    simp only at hresult
    split at hresult
    · next hsame =>
      cases hresult
      have hinsert : insert J draft db = .ok (e.current, db) := by
        simp [insert, hresp, hfound, hsame]
      exact ⟨e, hresp, ⟨hfound, Rules.sameDraft_iff.mp hsame⟩, write_ok hinsert⟩
    · cases hresult
  | none =>
    right
    simp only [ite_error_eq_ok, bind_eq_ok] at hresult
    obtain ⟨hreq, snapshot, hprep, inserted, hrow, hr⟩ := hresult
    obtain ⟨next, hp, rfl⟩ := prepare_eq_ok.mp hprep
    obtain ⟨hlt, hins, rfl⟩ := (insertRow_created hp).mp hrow
    cases hr
    have hopen : draft.payload.isRequest = true → draft.state = .opened := by
      intro hr
      by_contra hne
      exact hreq ⟨hr, hne⟩
    have hinsert : insert J draft db = .ok (Rules.created draft next,
        afterInsert J db (Rules.created draft next) next) := by
      simp [insert, hresp, hfound, hreq, hprep, hrow]
    exact ⟨next, ⟨hresp, hopen, hp, hins, hlt⟩, write_ok hinsert⟩

/-! ## Updating a record -/

/-- What an update of a record found. -/
structure Updates (J : SerdeJson Text) (db : Db Text) (id : RecordId) (e : Entry)
    (row : RowData Text) (change : RecordChange) : Prop where
  found : db.records.lookup id.asStr = some row
  decodes : DecodesTo J row e
  named : e.current.record.id = id
  bound : (e.current.revision : Int) < i64Max
  change : db.recordChanges.lookup id.asStr = some change
  position : db.changeClock.position < i64Max

/-- The database after a record's next version is written. -/
def afterUpdate (J : SerdeJson Text) (db : Db Text) (row : RowData Text) (change : RecordChange)
    (old new : Snapshot) : Db Text :=
  db.withUpdate old.record.id.asStr (nextRow J row old new) change (updateDocs old new)

namespace Db.Sound

theorem freshPosition (hs : db.Sound) : db.FreshPosition := by
  intro name change hchange heq
  have := (hs.position name change hchange).2
  omega

/-- An entry read names its key, and its revision fits. -/
theorem entry_row (hs : db.Sound) {record : RecordId} {e : Entry}
    (hentry : entry J db record = .ok (some e)) :
    ∃ row, db.records.lookup record.asStr = some row ∧ DecodesTo J row e ∧
      e.current.record.id = record ∧ (e.current.revision : Int) ≤ i64Max := by
  obtain ⟨row, hrow, hdecodes⟩ := entry_eq_some.mp hentry
  have hkey : row.id = record.asStr := hs.key _ _ hrow
  rw [hdecodes.id] at hkey
  have hrev := (hs.revision _ _ hrow).2
  rw [hdecodes.revision] at hrev
  exact ⟨row, hrow, hdecodes, Identifier.asStr_inj.mp hkey, hrev⟩

theorem updateRow_advance (hs : db.Sound) {record : RecordId} {e : Entry} {payload : Payload}
    {next : RecordState} {db' : Db Text} (hentry : entry J db record = .ok (some e)) :
    updateRow J db e.current (Rules.advance e.current payload next) = .ok db' ↔
      ∃ row change, Updates J db record e row change ∧
        db' = afterUpdate J db row change e.current (Rules.advance e.current payload next) := by
  obtain ⟨row, hrow, hdecodes, hid, hle⟩ := hs.entry_row hentry
  have hbound : e.current.revision < 2 ^ 63 := by
    unfold i64Max at hle
    omega
  obtain ⟨change, hchange, -⟩ := hs.change _ _ hrow
  have hsome : ∀ row, db.records.lookup e.current.record.id.asStr = some row →
      (db.recordChanges.lookup e.current.record.id.asStr).isSome := by
    intro _ _
    rw [hid, hchange]
    rfl
  rw [updateRow_eq_ok rfl hbound hsome]
  constructor
  · rintro ⟨hmax, row', change', h, rfl⟩
    have hrow' := h.found
    rw [hid, hrow, Option.some.injEq] at hrow'
    subst hrow'
    have hchange' := h.change
    rw [hid] at hchange'
    have hlt : (e.current.revision : Int) < i64Max := by
      have hmax' : ((e.current.revision + 1 : Nat) : Int) ≤ i64Max := hmax
      omega
    exact ⟨row, change', ⟨hrow, hdecodes, hid, hlt, hchange', h.position⟩, rfl⟩
  · rintro ⟨row', change', h, rfl⟩
    have hrow' := h.found
    rw [hrow, Option.some.injEq] at hrow'
    subst hrow'
    have hmax : ((e.current.revision + 1 : Nat) : Int) ≤ i64Max := by
      have := h.bound
      omega
    refine ⟨hmax, row, change', ⟨?_, hdecodes.revision, stateName_mem _, ?_, h.position, ?_,
      hs.freshPosition⟩, rfl⟩
    · rw [hid]
      exact hrow
    · exact Int.natCast_nonneg _
    · rw [hid]
      exact h.change

end Db.Sound

theorem checkpoint_cases (hs : db.Sound) (record : RecordId) (r : Nat) (payload : Payload)
    (next : RecordState) :
    (∃ e, write (checkpoint J record r payload next) db = (.error e, db)) ∨
      (∃ e, entry J db record = .ok (some e) ∧ Rules.Retries e.current r payload next ∧
        write (checkpoint J record r payload next) db = (.ok e.current, db)) ∨
      ∃ e row change, Updates J db record e row change ∧ Rules.Advances e.current r payload next ∧
        write (checkpoint J record r payload next) db =
          (.ok (Rules.advance e.current payload next),
            afterUpdate J db row change e.current (Rules.advance e.current payload next)) := by
  cases hresult : checkpoint J record r payload next db with
  | error e => exact .inl ⟨e, write_error hresult⟩
  | ok result =>
  right
  have hresult' := hresult
  unfold checkpoint at hresult'
  obtain ⟨found, hfound, hresult'⟩ := bind_eq_ok.mp hresult'
  cases found with
  | none => cases hresult'
  | some e =>
  simp only [bind_eq_ok, Except.ok.injEq] at hresult'
  obtain ⟨new, hrule, db', hrow, rfl⟩ := hresult'
  rcases Rules.checkpoint_cases hrule with ⟨hretry, rfl⟩ | ⟨hadv, rfl⟩
  · left
    have hsame : db = db' := by simpa [updateRow] using hrow
    rw [← hsame] at hresult
    exact ⟨e, hfound, hretry, write_ok hresult⟩
  · right
    obtain ⟨row, change, hupdates, rfl⟩ := (hs.updateRow_advance hfound).mp hrow
    exact ⟨e, row, change, hupdates, hadv, write_ok hresult⟩

/-! ## Answering a request -/

/-- What `resolve` checks before it answers a request, and what its statements check. -/
structure Answers (J : SerdeJson Text) (db : Db Text) (request : RecordId) (r : Nat)
    (decision : Draft) (e : Entry) (row : RowData Text) (change : RecordChange) (next : Nat) :
    Prop where
  unresolved : db.decisions.lookup request.asStr = none
  fresh : db.records.lookup decision.id.asStr = none
  updates : Updates J db request e row change
  resolves : Rules.Resolves e.current r decision
  prepares : Prepares J db decision next
  bound : (next : Int) < i64Max
  inserts : (afterUpdate J db row change e.current
    (Rules.advance e.current e.current.record.payload .complete)).InsertsRecord
      (newRow J (Rules.created decision next))

/-- The database after `resolve` answers a request. -/
def afterResolve (J : SerdeJson Text) (db : Db Text) (e : Entry) (row : RowData Text)
    (change : RecordChange) (request : RecordId) (decision : Draft) (next : Nat) : Db Text :=
  { afterInsert J
      (afterUpdate J db row change e.current
        (Rules.advance e.current e.current.record.payload .complete))
      (Rules.created decision next) next with
    decisions := db.decisions.insert request.asStr decision.id.asStr }

theorem insertDecision_eq_ok {db' : Db Text} {request response : String}
    (h : db.insertDecision request response = .ok db') :
    db' = { db with decisions := db.decisions.insert request response } := by
  unfold Db.insertDecision at h
  simp only [ite_error_eq_ok, Except.ok.injEq] at h
  exact h.2.2.2.symm

theorem resolve_cases (hs : db.Sound) (request : RecordId) (r : Nat) (decision : Draft) :
    (∃ e, write (resolve J request r decision) db = (.error e, db)) ∨
      (∃ (response : RecordId) (e : Entry), db.decisions.lookup request.asStr = some response.asStr ∧
        Repeats J db decision response e ∧
        write (resolve J request r decision) db = (.ok e.current, db)) ∨
      ∃ e row change next, Answers J db request r decision e row change next ∧
        write (resolve J request r decision) db =
          (.ok (Rules.created decision next),
            afterResolve J db e row change request decision next) := by
  cases hresult : resolve J request r decision db with
  | error e => exact .inl ⟨e, write_error hresult⟩
  | ok result =>
  right
  have hresult' := hresult
  unfold resolve at hresult'
  cases hdecision : db.decisions.lookup request.asStr with
  | some text =>
    left
    simp only [hdecision, bind_eq_ok] at hresult'
    obtain ⟨response, hresponse, found, hfound, hresult'⟩ := hresult'
    rw [id_eq_ok] at hresponse
    cases found with
    | none => cases hresult'
    | some e =>
    simp only at hresult'
    split at hresult'
    · next hsame =>
      cases hresult'
      exact ⟨response, e, by rw [hresponse], ⟨hfound, Rules.sameDraft_iff.mp hsame⟩,
        write_ok hresult⟩
    · cases hresult'
  | none =>
  right
  simp only [hdecision, bind_eq_ok] at hresult'
  obtain ⟨existing, hexisting, hresult'⟩ := hresult'
  cases existing with
  | some e => cases hresult'
  | none =>
  obtain ⟨found, hfound, hresult'⟩ := bind_eq_ok.mp hresult'
  cases found with
  | none => cases hresult'
  | some e =>
  simp only [bind_eq_ok, Except.ok.injEq] at hresult'
  obtain ⟨resolved, hrule, snapshot, hprep, db₁, hupdate, db₂, hinsert, db₃, hdecide, rfl⟩ := hresult'
  obtain ⟨hresolves, rfl⟩ := Rules.resolveRequest_eq_ok.mp hrule
  obtain ⟨next, hp, rfl⟩ := prepare_eq_ok.mp hprep
  obtain ⟨row, change, hupdates, rfl⟩ := (hs.updateRow_advance hfound).mp hupdate
  obtain ⟨n, hn, hlt, hins, rfl⟩ := insertRow_eq_ok.mp hinsert
  have hsession : db.sessions.lookup decision.sessionId.asStr = some n := hn
  obtain rfl : n = next := by simpa [hp.session] using hsession.symm
  have hdb₃ := insertDecision_eq_ok hdecide
  have hafter : db₃ = afterResolve J db e row change request decision next := hdb₃
  rw [hafter] at hresult
  exact ⟨e, row, change, next, ⟨hdecision, entry_eq_none.mp hexisting, hupdates, hresolves, hp, hlt,
    hins⟩, write_ok hresult⟩

/-! ## Registering a run -/

/-- The row of a registered run. -/
def newRun (J : SerdeJson Text) (spec : RunSpec) : RunRow Text where
  session := spec.sessionId.asStr
  slot := spec.slotId.asStr
  context := Codec.documentText J spec.context
  config := some (Codec.documentText J spec.config)
  continuation := spec.continuation.map (·.asStr)

/-- The database after `register_run`. -/
def afterRegister (J : SerdeJson Text) (db : Db Text) (spec : RunSpec) : Db Text :=
  { db with
    runs := db.runs.insert spec.id.asStr (newRun J spec)
    written := [.context spec.context, .config spec.config] ++ db.written }

theorem checkContextRecords_eq_ok {ids : List RecordId} {u : Unit} :
    checkContextRecords J db ids = .ok u ↔
      ∀ record ∈ ids, ∃ e, entry J db record = .ok (some e) ∧ e.current.state.isFinal = true := by
  induction ids with
  | nil => simp [checkContextRecords]
  | cons record ids ih =>
    simp only [checkContextRecords, List.mem_cons, forall_eq_or_imp]
    cases hentry : entry J db record with
    | error e => simp
    | ok found =>
      cases found with
      | none => simp
      | some e =>
        by_cases hfinal : e.current.state.isFinal = true
        · simp [hfinal, ih]
        · simp [hfinal]

theorem registerRun_cases (J : SerdeJson Text) (spec : RunSpec) (db : Db Text) :
    (∃ e, write (registerRun J spec) db = (.error e, db)) ∨
      (readRun J db spec.id = .ok (some spec) ∧
        write (registerRun J spec) db = (.ok false, db)) ∨
      (db.runs.lookup spec.id.asStr = none ∧
        (db.sessions.lookup spec.sessionId.asStr).isSome ∧
        checkContinuation J db spec = .ok () ∧
        (∀ record ∈ spec.context.records,
          ∃ e, entry J db record = .ok (some e) ∧ e.current.state.isFinal = true) ∧
        write (registerRun J spec) db = (.ok true, afterRegister J db spec)) := by
  cases hresult : registerRun J spec db with
  | error e => exact .inl ⟨e, write_error hresult⟩
  | ok result =>
  right
  have hresult' := hresult
  unfold registerRun at hresult'
  obtain ⟨found, hfound, hresult'⟩ := bind_eq_ok.mp hresult'
  cases found with
  | some existing =>
    left
    simp only at hresult'
    split at hresult'
    · next hsame =>
      cases hresult'
      rw [hsame] at hfound
      exact ⟨hfound, write_ok hresult⟩
    · cases hresult'
  | none =>
    right
    simp only [bind_eq_ok, sessionSequence_eq_ok, Except.ok.injEq] at hresult'
    obtain ⟨next, hsession, ⟨⟩, hcontinuation, ⟨⟩, hcontext, context, hencode, config, hencode',
      inserted, hinsert, rfl⟩ := hresult'
    have hcontext' : context = Codec.documentText J spec.context := by
      simpa [Codec.encode] using hencode.symm
    have hconfig' : config = Codec.documentText J spec.config := by
      simpa [Codec.encode] using hencode'.symm
    subst hcontext' hconfig'
    unfold Db.insertRun at hinsert
    simp only [ite_error_eq_ok, Except.ok.injEq] at hinsert
    obtain ⟨hfresh, -, rfl⟩ := hinsert
    have hnone : db.runs.lookup spec.id.asStr = none := by simpa using hfresh
    exact ⟨hnone, by rw [hsession]; rfl, hcontinuation, checkContextRecords_eq_ok.mp hcontext,
      write_ok hresult⟩

/-! ## The calls that leave the records alone -/

/-- The same records, responses and changes. -/
structure Db.SameRecords (db db' : Db Text) : Prop where
  records : db'.records = db.records
  decisions : db'.decisions = db.decisions
  clock : db'.changeClock = db.changeClock
  changes : db'.recordChanges = db.recordChanges

/-- The same runs too. -/
structure Db.Quiet (db db' : Db Text) : Prop extends Db.SameRecords db db' where
  runs : db'.runs = db.runs

theorem Db.Quiet.refl (db : Db Text) : db.Quiet db := ⟨⟨rfl, rfl, rfl, rfl⟩, rfl⟩

theorem Db.Quiet.trans {a b c : Db Text} (h : a.Quiet b) (h' : b.Quiet c) : a.Quiet c :=
  ⟨⟨h'.records.trans h.records, h'.decisions.trans h.decisions, h'.clock.trans h.clock,
    h'.changes.trans h.changes⟩, h'.runs.trans h.runs⟩

theorem afterRegister_sameRecords (spec : RunSpec) : db.SameRecords (afterRegister J db spec) :=
  ⟨rfl, rfl, rfl, rfl⟩

/-- The same sessions too, with their next sequences. -/
structure Db.Still (db db' : Db Text) : Prop extends Db.Quiet db db' where
  sessions : db'.sessions = db.sessions

theorem Db.Still.refl (db : Db Text) : db.Still db := ⟨.refl db, rfl⟩

theorem Db.Still.trans {a b c : Db Text} (h : a.Still b) (h' : b.Still c) : a.Still c :=
  ⟨h.toQuiet.trans h'.toQuiet, h'.sessions.trans h.sessions⟩

theorem write_still {α : Type} {action : Db Text → Except StoreError (α × Db Text)}
    (h : ∀ a db', action db = .ok (a, db') → db.Still db') : db.Still (write action db).2 := by
  cases haction : action db with
  | error e =>
    rw [write_error haction]
    exact .refl db
  | ok r =>
    rw [write_ok haction]
    exact h r.1 r.2 haction

theorem insertContinuation_still {db' : Db Text} {id : String} {row : ContinuationRow Text}
    {docs : List Document} (h : db.insertContinuation id row docs = .ok db') : db.Still db' := by
  unfold Db.insertContinuation at h
  simp only [ite_error_eq_ok, Except.ok.injEq] at h
  obtain ⟨-, -, -, -, rfl⟩ := h
  exact ⟨⟨⟨rfl, rfl, rfl, rfl⟩, rfl⟩, rfl⟩

theorem insertRelation_still {db' : Db Text} {child : String} {row : RelationRow Text}
    {docs : List Document} (h : db.insertRelation child row docs = .ok db') : db.Still db' := by
  unfold Db.insertRelation at h
  simp only [ite_error_eq_ok, Except.ok.injEq] at h
  obtain ⟨-, -, -, rfl⟩ := h
  exact ⟨⟨⟨rfl, rfl, rfl, rfl⟩, rfl⟩, rfl⟩

theorem updateContinuation_still (id : String)
    (set : ContinuationRow Text → ContinuationRow Text) :
    db.Still (db.updateContinuation id set) := by
  unfold Db.updateContinuation
  split <;> exact ⟨⟨⟨rfl, rfl, rfl, rfl⟩, rfl⟩, rfl⟩

/-- The calls that write continuations or relations, and those that only read. -/
theorem call_still {β : Type} (c : StoreCall β) (h : writesHistory c = false)
    (hsession : createsSession c = false) : db.Still (call J c db).2 := by
  cases c with
  | registerRun spec => cases h
  | insert draft => cases h
  | checkpoint id r payload next => cases h
  | resolve request r decision => cases h
  | createSession id => cases hsession
  | saveContinuation value =>
    apply write_still
    intro a db' haction
    unfold saveContinuation at haction
    simp only [bind_eq_ok] at haction
    obtain ⟨_, -, _, -, found, -, haction⟩ := haction
    cases found with
    | some existing =>
      simp only at haction
      split at haction <;> cases haction
      exact .refl db
    | none =>
      simp only [bind_eq_ok, Except.ok.injEq, Prod.mk.injEq] at haction
      obtain ⟨previous, -, _, -, _, -, inserted, hinsert, -, rfl⟩ := haction
      refine Db.Still.trans ?_ (insertContinuation_still hinsert)
      cases previous with
      | none => exact .refl db
      | some previous => exact updateContinuation_still _ _
  | claimContinuation id =>
    apply write_still
    intro a db' haction
    unfold claimContinuation at haction
    obtain ⟨found, -, haction⟩ := bind_eq_ok.mp haction
    cases found with
    | none => cases haction
    | some record =>
      simp only at haction
      split at haction <;> cases haction
      exact updateContinuation_still _ _
  | linkExecution relation =>
    apply write_still
    intro a db' haction
    unfold linkExecution at haction
    obtain ⟨found, -, haction⟩ := bind_eq_ok.mp haction
    cases found with
    | some existing =>
      simp only at haction
      split at haction <;> cases haction
      exact .refl db
    | none =>
    obtain ⟨parent, -, haction⟩ := bind_eq_ok.mp haction
    cases parent with
    | none => cases haction
    | some parent =>
    obtain ⟨child, -, haction⟩ := bind_eq_ok.mp haction
    cases child with
    | none => cases haction
    | some child =>
      simp only [bind_eq_ok, ite_error_eq_ok, Except.ok.injEq, Prod.mk.injEq] at haction
      obtain ⟨_, -, _, -, -, _, -, _, -, _, -, _, -, inserted, hinsert, -, rfl⟩ := haction
      exact insertRelation_still hinsert
  | get id => exact .refl db
  | getRun id => exact .refl db
  | list session after limit => exact .refl db
  | getContinuation id => exact .refl db
  | executionParent child => exact .refl db
  | executionChildren parent => exact .refl db

theorem call_quiet {β : Type} (c : StoreCall β) (h : writesHistory c = false) :
    db.Quiet (call J c db).2 := by
  cases hsession : createsSession c with
  | false => exact (call_still c h hsession).toQuiet
  | true =>
    cases c with
    | createSession id =>
      show db.Quiet (db.insertSession id.asStr)
      unfold Db.insertSession
      split <;> exact ⟨⟨rfl, rfl, rfl, rfl⟩, rfl⟩
    | _ => cases hsession

/-! ## What a call can do to the records and the runs -/

inductive Db.HistoryStep (J : SerdeJson Text) (db : Db Text) : Db Text → Prop where
  | same {db' : Db Text} (h : db.Quiet db') : HistoryStep J db db'
  | register {spec : RunSpec} (hfresh : db.runs.lookup spec.id.asStr = none)
      (hcontext : ∀ record ∈ spec.context.records,
        ∃ e, entry J db record = .ok (some e) ∧ e.current.state.isFinal = true) :
      HistoryStep J db (afterRegister J db spec)
  | insert {draft : Draft} {next : Nat} (h : Inserts J db draft next) :
      HistoryStep J db (afterInsert J db (Rules.created draft next) next)
  | advance {record : RecordId} {e : Entry} {row : RowData Text} {change : RecordChange} {r : Nat}
      {payload : Payload} {next : RecordState} (h : Updates J db record e row change)
      (hadv : Rules.Advances e.current r payload next) :
      HistoryStep J db
        (afterUpdate J db row change e.current (Rules.advance e.current payload next))
  | answer {request : RecordId} {r : Nat} {decision : Draft} {e : Entry} {row : RowData Text}
      {change : RecordChange} {next : Nat}
      (h : Answers J db request r decision e row change next) :
      HistoryStep J db (afterResolve J db e row change request decision next)

theorem call_step (hs : db.Sound) {β : Type} (c : StoreCall β) :
    db.HistoryStep J (call J c db).2 := by
  have hrefl : db.HistoryStep J db := .same (.refl db)
  cases hc : writesHistory c with
  | false => exact .same (call_quiet c hc)
  | true =>
    cases c with
    | registerRun spec =>
      show db.HistoryStep J (write (registerRun J spec) db).2
      rcases registerRun_cases J spec db with ⟨e, he⟩ | ⟨-, he⟩ | ⟨hfresh, -, -, hcontext, he⟩
      · rw [he]
        exact hrefl
      · rw [he]
        exact hrefl
      · rw [he]
        exact .register hfresh hcontext
    | insert draft =>
      show db.HistoryStep J (write (SqliteStore.insert J draft) db).2
      rcases insert_cases J draft db with ⟨e, he⟩ | ⟨e, -, -, he⟩ | ⟨next, h, he⟩
      · rw [he]
        exact hrefl
      · rw [he]
        exact hrefl
      · rw [he]
        exact .insert h
    | checkpoint record r payload next =>
      show db.HistoryStep J (write (checkpoint J record r payload next) db).2
      rcases checkpoint_cases hs record r payload next with
        ⟨e, he⟩ | ⟨e, -, -, he⟩ | ⟨e, row, change, h, hadv, he⟩
      · rw [he]
        exact hrefl
      · rw [he]
        exact hrefl
      · rw [he]
        exact .advance h hadv
    | resolve request r decision =>
      show db.HistoryStep J (write (resolve J request r decision) db).2
      rcases resolve_cases hs request r decision with
        ⟨e, he⟩ | ⟨response, e, -, -, he⟩ | ⟨e, row, change, next, h, he⟩
      · rw [he]
        exact hrefl
      · rw [he]
        exact hrefl
      · rw [he]
        exact .answer h
    | _ => cases hc

end SqliteStore

end AgentBridge
