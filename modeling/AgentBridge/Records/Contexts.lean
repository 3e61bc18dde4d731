import AgentBridge.Records.Authority
import AgentBridge.Records.History

/-!
# Contexts of registered runs

Registration looks at the state of the records that a run selects, and not at their session.  A run
that selects records of its own session only keeps them there.
-/

namespace AgentBridge

open Reasoning

/-- A registered run selects records of its own session only, as far as the store has them. -/
def SelectsOwnSession (session : RecordId → Option SessionId) {β : Type} : StoreCall β → Prop
  | .registerRun spec => ∀ id ∈ spec.context.records, ∀ s, session id = some s → s = spec.sessionId
  | _ => True

/-! ## The in-memory store -/

namespace MemoryStore

def State.sessionOf (state : State) (id : RecordId) : Option SessionId :=
  (state.record id).map (·.current.record.sessionId)

/-- The records that a run has selected belong to its session. -/
def State.ContextsInSession (state : State) : Prop :=
  ∀ run spec, state.runs.lookup run = some spec → ∀ id ∈ spec.context.records,
    state.sessionOf id = some spec.sessionId

theorem State.HistoryStep.sessionOf {state state' : State} (h : state.HistoryStep state')
    {id : RecordId} {session : SessionId} (hsession : state.sessionOf id = some session) :
    state'.sessionOf id = some session := by
  obtain ⟨e, he, rfl⟩ := Option.map_eq_some_iff.mp hsession
  obtain ⟨e', he', hevolves⟩ := h.evolves id e he
  have hsame := congrArg EntryIdentity.sessionId hevolves.identity
  exact Option.map_eq_some_iff.mpr ⟨e', he', hsame⟩

theorem State.ContextsInSession.exec {state : State} (hin : state.ContextsInSession)
    (hwf : state.WellFormed) {β : Type} (c : StoreCall β)
    (hc : SelectsOwnSession state.sessionOf c) : (exec c state).2.ContextsInSession := by
  have hstep := exec_step hwf c
  have hold : ∀ run spec, state.runs.lookup run = some spec → ∀ id ∈ spec.context.records,
      (MemoryStore.exec c state).2.sessionOf id = some spec.sessionId := fun run spec hspec id hid =>
    hstep.sessionOf (hin run spec hspec id hid)
  intro run spec hspec
  cases hw : writesRuns c with
  | false =>
    rw [exec_runs hwf hw] at hspec
    exact hold run spec hspec
  | true =>
    cases c with
    | registerRun new =>
      have hnext : (registerRun new state).2.runs.lookup run = some spec := hspec
      rcases registerRun_cases new state with ⟨e, he⟩ | ⟨-, he⟩ | ⟨-, -, -, hcontext, he⟩
      · rw [he] at hnext
        exact hold run spec hnext
      · rw [he] at hnext
        exact hold run spec hnext
      · rw [he] at hnext
        have hspec' := (HashMap.lookup_insert_eq _ _ _ _).symm.trans hnext
        split at hspec'
        · obtain rfl := Option.some.inj hspec'
          intro id hid
          obtain ⟨e, hentry, -⟩ := checkContextRecords_eq_ok.mp hcontext id hid
          have hsession : state.sessionOf id = some e.current.record.sessionId :=
            Option.map_eq_some_iff.mpr ⟨e, hentry, rfl⟩
          rw [hc id hid _ hsession] at hsession
          exact hstep.sessionOf hsession
        · exact hold run spec hspec'
    | _ => cases hw

theorem contextsInSession_after {ops : List StoreOp}
    (hops : machine.Each (fun c state => SelectsOwnSession state.sessionOf c) ops State.default) :
    (machine.after ops State.default).ContextsInSession := by
  have h : (machine.after ops State.default).WellFormed ∧
      (machine.after ops State.default).ContextsInSession := by
    refine hops.invariant (P := fun state => state.WellFormed ∧ state.ContextsInSession) ?_
      ⟨State.WellFormed.default, fun _ _ h => by simp [State.default] at h⟩
    intro β c state h hc
    exact ⟨h.1.exec c, h.2.exec h.1 c hc⟩
  exact h.2

end MemoryStore

/-! ## The SQLite store -/

namespace SqliteStore

variable {Text : Type} {J : SerdeJson Text} {db : Db Text}

def sessionOf (J : SerdeJson Text) (db : Db Text) (id : RecordId) : Option SessionId :=
  match entry J db id with
  | .ok (some e) => some e.current.record.sessionId
  | _ => none

theorem sessionOf_eq_some {id : RecordId} {session : SessionId} :
    sessionOf J db id = some session ↔
      ∃ e, entry J db id = .ok (some e) ∧ e.current.record.sessionId = session := by
  unfold sessionOf
  split
  · next e he => simp [he]
  · next hnone =>
    simp only [reduceCtorEq, false_iff, not_exists, not_and]
    intro e he
    exact absurd he (hnone e)

/-- The final records that a stored run has selected belong to its session. -/
def Db.ContextsInSession (J : SerdeJson Text) (db : Db Text) : Prop :=
  ∀ name row, db.runs.lookup name = some row → ∃ context : ContextManifest,
    row.context = Codec.documentText J context ∧ ∀ record ∈ context.records,
      ∃ e, entry J db record = .ok (some e) ∧ e.current.state.isFinal = true ∧
        e.current.record.sessionId.asStr = row.session

theorem Db.ContextsInSession.call (hin : db.ContextsInSession J) (hs : db.Sound) {β : Type}
    (c : StoreCall β) (hc : SelectsOwnSession (sessionOf J db) c) :
    (call J c db).2.ContextsInSession J := by
  have hstep := call_step (J := J) hs c
  have hkeep : ∀ record e, entry J db record = .ok (some e) → e.current.state.isFinal = true →
      entry J (SqliteStore.call J c db).2 record = .ok (some e) := fun _ _ he hf =>
    entry_frozen hstep.evolves he hf
  have hold : ∀ name row, db.runs.lookup name = some row → ∃ context : ContextManifest,
      row.context = Codec.documentText J context ∧ ∀ record ∈ context.records,
        ∃ e, entry J (SqliteStore.call J c db).2 record = .ok (some e) ∧
          e.current.state.isFinal = true ∧ e.current.record.sessionId.asStr = row.session := by
    intro name row hrow
    obtain ⟨context, htext, hrecords⟩ := hin name row hrow
    refine ⟨context, htext, fun record hrecord => ?_⟩
    obtain ⟨e, he, hf, hsession⟩ := hrecords record hrecord
    exact ⟨e, hkeep record e he hf, hf, hsession⟩
  intro name row hrow
  cases hw : writesRuns c with
  | false =>
    rw [call_runs hs hw] at hrow
    exact hold name row hrow
  | true =>
    cases c with
    | registerRun new =>
      have hnext : (write (registerRun J new) db).2.runs.lookup name = some row := hrow
      rcases registerRun_cases J new db with ⟨e, he⟩ | ⟨-, he⟩ | ⟨-, -, -, hcontext, he⟩
      · rw [he] at hnext
        exact hold name row hnext
      · rw [he] at hnext
        exact hold name row hnext
      · rw [he] at hnext
        have hrow' := (HashMap.lookup_insert_eq _ _ _ _).symm.trans hnext
        split at hrow'
        · obtain rfl := Option.some.inj hrow'
          refine ⟨new.context, rfl, fun record hrecord => ?_⟩
          obtain ⟨e, hentry, hf⟩ := hcontext record hrecord
          have hsession := hc record hrecord _ (sessionOf_eq_some.mpr ⟨e, hentry, rfl⟩)
          exact ⟨e, hkeep record e hentry hf, hf, congrArg (·.asStr) hsession⟩
        · exact hold name row hrow'
    | _ => cases hw

theorem contextsInSession_after {epoch : String} {ops : List StoreOp}
    (hops : (machine J).Each (fun c db => SelectsOwnSession (sessionOf J db) c) ops
      (Db.empty Text epoch)) :
    ((machine J).after ops (Db.empty Text epoch)).ContextsInSession J := by
  have h : ((machine J).after ops (Db.empty Text epoch)).Sound ∧
      ((machine J).after ops (Db.empty Text epoch)).ContextsInSession J := by
    refine hops.invariant (P := fun db => db.Sound ∧ db.ContextsInSession J) ?_
      ⟨.empty epoch, fun _ _ h => by simp [Db.empty] at h⟩
    intro β c db h hc
    exact ⟨h.1.step (call_step h.1 c), h.2.call h.1 c hc⟩
  exact h.2

/-- The records that a run read from a database has selected belong to its session. -/
theorem Db.ContextsInSession.selected (hin : db.ContextsInSession J) (hJ : J.Lawful) {run : RunId}
    {spec : RunSpec} (h : readRun J db run = .ok (some spec)) :
    ∀ record ∈ spec.context.records, sessionOf J db record = some spec.sessionId := by
  obtain ⟨row, hrow, hdecode⟩ := readRun_eq_some h
  obtain ⟨context, htext, hrecords⟩ := hin _ row hrow
  have hcontext := context_of_decode hdecode
  have hread : Codec.decode J (Codec.documentText J context) = .ok context :=
    Codec.readsBack_contextManifest hJ context
  rw [htext, hread, Except.ok.injEq] at hcontext
  have hsession : row.session = spec.sessionId.asStr := by
    unfold RunRow.decode at hdecode
    simp only [bind_eq_ok, Except.ok.injEq] at hdecode
    obtain ⟨session, hsession, _, -, _, -, _, -, _, -, rfl⟩ := hdecode
    exact id_eq_ok.mp hsession
  rw [← hcontext]
  intro record hrecord
  obtain ⟨e, he, -, hin⟩ := hrecords record hrecord
  refine sessionOf_eq_some.mpr ⟨e, he, ?_⟩
  rw [hsession] at hin
  exact Identifier.asStr_inj.mp hin

end SqliteStore

/-! ## Both stores -/

/-- In both stores, for every run of calls whose registrations select records of their own session:
what a registered run has selected belongs to its session. -/
theorem contexts_stay_in_session {Text : Type} (J : SerdeJson Text) (hJ : J.Lawful) (epoch : String)
    (ops : List StoreOp) :
    (MemoryStore.machine.Each (fun c state => SelectsOwnSession state.sessionOf c) ops .default →
      ∀ run spec, (MemoryStore.machine.after ops .default).runs.lookup run = some spec →
        ∀ id ∈ spec.context.records,
          (MemoryStore.machine.after ops .default).sessionOf id = some spec.sessionId) ∧
    ((SqliteStore.machine J).Each (fun c db => SelectsOwnSession (SqliteStore.sessionOf J db) c) ops
        (SqliteStore.Db.empty Text epoch) →
      ∀ run spec, SqliteStore.readRun J
          ((SqliteStore.machine J).after ops (SqliteStore.Db.empty Text epoch)) run =
            .ok (some spec) → ∀ id ∈ spec.context.records,
          SqliteStore.sessionOf J
            ((SqliteStore.machine J).after ops (SqliteStore.Db.empty Text epoch)) id =
              some spec.sessionId) := by
  constructor
  · exact MemoryStore.contextsInSession_after
  · intro hops run spec hspec
    exact (SqliteStore.contextsInSession_after hops).selected hJ hspec

namespace Sample

def otherSession : SessionId := ⟨"other session", by decide⟩

def reader (session : SessionId) : RunSpec where
  id := ⟨"run", by decide⟩
  sessionId := session
  slotId := ⟨"slot", (rfl : false = false)⟩
  context := ⟨[note], [], []⟩
  config := .default
  continuation := none

/-- A run that selects a final record, in the given session. -/
def readerOps (session : SessionId) : List StoreOp :=
  noteOps ++ [⟨.createSession otherSession⟩, ⟨.registerRun (reader session)⟩]

end Sample

theorem reader_stays_in_session :
    (MemoryStore.machine.after (Sample.readerOps Sample.session) .default).sessionOf Sample.note =
      some Sample.session := by
  apply (contexts_stay_in_session SerdeJson.tree SerdeJson.tree_lawful "epoch"
    (Sample.readerOps Sample.session)).1 _ (Sample.reader Sample.session).id
      (Sample.reader Sample.session) rfl Sample.note (List.mem_cons_self)
  refine ⟨trivial, trivial, trivial, ?_, trivial⟩
  intro id hid s hs
  obtain rfl := List.mem_singleton.mp hid
  exact (Option.some.inj hs).symm

/-- A run of another session registers with the note as its context. -/
theorem reader_leaves_its_session :
    (MemoryStore.machine.exec (.registerRun (Sample.reader Sample.otherSession))
      (MemoryStore.machine.after (Sample.noteOps ++ [⟨.createSession Sample.otherSession⟩])
        .default)).1 = .ok true ∧
    ¬∀ run spec, (MemoryStore.machine.after (Sample.readerOps Sample.otherSession) .default).runs.lookup
        run = some spec → ∀ id ∈ spec.context.records,
          (MemoryStore.machine.after (Sample.readerOps Sample.otherSession) .default).sessionOf id =
            some spec.sessionId := by
  refine ⟨rfl, ?_⟩
  intro h
  have hsession := h (Sample.reader Sample.otherSession).id (Sample.reader Sample.otherSession) rfl
    Sample.note List.mem_cons_self
  have hnote : (MemoryStore.machine.after (Sample.readerOps Sample.otherSession) .default).sessionOf
      Sample.note = some Sample.session := rfl
  rw [hnote] at hsession
  have hne : ¬Sample.session = Sample.otherSession := by decide
  exact hne (Option.some.inj hsession)

end AgentBridge
