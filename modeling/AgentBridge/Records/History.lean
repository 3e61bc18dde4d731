import AgentBridge.Reasoning.Versioned
import AgentBridge.Records.MemorySteps
import AgentBridge.Records.Sqlite.Readings
import Mathlib

/-!
# Finalized history is immutable

Both stores keep their records as versioned values: the identity of a record, its place in its
session and its source never change, its revision never decreases, and a version that is not open
is the last one.  So what a registered run has selected stays as it was selected.
-/

namespace AgentBridge

open Reasoning

/-! ## The in-memory store -/

namespace MemoryStore

/-- Everything of an entry but the payload, state and revision of its current snapshot. -/
structure EntryIdentity where
  id : RecordId
  sessionId : SessionId
  runId : Option RunId
  sequence : Nat
  actor : ActorId
  replyToId : Option RecordId
  source : Option SourceRef
  initial : Snapshot

def entryVersioning : Versioning Entry EntryIdentity Nat where
  identity e := {
    id := e.current.record.id
    sessionId := e.current.record.sessionId
    runId := e.current.record.runId
    sequence := e.current.record.sequence
    actor := e.current.record.actor
    replyToId := e.current.record.replyToId
    source := e.current.source
    initial := e.initial }
  revision e := e.current.revision
  final e := e.current.state.isFinal = true

theorem evolves_advance {e : Entry} (hopen : e.current.state = .opened) (payload : Payload)
    (next : RecordState) :
    entryVersioning.Evolves e ⟨e.initial, Rules.advance e.current payload next⟩ where
  identity := rfl
  revision := Nat.le_succ _
  final hfinal := by
    have hfinal' : e.current.state.isFinal = true := hfinal
    rw [hopen] at hfinal'
    cases hfinal'

/-- The records of a state. -/
def State.record (state : State) (id : RecordId) : Option Entry := state.records.lookup id

theorem State.HistoryStep.evolves {state state' : State} (h : state.HistoryStep state') :
    entryVersioning.TableEvolves state.record state'.record := by
  cases h with
  | same h => exact .of_eq h.records
  | register hfresh hcontext => exact .of_eq fun _ => rfl
  | @insert draft ids h =>
    apply Versioning.TableEvolves.store (state.lookup_committed (Rules.created draft ids.length) ids)
    intro a ha
    have ha' : state.records.lookup draft.id = some a := ha
    rw [h.fresh] at ha'
    cases ha'
  | @advance id entry r payload next hentry hadv =>
    apply Versioning.TableEvolves.store (state.lookup_withCurrent id entry _)
    intro a ha
    obtain rfl : entry = a := by simpa [State.record, hentry] using ha
    exact evolves_advance hadv.opened payload next
  | @answer request r decision entry ids h =>
    -- the request's new version first, then the response
    have hrequest : entryVersioning.TableEvolves state.record
        (state.withCurrent request entry
          (Rules.advance entry.current entry.current.record.payload .complete)).record := by
      apply Versioning.TableEvolves.store (state.lookup_withCurrent request entry _)
      intro a ha
      obtain rfl : entry = a := by simpa [State.record, h.found] using ha
      exact evolves_advance h.resolves.opened _ _
    have hne : decision.id ≠ request := by
      intro heq
      have hfresh := h.fresh
      rw [heq, h.found] at hfresh
      cases hfresh
    refine hrequest.trans (Versioning.TableEvolves.store
      (State.lookup_committed _ (Rules.created decision ids.length) ids) ?_)
    intro a ha
    have hfresh : (state.withCurrent request entry
        (Rules.advance entry.current entry.current.record.payload .complete)).records.lookup
          decision.id = none := by
      rw [State.lookup_withCurrent, if_neg hne, h.fresh]
    have ha' : (state.withCurrent request entry
        (Rules.advance entry.current entry.current.record.payload .complete)).records.lookup
          decision.id = some a := ha
    rw [hfresh] at ha'
    cases ha'

/-- Every record that a registered run has selected is there, and final. -/
def State.ContextsFinal (state : State) : Prop :=
  ∀ run spec, state.runs.lookup run = some spec → ∀ id ∈ spec.context.records,
    ∃ e, state.record id = some e ∧ e.current.state.isFinal = true

/-- Runs are registered once. -/
theorem State.HistoryStep.runs {state state' : State} (h : state.HistoryStep state') {run : RunId}
    {spec : RunSpec} (hspec : state.runs.lookup run = some spec) :
    state'.runs.lookup run = some spec := by
  cases h with
  | same h => rw [h.runs, hspec]
  | @register new hfresh hcontext =>
    have hne : run ≠ new.id := by
      intro heq
      rw [heq, hfresh] at hspec
      cases hspec
    exact (HashMap.lookup_insert_eq _ _ _ _).trans ((if_neg hne).trans hspec)
  | insert h => exact hspec
  | advance hentry hadv => exact hspec
  | answer h => exact hspec

theorem State.ContextsFinal.step {state state' : State} (hfinal : state.ContextsFinal)
    (h : state.HistoryStep state') : state'.ContextsFinal := by
  -- what is final stays, so only a new run has to be checked
  have hkeep : ∀ id e, state.record id = some e → e.current.state.isFinal = true →
      state'.record id = some e := fun id e he hf => h.evolves.frozen he hf
  have hold : ∀ run spec, state.runs.lookup run = some spec → ∀ id ∈ spec.context.records,
      ∃ e, state'.record id = some e ∧ e.current.state.isFinal = true := by
    intro run spec hspec id hid
    obtain ⟨e, he, hf⟩ := hfinal run spec hspec id hid
    exact ⟨e, hkeep id e he hf, hf⟩
  intro run spec hspec
  cases h with
  | same h => exact hold run spec (by rw [← h.runs, hspec])
  | @register new hfresh hcontext =>
    have hspec' := (HashMap.lookup_insert_eq _ _ _ _).symm.trans hspec
    split at hspec'
    · obtain rfl := Option.some.inj hspec'
      intro id hid
      obtain ⟨e, he, hf⟩ := hcontext id hid
      exact ⟨e, hkeep id e he hf, hf⟩
    · exact hold run spec hspec'
  | insert h => exact hold run spec hspec
  | advance hentry hadv => exact hold run spec hspec
  | answer h => exact hold run spec hspec

/-- What later calls keep of a state's records and runs. -/
structure State.HistoryKept (state state' : State) : Prop where
  records : entryVersioning.TableEvolves state.record state'.record
  runs : ∀ run spec, state.runs.lookup run = some spec → state'.runs.lookup run = some spec

theorem historyKept_after {state : State} (hwf : state.WellFormed) (ops : List StoreOp) :
    state.HistoryKept (machine.after ops state) :=
  machine.after_relation (fun _ => ⟨.of_eq fun _ => rfl, fun _ _ h => h⟩)
    (fun h h' => ⟨h.records.trans h'.records, fun run spec hs => h'.runs run spec (h.runs run spec hs)⟩)
    (fun call _ h => h.exec call)
    (fun call _ h => ⟨(exec_step h call).evolves, fun _ _ => (exec_step h call).runs⟩) ops hwf

theorem contextsFinal_after (ops : List StoreOp) :
    (machine.after ops State.default).ContextsFinal := by
  have h : (machine.after ops State.default).WellFormed ∧
      (machine.after ops State.default).ContextsFinal := by
    refine machine.after_invariant (P := fun state => state.WellFormed ∧ state.ContextsFinal) ?_ ops
      ⟨State.WellFormed.default, fun _ _ h => by simp [State.default] at h⟩
    intro β call state h
    exact ⟨h.1.exec call, h.2.step (exec_step h.1 call)⟩
  exact h.2

end MemoryStore

/-! ## The SQLite store -/

namespace SqliteStore

variable {Text : Type} {J : SerdeJson Text} {db db' : Db Text}

/-- The columns that no statement updates. -/
structure RowIdentity (Text : Type) where
  id : String
  session : String
  run : Option String
  sequence : Int
  actor : String
  reply : Option String
  source : Option Text

def rowVersioning (Text : Type) : Versioning (RowData Text) (RowIdentity Text) Int where
  identity row := {
    id := row.id
    session := row.session
    run := row.run
    sequence := row.sequence
    actor := row.actor
    reply := row.reply
    source := row.source }
  revision row := row.revision
  final row := row.state ≠ stateName .opened

theorem evolves_nextRow {row : RowData Text} {e : Entry} (h : DecodesTo J row e)
    (hopen : e.current.state = .opened) (payload : Payload) (next : RecordState) :
    (rowVersioning Text).Evolves row
      (nextRow J row e.current (Rules.advance e.current payload next)) where
  identity := rfl
  revision := by
    show row.revision ≤ ((e.current.revision + 1 : Nat) : Int)
    rw [h.revision]
    omega
  final hfinal := by
    have hstate := h.state
    rw [hopen] at hstate
    exact absurd hstate hfinal

/-- The rows of a database. -/
def Db.row (db : Db Text) (name : String) : Option (RowData Text) := db.records.lookup name

theorem evolves_afterUpdate {record : RecordId} {e : Entry} {row : RowData Text}
    {change : RecordChange} (h : Updates J db record e row change)
    (hopen : e.current.state = .opened) (payload : Payload) (next : RecordState) :
    (rowVersioning Text).TableEvolves db.row
      (afterUpdate J db row change e.current (Rules.advance e.current payload next)).row := by
  apply Versioning.TableEvolves.store (lookup_afterUpdate row change e.current _)
  intro a ha
  have ha' : db.records.lookup e.current.record.id.asStr = some a := ha
  rw [h.named, h.found, Option.some.injEq] at ha'
  subst ha'
  exact evolves_nextRow h.decodes hopen payload next

theorem evolves_afterInsert (snapshot : Snapshot) (n : Int)
    (hfresh : db.records.lookup snapshot.record.id.asStr = none) :
    (rowVersioning Text).TableEvolves db.row (afterInsert J db snapshot n).row := by
  apply Versioning.TableEvolves.store (lookup_afterInsert snapshot n)
  intro a ha
  have ha' : db.records.lookup snapshot.record.id.asStr = some a := ha
  rw [hfresh] at ha'
  cases ha'

theorem Db.HistoryStep.evolves (h : db.HistoryStep J db') :
    (rowVersioning Text).TableEvolves db.row db'.row := by
  cases h with
  | same h =>
    apply Versioning.TableEvolves.of_eq
    intro name
    show db'.records.lookup name = db.records.lookup name
    rw [h.records]
  | register hfresh hcontext => exact .of_eq fun _ => rfl
  | insert h => exact evolves_afterInsert _ _ h.inserts.fresh
  | advance h hadv => exact evolves_afterUpdate h hadv.opened _ _
  | @answer request r decision e row change next h =>
    exact (evolves_afterUpdate h.updates h.resolves.opened _ _).trans
      (evolves_afterInsert (Rules.created decision next) next h.inserts.fresh)

/-- A final record reads the same for ever. -/
theorem entry_frozen (h : (rowVersioning Text).TableEvolves db.row db'.row) {record : RecordId}
    {e : Entry} (hentry : entry J db record = .ok (some e)) (hfinal : e.current.state.isFinal = true) :
    entry J db' record = .ok (some e) := by
  obtain ⟨row, hrow, hdecodes⟩ := entry_eq_some.mp hentry
  have hstate : row.state ≠ stateName .opened := by
    rw [hdecodes.state]
    intro heq
    have hparse := parseState_eq_ok.mpr heq.symm
    rw [parseState_eq_ok.mpr rfl, Except.ok.injEq] at hparse
    rw [← hparse] at hfinal
    cases hfinal
  exact entry_eq_some.mpr ⟨row, h.frozen hrow hstate, hdecodes⟩

/-- Runs are registered once. -/
theorem Db.HistoryStep.runs (h : db.HistoryStep J db') {name : String} {row : RunRow Text}
    (hrow : db.runs.lookup name = some row) : db'.runs.lookup name = some row := by
  cases h with
  | same h => rw [h.runs, hrow]
  | @register new hfresh hcontext =>
    have hne : name ≠ new.id.asStr := by
      intro heq
      rw [heq, hfresh] at hrow
      cases hrow
    exact (HashMap.lookup_insert_eq _ _ _ _).trans ((if_neg hne).trans hrow)
  | insert h => exact hrow
  | advance h hadv => exact hrow
  | answer h => exact hrow

/-- Every record that a registered run has selected is there, readable and final. -/
def Db.ContextsFinal (J : SerdeJson Text) (db : Db Text) : Prop :=
  ∀ name row, db.runs.lookup name = some row → ∃ context : ContextManifest,
    row.context = Codec.documentText J context ∧ ∀ record ∈ context.records,
      ∃ e, entry J db record = .ok (some e) ∧ e.current.state.isFinal = true

theorem Db.ContextsFinal.step (hfinal : db.ContextsFinal J) (h : db.HistoryStep J db') :
    db'.ContextsFinal J := by
  have hkeep : ∀ record e, entry J db record = .ok (some e) → e.current.state.isFinal = true →
      entry J db' record = .ok (some e) := fun _ _ he hf => entry_frozen h.evolves he hf
  have hold : ∀ name row, db.runs.lookup name = some row → ∃ context : ContextManifest,
      row.context = Codec.documentText J context ∧ ∀ record ∈ context.records,
        ∃ e, entry J db' record = .ok (some e) ∧ e.current.state.isFinal = true := by
    intro name row hrow
    obtain ⟨context, htext, hrecords⟩ := hfinal name row hrow
    refine ⟨context, htext, fun record hrecord => ?_⟩
    obtain ⟨e, he, hf⟩ := hrecords record hrecord
    exact ⟨e, hkeep record e he hf, hf⟩
  intro name row hrow
  cases h with
  | same h => exact hold name row (by rw [← h.runs, hrow])
  | @register new hfresh hcontext =>
    have hrow' := (HashMap.lookup_insert_eq _ _ _ _).symm.trans hrow
    split at hrow'
    · obtain rfl := Option.some.inj hrow'
      refine ⟨new.context, rfl, fun record hrecord => ?_⟩
      obtain ⟨e, he, hf⟩ := hcontext record hrecord
      exact ⟨e, hkeep record e he hf, hf⟩
    · exact hold name row hrow'
  | insert h => exact hold name row hrow
  | advance h hadv => exact hold name row hrow
  | answer h => exact hold name row hrow

/-- What later calls keep of a database's records and runs. -/
structure Db.HistoryKept (db db' : Db Text) : Prop where
  records : (rowVersioning Text).TableEvolves db.row db'.row
  runs : ∀ name row, db.runs.lookup name = some row → db'.runs.lookup name = some row

theorem historyKept_after (hs : db.Sound) (ops : List StoreOp) :
    db.HistoryKept ((machine J).after ops db) :=
  (machine J).after_relation (fun _ => ⟨.of_eq fun _ => rfl, fun _ _ h => h⟩)
    (fun h h' => ⟨h.records.trans h'.records, fun name row hr => h'.runs name row (h.runs name row hr)⟩)
    (fun c _ hs => hs.step (call_step hs c))
    (fun c _ hs => ⟨(call_step (J := J) hs c).evolves, fun _ _ => (call_step hs c).runs⟩) ops hs

theorem contextsFinal_after (epoch : String) (ops : List StoreOp) :
    ((machine J).after ops (Db.empty Text epoch)).ContextsFinal J := by
  have h : ((machine J).after ops (Db.empty Text epoch)).Sound ∧
      ((machine J).after ops (Db.empty Text epoch)).ContextsFinal J := by
    refine (machine J).after_invariant (P := fun db => db.Sound ∧ db.ContextsFinal J) ?_ ops
      ⟨.empty epoch, fun _ _ h => by simp [Db.empty] at h⟩
    intro β c db h
    exact ⟨h.1.step (call_step h.1 c), h.2.step (call_step h.1 c)⟩
  exact h.2

theorem readRun_eq_some {run : RunId} {spec : RunSpec} (h : readRun J db run = .ok (some spec)) :
    ∃ row, db.runs.lookup run.asStr = some row ∧ RunRow.decode J run row = .ok spec := by
  unfold readRun at h
  rw [transpose_eq_ok] at h
  obtain ⟨-, h⟩ | ⟨row, spec', hrow, hspec, hdecode⟩ := h
  · cases h
  · obtain rfl := Option.some.inj hspec
    exact ⟨row, hrow, hdecode⟩

theorem context_of_decode {run : RunId} {row : RunRow Text} {spec : RunSpec}
    (h : RunRow.decode J run row = .ok spec) :
    Codec.decode J row.context = .ok spec.context := by
  unfold RunRow.decode at h
  simp only [bind_eq_ok, Except.ok.injEq] at h
  obtain ⟨_, -, _, -, context, hcontext, _, -, _, -, rfl⟩ := h
  exact hcontext

/-- The records that a run read from a database has selected are there, readable and final. -/
theorem Db.ContextsFinal.selected (hfinal : db.ContextsFinal J) (hJ : J.Lawful) {run : RunId}
    {spec : RunSpec} (h : readRun J db run = .ok (some spec)) :
    ∀ record ∈ spec.context.records,
      ∃ e, entry J db record = .ok (some e) ∧ e.current.state.isFinal = true := by
  obtain ⟨row, hrow, hdecode⟩ := readRun_eq_some h
  obtain ⟨context, htext, hrecords⟩ := hfinal _ row hrow
  have hcontext := context_of_decode hdecode
  have hread : Codec.decode J (Codec.documentText J context) = .ok context :=
    Codec.readsBack_contextManifest hJ context
  rw [htext, hread, Except.ok.injEq] at hcontext
  rw [← hcontext]
  exact hrecords

theorem readRun_congr {run : RunId}
    (h : ∀ row, db.runs.lookup run.asStr = some row → db'.runs.lookup run.asStr = some row)
    {spec : RunSpec} (hread : readRun J db run = .ok (some spec)) :
    readRun J db' run = .ok (some spec) := by
  obtain ⟨row, hrow, hdecode⟩ := readRun_eq_some hread
  unfold readRun
  rw [transpose_eq_ok]
  exact .inr ⟨row, spec, h row hrow, rfl, hdecode⟩

end SqliteStore

/-! ## Both stores -/

/-- In both stores, for every state that calls reach and all later calls: a record keeps its
identity, its revision never decreases, a final record never changes, and what a registered run has
selected was final and stays as it was. -/
theorem finalized_history_is_immutable {Text : Type} (J : SerdeJson Text) (hJ : J.Lawful)
    (epoch : String) (ops later : List StoreOp) :
    (∀ state state', state = MemoryStore.machine.after ops .default →
      state' = MemoryStore.machine.after (ops ++ later) .default →
        state.HistoryKept state' ∧
        ∀ run spec, state.runs.lookup run = some spec → ∀ id ∈ spec.context.records,
          ∃ e, state.record id = some e ∧ e.current.state.isFinal = true ∧
            state'.record id = some e) ∧
    (∀ db db', db = (SqliteStore.machine J).after ops (SqliteStore.Db.empty Text epoch) →
      db' = (SqliteStore.machine J).after (ops ++ later) (SqliteStore.Db.empty Text epoch) →
        db.HistoryKept db' ∧
        (∀ id e, SqliteStore.entry J db id = .ok (some e) → e.current.state.isFinal = true →
          SqliteStore.entry J db' id = .ok (some e)) ∧
        ∀ run spec, SqliteStore.readRun J db run = .ok (some spec) →
          SqliteStore.readRun J db' run = .ok (some spec) ∧ ∀ id ∈ spec.context.records,
            ∃ e, SqliteStore.entry J db id = .ok (some e) ∧ e.current.state.isFinal = true ∧
              SqliteStore.entry J db' id = .ok (some e)) := by
  constructor
  · rintro state state' rfl rfl
    rw [Machine.after_append]
    have hkept := MemoryStore.historyKept_after (MemoryStore.State.WellFormed.after ops) later
    refine ⟨hkept, fun run spec hspec id hid => ?_⟩
    obtain ⟨e, he, hfinal⟩ := MemoryStore.contextsFinal_after ops run spec hspec id hid
    exact ⟨e, he, hfinal, hkept.records.frozen he hfinal⟩
  · rintro db db' rfl rfl
    rw [Machine.after_append]
    have hkept := SqliteStore.historyKept_after (J := J) (SqliteStore.Db.Sound.after J epoch ops) later
    refine ⟨hkept, fun id e he hfinal => SqliteStore.entry_frozen hkept.records he hfinal, ?_⟩
    intro run spec hspec
    refine ⟨SqliteStore.readRun_congr (fun row => hkept.runs _ row) hspec, fun id hid => ?_⟩
    obtain ⟨e, he, hfinal⟩ :=
      (SqliteStore.contextsFinal_after epoch ops).selected hJ hspec id hid
    exact ⟨e, he, hfinal, SqliteStore.entry_frozen hkept.records he hfinal⟩

namespace Sample

def session : SessionId := ⟨"session", (rfl : false = false)⟩

def note : RecordId := ⟨"note", (rfl : false = false)⟩

def text (body : String) : Payload := .message .user ⟨[.text body]⟩

/-- A complete message. -/
def noteDraft : Draft where
  id := note
  sessionId := session
  runId := none
  actor := ⟨"actor", (rfl : false = false)⟩
  replyToId := none
  source := none
  payload := text "final"
  state := .complete

def noteOps : List StoreOp := [⟨.createSession session⟩, ⟨.insert noteDraft⟩]

end Sample

/-- The final note after an attempt to change it. -/
theorem finalized_note_is_immutable :
    (MemoryStore.machine.after
      (Sample.noteOps ++ [⟨.checkpoint Sample.note 0 (Sample.text "changed") .complete⟩])
        .default).record Sample.note =
      some ⟨Rules.created Sample.noteDraft 0, Rules.created Sample.noteDraft 0⟩ :=
  ((finalized_history_is_immutable SerdeJson.tree SerdeJson.tree_lawful "epoch" Sample.noteOps
    [⟨.checkpoint Sample.note 0 (Sample.text "changed") .complete⟩]).1 _ _ rfl rfl).1.records.frozen
      rfl rfl

end AgentBridge
