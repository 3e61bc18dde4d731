import AgentBridge.Records.Sqlite.Store
import AgentBridge.Records.Sqlite.Statements

/-! # Reading and writing the rows of records -/

namespace AgentBridge

open Reasoning

namespace SqliteStore

variable {Text : Type} {J : SerdeJson Text}

/-! ## Columns -/

theorem id_eq_ok {kind : IdKind} {value : String} {a : Identifier kind} :
    id value = .ok a ↔ value = a.asStr := by
  constructor
  · intro h
    unfold id Identifier.new at h
    split at h
    · next heq =>
      split at heq
      · cases heq
        cases h
        rfl
      · cases heq
    · cases h
  · rintro rfl
    simp [id]

theorem number_eq_ok {value : Int} {n : Nat} : number value = .ok n ↔ value = n := by
  unfold number
  by_cases h : 0 ≤ value
  · simp only [h, ↓reduceIte, Except.ok.injEq]
    omega
  · simp only [h, ↓reduceIte, reduceCtorEq, false_iff]
    omega

theorem parseState_eq_ok {value : String} {state : RecordState} :
    parseState value = .ok state ↔ value = stateName state := by
  constructor
  · intro h
    unfold parseState at h
    split at h <;> cases h <;> rfl
  · rintro rfl
    cases state <;> rfl

theorem transpose_eq_ok {α β : Type} {f : α → Except StoreError β} {o : Option α}
    {r : Option β} :
    transpose f o = .ok r ↔
      (o = none ∧ r = none) ∨ ∃ a b, o = some a ∧ r = some b ∧ f a = .ok b := by
  cases o with
  | none => simp [transpose, eq_comm]
  | some a =>
    cases hf : f a with
    | error e => simp [transpose, hf, Except.map]
    | ok b => simp [transpose, hf, Except.map, eq_comm]

theorem transpose_id_eq_ok {kind : IdKind} {o : Option String} {r : Option (Identifier kind)} :
    transpose id o = .ok r ↔ o = r.map (·.asStr) := by
  rw [transpose_eq_ok]
  constructor
  · rintro (⟨rfl, rfl⟩ | ⟨a, b, rfl, rfl, h⟩)
    · rfl
    · rw [id_eq_ok.mp h]
      rfl
  · rintro rfl
    cases r with
    | none => exact .inl ⟨rfl, rfl⟩
    | some a => exact .inr ⟨a.asStr, a, rfl, rfl, id_eq_ok.mpr rfl⟩

theorem transpose_encode {α : Type} [Serde α] (o : Option α) :
    transpose (Codec.encode J) o = .ok (o.map (Codec.documentText J)) := by
  cases o <;> rfl

theorem validateRead_eq_ok {payload : Payload} {state : RecordState} {u : Unit} :
    validateRead payload state = .ok u ↔ Rules.validate payload state = .ok () := by
  unfold validateRead
  cases Rules.validate payload state <;> simp

theorem asI64_of_lt {n : Nat} (h : n < 2 ^ 63) : asI64 n = n := by
  unfold asI64
  rw [if_pos h]

theorem stateName_mem (state : RecordState) : stateName state ∈ sqlStates := by
  cases state <;> decide

/-! ## Decoding -/

/-- The snapshot a row was created with, as far as `initial_json` tells. -/
def DecodesInitial (J : SerdeJson Text) (current initial : Snapshot) : Option Text → Prop
  | none => current.revision = 0 ∧ initial = current
  | some text => ∃ content : InitialContent, Codec.decode J text = .ok content ∧
      Rules.validate content.payload content.state = .ok () ∧
        initial = Rules.withInitial current content.payload content.state

/-- Column by column, the row reads as the entry. -/
structure DecodesTo (J : SerdeJson Text) (row : RowData Text) (e : Entry) : Prop where
  id : row.id = e.current.record.id.asStr
  session : row.session = e.current.record.sessionId.asStr
  run : row.run = e.current.record.runId.map (·.asStr)
  sequence : row.sequence = e.current.record.sequence
  actor : row.actor = e.current.record.actor.asStr
  reply : row.reply = e.current.record.replyToId.map (·.asStr)
  payload : Codec.decode J row.payload = .ok e.current.record.payload
  source : transpose (Codec.decode J) row.source = .ok e.current.source
  revision : row.revision = e.current.revision
  state : row.state = stateName e.current.state
  valid : Rules.validate e.current.record.payload e.current.state = .ok ()
  initial : DecodesInitial J e.current e.initial row.initial

theorem decodeCurrent_eq_ok {row : RowData Text} {current : Snapshot} :
    row.decodeCurrent J = .ok current ↔
      row.id = current.record.id.asStr ∧ row.session = current.record.sessionId.asStr ∧
      row.run = current.record.runId.map (·.asStr) ∧
      row.sequence = current.record.sequence ∧ row.actor = current.record.actor.asStr ∧
      row.reply = current.record.replyToId.map (·.asStr) ∧
      Codec.decode J row.payload = .ok current.record.payload ∧
      transpose (Codec.decode J) row.source = .ok current.source ∧
      row.revision = current.revision ∧ row.state = stateName current.state ∧
      Rules.validate current.record.payload current.state = .ok () := by
  unfold RowData.decodeCurrent
  simp only [bind_eq_ok, id_eq_ok, transpose_id_eq_ok, number_eq_ok, parseState_eq_ok,
    validateRead_eq_ok]
  constructor
  · rintro ⟨i, hi, s, hs, r, hr, q, hq, a, ha, p, hp, pl, hpl, so, hso, rv, hrv, st, hst, ⟨⟩, hv, h⟩
    obtain rfl := (Except.ok.inj h).symm
    exact ⟨hi, hs, hr, hq, ha, hp, hpl, hso, hrv, hst, hv⟩
  · rintro ⟨hi, hs, hr, hq, ha, hp, hpl, hso, hrv, hst, hv⟩
    exact ⟨_, hi, _, hs, _, hr, _, hq, _, ha, _, hp, _, hpl, _, hso, _, hrv, _, hst, (), hv, rfl⟩

theorem decode_eq_ok {row : RowData Text} {e : Entry} :
    row.decode J = .ok e ↔ DecodesTo J row e := by
  have hsplit : row.decode J = .ok e ↔
      row.decodeCurrent J = .ok e.current ∧ DecodesInitial J e.current e.initial row.initial := by
    unfold RowData.decode
    rw [bind_eq_ok]
    cases hinit : row.initial with
    | none =>
      simp only [ite_error_eq_ok, Except.ok.injEq, DecodesInitial, not_not]
      constructor
      · rintro ⟨current, hcurrent, hrev, rfl⟩
        exact ⟨hcurrent, hrev, rfl⟩
      · rintro ⟨hcurrent, hrev, heq⟩
        exact ⟨e.current, hcurrent, hrev, by cases e; simp_all⟩
    | some text =>
      simp only [bind_eq_ok, validateRead_eq_ok, Except.ok.injEq, DecodesInitial]
      constructor
      · rintro ⟨current, hcurrent, content, hcontent, ⟨⟩, hvalid, rfl⟩
        exact ⟨hcurrent, content, hcontent, hvalid, rfl⟩
      · rintro ⟨hcurrent, content, hcontent, hvalid, heq⟩
        exact ⟨e.current, hcurrent, content, hcontent, (), hvalid, by
          cases e
          simp_all [Rules.withInitial]⟩
  rw [hsplit, decodeCurrent_eq_ok]
  constructor
  · rintro ⟨⟨h1, h2, h3, h4, h5, h6, h7, h8, h9, h10, h11⟩, h12⟩
    exact ⟨h1, h2, h3, h4, h5, h6, h7, h8, h9, h10, h11, h12⟩
  · intro h
    exact ⟨⟨h.id, h.session, h.run, h.sequence, h.actor, h.reply, h.payload, h.source, h.revision,
      h.state, h.valid⟩, h.initial⟩

/-- The reads of records, by row. -/
theorem entry_eq_some {db : Db Text} {record : RecordId} {e : Entry} :
    entry J db record = .ok (some e) ↔
      ∃ row, db.records.lookup record.asStr = some row ∧ DecodesTo J row e := by
  unfold entry
  rw [transpose_eq_ok]
  simp [decode_eq_ok]

theorem entry_eq_none {db : Db Text} {record : RecordId} :
    entry J db record = .ok none ↔ db.records.lookup record.asStr = none := by
  unfold entry
  rw [transpose_eq_ok]
  simp

theorem entry_congr {db db' : Db Text} {record : RecordId}
    (h : db'.records.lookup record.asStr = db.records.lookup record.asStr) :
    entry J db' record = entry J db record := by
  unfold entry
  rw [h]

/-! ## Writing -/

/-- The row that `insert_row` writes. -/
def newRow (J : SerdeJson Text) (snapshot : Snapshot) : RowData Text where
  id := snapshot.record.id.asStr
  session := snapshot.record.sessionId.asStr
  run := snapshot.record.runId.map (·.asStr)
  sequence := asI64 snapshot.record.sequence
  actor := snapshot.record.actor.asStr
  reply := snapshot.record.replyToId.map (·.asStr)
  source := snapshot.source.map (Codec.documentText J)
  payload := Codec.documentText J snapshot.record.payload
  state := stateName snapshot.state
  revision := 0
  initial := none

def newDocs (snapshot : Snapshot) : List Document :=
  .payload snapshot.record.payload :: (snapshot.source.map Document.source).toList

/-- The database after `insert_row`. -/
def afterInsert (J : SerdeJson Text) (db : Db Text) (snapshot : Snapshot) (next : Int) : Db Text :=
  (db.withRecord (newRow J snapshot) (newDocs snapshot)).withSequence
    snapshot.record.sessionId.asStr (next + 1)

theorem insertRow_eq_ok {db db' : Db Text} {snapshot : Snapshot} :
    insertRow J db snapshot = .ok db' ↔
      ∃ next, db.sessions.lookup snapshot.record.sessionId.asStr = some next ∧ next < i64Max ∧
        db.InsertsRecord (newRow J snapshot) ∧ db' = afterInsert J db snapshot next := by
  have hrow : insertRow J db snapshot =
      (db.insertRecord (newRow J snapshot) (newDocs snapshot) >>= fun db =>
        db.incrementSequence snapshot.record.sessionId.asStr) := by
    unfold insertRow
    rw [transpose_encode]
    rfl
  rw [hrow, bind_eq_ok]
  simp only [Db.insertRecord_eq_ok]
  constructor
  · rintro ⟨inserted, ⟨hins, rfl⟩, h⟩
    obtain ⟨next, hnext⟩ := Option.isSome_iff_exists.mp hins.session
    have hnext' : (db.withRecord (newRow J snapshot) (newDocs snapshot)).sessions.lookup
        snapshot.record.sessionId.asStr = some next := hnext
    obtain ⟨hlt, rfl⟩ := (Db.incrementSequence_eq_ok hnext').mp h
    exact ⟨next, hnext, hlt, hins, rfl⟩
  · rintro ⟨next, hnext, hlt, hins, rfl⟩
    have hnext' : (db.withRecord (newRow J snapshot) (newDocs snapshot)).sessions.lookup
        snapshot.record.sessionId.asStr = some next := hnext
    exact ⟨_, ⟨hins, rfl⟩, (Db.incrementSequence_eq_ok hnext').mpr ⟨hlt, rfl⟩⟩

/-- The creation content that `update_row` saves with the first update. -/
def initialContent (old : Snapshot) : Option InitialContent :=
  if old.revision = 0 then some ⟨old.record.payload, old.state⟩ else none

def updateDocs (old new : Snapshot) : List Document :=
  .payload new.record.payload :: ((initialContent old).map Document.initial).toList

/-- The row that `update_row` writes over a row. -/
def nextRow (J : SerdeJson Text) (row : RowData Text) (old new : Snapshot) : RowData Text :=
  Db.updatedRow row (Codec.documentText J new.record.payload) (stateName new.state) new.revision
    ((initialContent old).map (Codec.documentText J))

theorem tryI64_eq_some {n : Nat} {m : Int} : tryI64 n = some m ↔ (n : Int) ≤ i64Max ∧ m = n := by
  unfold tryI64
  by_cases h : (n : Int) ≤ i64Max
  · simp [h, eq_comm]
  · simp [h]

theorem updateRow_eq_ok {db db' : Db Text} {old new : Snapshot}
    (hrev : new.revision = old.revision + 1) (hbound : old.revision < 2 ^ 63)
    (hchange : ∀ row, db.records.lookup old.record.id.asStr = some row →
      (db.recordChanges.lookup old.record.id.asStr).isSome) :
    updateRow J db old new = .ok db' ↔
      (new.revision : Int) ≤ i64Max ∧ ∃ row change,
        db.UpdatesRecord old.record.id.asStr old.revision (stateName new.state) new.revision row
          change ∧
        db' = db.withUpdate old.record.id.asStr (nextRow J row old new) change
          (updateDocs old new) := by
  have hne : old ≠ new := by
    rintro rfl
    omega
  have hrev' : (new.revision : Int) ≠ asI64 old.revision := by
    rw [asI64_of_lt hbound, hrev]
    omega
  unfold updateRow
  rw [if_neg hne]
  by_cases hle : (new.revision : Int) ≤ i64Max
  · simp only [tryI64_eq_some.mpr ⟨hle, rfl⟩, ok_bind, transpose_encode, hle, true_and]
    simp only [Codec.encode, ok_bind, bind_eq_ok]
    constructor
    · rintro ⟨⟨changed, updated⟩, hupdate, h⟩
      simp only [ite_error_eq_ok, ne_eq, not_not, Except.ok.injEq] at h
      obtain ⟨rfl, rfl⟩ := h
      obtain ⟨row, change, hupdates, rfl⟩ := (Db.updateRecord_eq_ok hrev' hchange).mp hupdate
      exact ⟨row, change, asI64_of_lt hbound ▸ hupdates, rfl⟩
    · rintro ⟨row, change, hupdates, rfl⟩
      refine ⟨⟨1, _⟩, (Db.updateRecord_eq_ok hrev' hchange).mpr
        ⟨row, change, (asI64_of_lt hbound).symm ▸ hupdates, rfl⟩, ?_⟩
      rfl
  · have hnone : tryI64 new.revision = none := by
      unfold tryI64
      rw [if_neg hle]
    simp [hnone, hle]

end SqliteStore

end AgentBridge
