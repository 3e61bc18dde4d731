import AgentBridge.Records.Sqlite.Soundness

/-!
# What the rows written read as

While its documents read back, a row that a mutation writes reads as the snapshot the mutation
returned.  Whatever the documents, it reads as nothing else but for a present `null` of a tool
activity, which is lost.
-/

namespace AgentBridge

open Reasoning

namespace SqliteStore

variable {Text : Type} {J : SerdeJson Text} {db : Db Text}

/-! ## Rows whose documents read back -/

theorem decodesTo_newRow {draft : Draft} {n : Nat} (hn : (n : Int) < i64Max)
    (hvalid : Rules.validate draft.payload draft.state = .ok ())
    (hpayload : Codec.ReadsBack J draft.payload)
    (hsource : ∀ source, draft.source = some source → Codec.ReadsBack J source) :
    DecodesTo J (newRow J (Rules.created draft n))
      ⟨Rules.created draft n, Rules.created draft n⟩ where
  id := rfl
  session := rfl
  run := rfl
  sequence := asI64_of_lt (by
    show n < 2 ^ 63
    unfold i64Max at hn
    omega)
  actor := rfl
  reply := rfl
  payload := hpayload
  source := by
    rw [transpose_eq_ok]
    show (draft.source.map (Codec.documentText J) = none ∧ draft.source = none) ∨ _
    cases hs : draft.source with
    | none => exact .inl ⟨rfl, rfl⟩
    | some source =>
      exact .inr ⟨_, source, congrArg (Option.map (Codec.documentText J)) hs, hs, hsource source hs⟩
  revision := rfl
  state := rfl
  valid := hvalid
  initial := ⟨rfl, rfl⟩

theorem decodesTo_nextRow {row : RowData Text} {e : Entry} (h : DecodesTo J row e)
    {payload : Payload} {next : RecordState} (hvalid : Rules.validate payload next = .ok ())
    (hpayload : Codec.ReadsBack J payload)
    (hinitial : row.initial = none →
      Codec.ReadsBack J (⟨e.current.record.payload, e.current.state⟩ : InitialContent)) :
    DecodesTo J (nextRow J row e.current (Rules.advance e.current payload next))
      ⟨e.initial, Rules.advance e.current payload next⟩ where
  id := h.id
  session := h.session
  run := h.run
  sequence := h.sequence
  actor := h.actor
  reply := h.reply
  payload := hpayload
  source := h.source
  revision := rfl
  state := rfl
  valid := hvalid
  initial := by
    have hold := h.initial
    show DecodesInitial J (Rules.advance e.current payload next) e.initial
      (row.initial.or ((initialContent e.current).map (Codec.documentText J)))
    cases hrow : row.initial with
    | some text =>
      rw [hrow] at hold
      obtain ⟨content, hcontent, hv, heq⟩ := hold
      exact ⟨content, hcontent, hv, heq⟩
    | none =>
      -- the first update writes the content of the row it replaces
      rw [hrow] at hold
      obtain ⟨hrev, heq⟩ := hold
      have hcontent : initialContent e.current =
          some ⟨e.current.record.payload, e.current.state⟩ := by
        rw [initialContent, if_pos hrev]
      rw [hcontent]
      refine ⟨_, hinitial hrow, h.valid, ?_⟩
      rw [heq]
      show e.current = { e.current with revision := 0, state := e.current.state }
      rw [← hrev]

/-! ## Rows whose documents may not read back -/

/-- A row written for a new record reads as its draft, with the payload that reads back. -/
theorem newRow_reading (hJ : J.Lawful) {draft : Draft} {n : Nat} {e : Entry}
    (h : DecodesTo J (newRow J (Rules.created draft n)) e) :
    e.current.record.payload = draft.payload.readBack ∧ e.current.state = draft.state ∧
      e.current.revision = 0 ∧ e.initial = e.current ∧ e.current.record.id = draft.id := by
  have hpayload : Codec.decode J (Codec.documentText J draft.payload) =
      .ok e.current.record.payload := h.payload
  have hstate : stateName draft.state = stateName e.current.state := h.state
  have hrev : (0 : Int) = e.current.revision := h.revision
  have hid : draft.id.asStr = e.current.record.id.asStr := h.id
  refine ⟨?_, ?_, by omega, h.initial.2, (Identifier.asStr_inj.mp hid).symm⟩
  · rcases Codec.decode_payload hJ draft.payload with hread | ⟨error, herror⟩
    · rw [hpayload, Except.ok.injEq] at hread
      exact hread
    · rw [hpayload] at herror
      cases herror
  · have hparse := parseState_eq_ok.mpr hstate
    rw [parseState_eq_ok.mpr rfl, Except.ok.injEq] at hparse
    exact hparse.symm

/-- A row written for a new version reads as this version, with the payload that reads back. -/
theorem nextRow_reading (hJ : J.Lawful) {row : RowData Text} {old e : Entry}
    (hold : DecodesTo J row old) {payload : Payload} {next : RecordState}
    (h : DecodesTo J (nextRow J row old.current (Rules.advance old.current payload next)) e) :
    e.current = Rules.advance old.current payload.readBack next := by
  have hpayload : Codec.decode J (Codec.documentText J payload) = .ok e.current.record.payload :=
    h.payload
  have hread : e.current.record.payload = payload.readBack := by
    rcases Codec.decode_payload hJ payload with hread | ⟨error, herror⟩
    · rw [hpayload, Except.ok.injEq] at hread
      exact hread
    · rw [hpayload] at herror
      cases herror
  have hstate : e.current.state = next := by
    have hparse := parseState_eq_ok.mpr (show stateName next = stateName e.current.state from h.state)
    rw [parseState_eq_ok.mpr rfl, Except.ok.injEq] at hparse
    exact hparse.symm
  have hrevision : e.current.revision = old.current.revision + 1 := by
    have hrev : ((old.current.revision + 1 : Nat) : Int) = e.current.revision := h.revision
    omega
  have hsource : e.current.source = old.current.source := by
    have hs : transpose (Codec.decode J) row.source = .ok e.current.source := h.source
    rw [hold.source, Except.ok.injEq] at hs
    exact hs.symm
  have hid := Identifier.asStr_inj.mp (hold.id.symm.trans h.id)
  have hsession := Identifier.asStr_inj.mp (hold.session.symm.trans h.session)
  have hactor := Identifier.asStr_inj.mp (hold.actor.symm.trans h.actor)
  have hinj : Function.Injective (fun id : RunId => id.asStr) := fun _ _ => Identifier.asStr_inj.mp
  have hinj' : Function.Injective (fun id : RecordId => id.asStr) :=
    fun _ _ => Identifier.asStr_inj.mp
  have hrun := Option.map_injective hinj (hold.run.symm.trans h.run)
  have hreply := Option.map_injective hinj' (hold.reply.symm.trans h.reply)
  have hsequence : e.current.record.sequence = old.current.record.sequence := by
    have hs : (old.current.record.sequence : Int) = e.current.record.sequence :=
      hold.sequence.symm.trans h.sequence
    omega
  rcases e with ⟨initial, ⟨⟨id, session, run, sequence, actor, reply, body⟩, source, revision, state⟩⟩
  simp only at hread hstate hrevision hsource hid hsession hactor hrun hreply hsequence
  simp only [Rules.advance, Snapshot.mk.injEq, Record.mk.injEq]
  exact ⟨⟨hid.symm, hsession.symm, hrun.symm, hsequence, hactor.symm, hreply.symm, hread⟩, hsource,
    hrevision, hstate⟩

/-- The creation content of a row written for a new version: the one that the old row tells, or the
content of the old row itself, as it reads back. -/
theorem nextRow_initial (hJ : J.Lawful) {row : RowData Text} {old e : Entry} {new : Snapshot}
    (hold : DecodesTo J row old) (h : DecodesTo J (nextRow J row old.current new) e) :
    e.initial.record.payload = old.initial.record.payload ∨
      e.initial.record.payload = old.initial.record.payload.readBack := by
  have hinitial : DecodesInitial J e.current e.initial
      (row.initial.or ((initialContent old.current).map (Codec.documentText J))) := h.initial
  have hold' := hold.initial
  cases hrow : row.initial with
  | some text =>
    rw [hrow] at hinitial hold'
    obtain ⟨content, hcontent, -, heq⟩ := hinitial
    obtain ⟨content', hcontent', -, heq'⟩ := hold'
    rw [hcontent, Except.ok.injEq] at hcontent'
    left
    rw [heq, heq', hcontent']
    rfl
  | none =>
    rw [hrow] at hinitial hold'
    obtain ⟨hrev, heq'⟩ := hold'
    have hcontent : initialContent old.current =
        some ⟨old.current.record.payload, old.current.state⟩ := by
      rw [initialContent, if_pos hrev]
    rw [hcontent] at hinitial
    obtain ⟨content, hread, -, heq⟩ := hinitial
    right
    rw [heq, heq']
    rcases Codec.decode_initial hJ ⟨old.current.record.payload, old.current.state⟩ with
      hback | ⟨error, herror⟩
    · rw [hread, Except.ok.injEq] at hback
      rw [hback]
      rfl
    · rw [hread] at herror
      cases herror

/-! ## The records that read -/

def Db.read (J : SerdeJson Text) (db : Db Text) (record : RecordId) : Option Entry :=
  (entry J db record).toOption.join

theorem Db.read_eq_some {record : RecordId} {e : Entry} :
    db.read J record = some e ↔ entry J db record = .ok (some e) := by
  unfold Db.read
  rcases entry J db record with _ | _ | _ <;> simp [Except.toOption]

theorem Db.read_congr {record : RecordId}
    (h : entry J db' record = entry J db record) :
    db'.read J record = db.read J record := by
  unfold Db.read
  rw [h]

theorem Db.read_of_fresh {record : RecordId} (h : db.records.lookup record.asStr = none) :
    db.read J record = none := by
  unfold Db.read
  rw [entry_eq_none.mpr h]
  rfl

/-- What an update found is what it reads. -/
theorem Updates.read_eq {record : RecordId} {e : Entry} {row : RowData Text}
    {change : RecordChange} (h : Updates J db record e row change) :
    db.read J record = some e :=
  Db.read_eq_some.mpr (entry_eq_some.mpr ⟨row, h.found, h.decodes⟩)

/-! ## Reads after a mutation -/

theorem entry_afterInsert_ne {snapshot : Snapshot} {n : Int} {record : RecordId}
    (hne : record ≠ snapshot.record.id) :
    entry J (afterInsert J db snapshot n) record = entry J db record := by
  apply entry_congr
  rw [lookup_afterInsert, if_neg fun heq => hne (Identifier.asStr_inj.mp heq)]

theorem entry_afterUpdate_ne {row : RowData Text} {change : RecordChange} {old new : Snapshot}
    {record : RecordId} (hne : record ≠ old.record.id) :
    entry J (afterUpdate J db row change old new) record = entry J db record := by
  apply entry_congr
  rw [lookup_afterUpdate, if_neg fun heq => hne (Identifier.asStr_inj.mp heq)]

theorem entry_afterInsert_self {snapshot : Snapshot} {n : Int} {e : Entry} :
    entry J (afterInsert J db snapshot n) snapshot.record.id = .ok (some e) ↔
      DecodesTo J (newRow J snapshot) e := by
  rw [entry_eq_some, lookup_afterInsert, if_pos rfl]
  simp

theorem entry_afterUpdate_self {row : RowData Text} {change : RecordChange} {old new : Snapshot}
    {e : Entry} :
    entry J (afterUpdate J db row change old new) old.record.id = .ok (some e) ↔
      DecodesTo J (nextRow J row old new) e := by
  rw [entry_eq_some, lookup_afterUpdate, if_pos rfl]
  simp

end SqliteStore

end AgentBridge
