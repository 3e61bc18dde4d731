import AgentBridge.Records.Sqlite.Readings

/-!
# Databases whose records all read

A payload is written to a payload column, and once more into the creation content when the record's
first version is replaced.  Both parse back only below the recursion limit, and a present `null` of
a tool activity parses as an absent value.  As long as what calls commit can be stored, every
record reads as it was written.
-/

namespace AgentBridge

open Reasoning

/-- The payload reads back from a payload column. -/
def Payload.Stores (payload : Payload) : Prop :=
  payload.holdsNull = false ∧ payload.nesting + 3 < recursionLimit

/-- The payload reads back from the creation content, where it nests one level deeper. -/
def Payload.StoresInitially (payload : Payload) : Prop :=
  payload.holdsNull = false ∧ payload.nesting + 4 < recursionLimit

instance (payload : Payload) : Decidable payload.Stores := inferInstanceAs (Decidable (_ ∧ _))

instance (payload : Payload) : Decidable payload.StoresInitially :=
  inferInstanceAs (Decidable (_ ∧ _))

namespace SqliteStore

variable {Text : Type} {J : SerdeJson Text} {db db' : Db Text}

/-- What the call would commit can be stored: the payload of a new record, that of a new version,
and that of the version it replaces when this is the first one. -/
def Db.Storable (J : SerdeJson Text) (db : Db Text) {β : Type} : StoreCall β → Prop
  | .insert draft => ∀ next, Inserts J db draft next → draft.payload.Stores
  | .checkpoint record r payload next => ∀ e row change, Updates J db record e row change →
      Rules.Advances e.current r payload next →
        payload.Stores ∧ (e.current.revision = 0 → e.current.record.payload.StoresInitially)
  | _ => True

/-- Every row reads, as an entry whose payload is the one in its column. -/
def Db.Readable (J : SerdeJson Text) (db : Db Text) : Prop :=
  ∀ name row, db.records.lookup name = some row → ∃ e, DecodesTo J row e ∧
    row.payload = Codec.documentText J e.current.record.payload

theorem Db.Readable.empty (epoch : String) : (Db.empty Text epoch).Readable J := by
  intro name row h
  cases h

theorem Db.Readable.congr (h : db.Readable J) (hrecords : db'.records = db.records) :
    db'.Readable J := by
  intro name row hrow
  rw [hrecords] at hrow
  exact h name row hrow

theorem Db.Readable.stored (h : db.Readable J) {key : String} {row : RowData Text} {e : Entry}
    (hrows : ∀ name, db'.records.lookup name =
      if name = key then some row else db.records.lookup name)
    (hdecodes : DecodesTo J row e)
    (hpayload : row.payload = Codec.documentText J e.current.record.payload) : db'.Readable J := by
  intro name other hother
  rw [hrows] at hother
  split at hother
  · obtain rfl := Option.some.inj hother
    exact ⟨e, hdecodes, hpayload⟩
  · exact h name other hother

/-- There is nothing, or a version, at an id. -/
theorem Db.Readable.entry_ok (h : db.Readable J) (record : RecordId) :
    ∃ found, entry J db record = .ok found := by
  cases hrow : db.records.lookup record.asStr with
  | none => exact ⟨none, entry_eq_none.mpr hrow⟩
  | some row =>
    obtain ⟨e, hdecodes, -⟩ := h _ _ hrow
    exact ⟨some e, entry_eq_some.mpr ⟨row, hrow, hdecodes⟩⟩

/-- Rows all of which read decode in any page. -/
theorem decodeRows_ok {rows : List (RowData Text)}
    (h : ∀ row ∈ rows, ∃ e, DecodesTo J row e) : ∃ page, decodeRows J rows = .ok page := by
  induction rows with
  | nil => exact ⟨[], rfl⟩
  | cons row rows ih =>
    obtain ⟨e, he⟩ := h row List.mem_cons_self
    obtain ⟨page, hpage⟩ := ih fun other hother => h other (List.mem_cons_of_mem _ hother)
    exact ⟨e.current :: page, by simp only [decodeRows, decode_eq_ok.mpr he, ok_bind, hpage]⟩

theorem Db.Readable.selectRecords (h : db.Readable J) (session : String) (after : Int)
    (limit : Nat) : ∀ row ∈ db.selectRecords session after limit, ∃ e, DecodesTo J row e := by
  intro row hrow
  unfold Db.selectRecords at hrow
  have hmem := List.mem_of_mem_take hrow
  rw [List.mem_insertionSort, List.mem_filter, HashMap.mem_values_iff] at hmem
  obtain ⟨⟨name, hname⟩, -⟩ := hmem
  obtain ⟨e, he, -⟩ := h name row hname
  exact ⟨e, he⟩

section Lawful

variable (hJ : J.Lawful)

include hJ

theorem Db.Readable.afterInsert (h : db.Readable J) {draft : Draft} {n : Nat}
    (hp : Prepares J db draft n) (hn : (n : Int) < i64Max) (hstores : draft.payload.Stores) :
    (afterInsert J db (Rules.created draft n) n).Readable J :=
  h.stored (lookup_afterInsert (Rules.created draft n) n)
    (decodesTo_newRow hn hp.valid ((Codec.readsBack_payload_iff hJ draft.payload).mpr hstores)
      fun source _ => Codec.readsBack_sourceRef hJ source) rfl

theorem Updates.decodes_next {record : RecordId} {e : Entry} {row : RowData Text}
    {change : RecordChange} (hu : Updates J db record e row change) {payload : Payload}
    {next : RecordState} (hvalid : Rules.validate payload next = .ok ())
    (hstores : payload.Stores)
    (hinitial : e.current.revision = 0 → e.current.record.payload.StoresInitially) :
    DecodesTo J (nextRow J row e.current (Rules.advance e.current payload next))
      ⟨e.initial, Rules.advance e.current payload next⟩ := by
  apply decodesTo_nextRow hu.decodes hvalid ((Codec.readsBack_payload_iff hJ payload).mpr hstores)
  intro hnone
  have hfirst := hu.decodes.initial
  rw [hnone] at hfirst
  exact (Codec.readsBack_initial_iff hJ _).mpr (hinitial hfirst.1)

theorem Db.Readable.afterUpdate (h : db.Readable J) {record : RecordId} {e : Entry}
    {row : RowData Text} {change : RecordChange} (hu : Updates J db record e row change)
    {payload : Payload} {next : RecordState} (hvalid : Rules.validate payload next = .ok ())
    (hstores : payload.Stores)
    (hinitial : e.current.revision = 0 → e.current.record.payload.StoresInitially) :
    (afterUpdate J db row change e.current (Rules.advance e.current payload next)).Readable J :=
  h.stored (lookup_afterUpdate row change _ _) (hu.decodes_next hJ hvalid hstores hinitial) rfl

omit hJ in
theorem stores_of_isRequest {payload : Payload} (h : payload.isRequest = true) :
    payload.Stores ∧ payload.StoresInitially := by
  obtain ⟨hnull, hnesting⟩ := Payload.noJson_of_isRequest h
  unfold Payload.Stores Payload.StoresInitially
  rw [hnesting]
  exact ⟨⟨hnull, by decide⟩, hnull, by decide⟩

omit hJ in
theorem stores_of_isResponse {payload : Payload} (h : payload.isResponse = true) :
    payload.Stores := by
  obtain ⟨hnull, hnesting⟩ := Payload.noJson_of_isResponse h
  unfold Payload.Stores
  rw [hnesting]
  exact ⟨hnull, by decide⟩

theorem Db.Readable.afterResolve (h : db.Readable J) {request : RecordId} {r : Nat}
    {decision : Draft} {e : Entry} {row : RowData Text} {change : RecordChange} {next : Nat}
    (ha : Answers J db request r decision e row change next) :
    (afterResolve J db e row change request decision next).Readable J := by
  have hkinds := Rules.responseMatches_kinds ha.resolves.answers
  have hstores := stores_of_isRequest hkinds.1
  have hvalid : Rules.validate e.current.record.payload .complete = .ok () :=
    Rules.validate_request ha.updates.decodes.valid hkinds.1
  have hupdated := h.afterUpdate hJ ha.updates hvalid hstores.1 fun _ => hstores.2
  have hresponse := (Codec.readsBack_payload_iff hJ decision.payload).mpr
    (stores_of_isResponse hkinds.2)
  exact (hupdated.stored (lookup_afterInsert (Rules.created decision next) next)
    (decodesTo_newRow ha.bound ha.prepares.valid hresponse
      fun source _ => Codec.readsBack_sourceRef hJ source) rfl).congr rfl

theorem Db.Readable.call (hs : db.Sound) (h : db.Readable J) {β : Type} {c : StoreCall β}
    (hc : db.Storable J c) : (call J c db).2.Readable J := by
  cases hw : writesHistory c with
  | false => exact h.congr (call_quiet c hw).records
  | true =>
    cases c with
    | registerRun spec =>
      show (write (registerRun J spec) db).2.Readable J
      rcases registerRun_cases J spec db with ⟨e, he⟩ | ⟨-, he⟩ | ⟨-, -, -, -, he⟩
      · rw [he]
        exact h
      · rw [he]
        exact h
      · rw [he]
        exact h.congr rfl
    | insert draft =>
      show (write (SqliteStore.insert J draft) db).2.Readable J
      rcases insert_cases J draft db with ⟨e, he⟩ | ⟨e, -, -, he⟩ | ⟨next, hi, he⟩
      · rw [he]
        exact h
      · rw [he]
        exact h
      · rw [he]
        exact h.afterInsert hJ hi.prepares hi.bound (hc next hi)
    | checkpoint record r payload next =>
      show (write (checkpoint J record r payload next) db).2.Readable J
      rcases checkpoint_cases hs record r payload next with
        ⟨e, he⟩ | ⟨e, -, -, he⟩ | ⟨e, row, change, hu, hadv, he⟩
      · rw [he]
        exact h
      · rw [he]
        exact h
      · rw [he]
        obtain ⟨hstores, hinitial⟩ := hc e row change hu hadv
        exact h.afterUpdate hJ hu hadv.valid hstores hinitial
    | resolve request r decision =>
      show (write (resolve J request r decision) db).2.Readable J
      rcases resolve_cases hs request r decision with
        ⟨e, he⟩ | ⟨response, e, -, -, he⟩ | ⟨e, row, change, next, ha, he⟩
      · rw [he]
        exact h
      · rw [he]
        exact h
      · rw [he]
        exact h.afterResolve hJ ha
    | _ => cases hw

end Lawful

end SqliteStore

end AgentBridge
