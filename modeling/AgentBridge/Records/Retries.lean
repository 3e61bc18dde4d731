import AgentBridge.Records.Checkpoints
import AgentBridge.Records.Refinement.Relation
import Mathlib.Data.List.Infix

/-!
# Retried creations

The draft of a record is not stored: it is read from the row while this is at its first version, and
from the creation content after that.  The first update writes this content and no later one
changes it, so a draft can be recognised for ever, as long as the documents written read back.
-/

namespace AgentBridge

open Reasoning

namespace SqliteStore

variable {Text : Type} {J : SerdeJson Text} {db db' : Db Text}

/-! ## The creation content -/

/-- The creation content is there exactly when the first version has been replaced. -/
def Db.InitialKept (db : Db Text) : Prop :=
  ∀ name row, db.records.lookup name = some row → (row.initial = none ↔ row.revision = 0)

/-- Creation content that is there stays as it is. -/
def Db.InitialStays (db db' : Db Text) : Prop :=
  ∀ name row text, db.records.lookup name = some row → row.initial = some text →
    ∃ row', db'.records.lookup name = some row' ∧ row'.initial = some text

theorem Db.InitialStays.of_eq (h : db'.records = db.records) : db.InitialStays db' := by
  intro name row text hrow htext
  exact ⟨row, by rw [h, hrow], htext⟩

theorem Db.InitialStays.trans {a b c : Db Text} (h : a.InitialStays b) (h' : b.InitialStays c) :
    a.InitialStays c := by
  intro name row text hrow htext
  obtain ⟨row', hrow', htext'⟩ := h name row text hrow htext
  exact h' name row' text hrow' htext'

theorem Db.InitialStays.stored {key : String} {new : RowData Text}
    (hrows : ∀ name, db'.records.lookup name =
      if name = key then some new else db.records.lookup name)
    (hnew : ∀ row text, db.records.lookup key = some row → row.initial = some text →
      new.initial = some text) : db.InitialStays db' := by
  intro name row text hrow htext
  by_cases hname : name = key
  · rw [hname] at hrow
    exact ⟨new, by rw [hrows, if_pos hname], hnew row text hrow htext⟩
  · exact ⟨row, by rw [hrows, if_neg hname, hrow], htext⟩

theorem Db.InitialKept.stored (h : db.InitialKept) {key : String} {new : RowData Text}
    (hrows : ∀ name, db'.records.lookup name =
      if name = key then some new else db.records.lookup name)
    (hnew : new.initial = none ↔ new.revision = 0) : db'.InitialKept := by
  intro name row hrow
  rw [hrows] at hrow
  split at hrow
  · obtain rfl := Option.some.inj hrow
    exact hnew
  · exact h name row hrow

theorem nextRow_initial_eq {row : RowData Text} {old new : Snapshot} {text : Text}
    (h : row.initial = some text) : (nextRow J row old new).initial = some text := by
  show row.initial.or _ = some text
  rw [h]
  rfl

/-- An update leaves creation content behind. -/
theorem nextRow_initial_ne_none {row : RowData Text} {e : Entry} (h : DecodesTo J row e)
    (hkept : row.initial = none ↔ row.revision = 0) (new : Snapshot) :
    (nextRow J row e.current new).initial ≠ none := by
  show row.initial.or ((initialContent e.current).map (Codec.documentText J)) ≠ none
  cases hrow : row.initial with
  | some text => simp
  | none =>
    have hrev : (e.current.revision : Int) = 0 := by rw [← h.revision, hkept.mp hrow]
    have hcontent : initialContent e.current =
        some ⟨e.current.record.payload, e.current.state⟩ := by
      rw [initialContent, if_pos (by omega)]
    rw [hcontent]
    simp

theorem Db.InitialKept.afterInsert (h : db.InitialKept) (snapshot : Snapshot) (n : Int) :
    (afterInsert J db snapshot n).InitialKept := by
  apply h.stored (lookup_afterInsert snapshot n)
  exact ⟨fun _ => rfl, fun _ => rfl⟩

theorem Db.InitialKept.afterUpdate (h : db.InitialKept) {record : RecordId} {e : Entry}
    {row : RowData Text} {change : RecordChange} (hu : Updates J db record e row change)
    (payload : Payload) (next : RecordState) :
    (afterUpdate J db row change e.current (Rules.advance e.current payload next)).InitialKept := by
  apply h.stored (lookup_afterUpdate row change _ _)
  refine iff_of_false (nextRow_initial_ne_none hu.decodes (h _ row hu.found) _) ?_
  show ((e.current.revision + 1 : Nat) : Int) ≠ 0
  omega

theorem initialStays_afterInsert (snapshot : Snapshot) (n : Int)
    (hfresh : db.records.lookup snapshot.record.id.asStr = none) :
    db.InitialStays (afterInsert J db snapshot n) := by
  apply Db.InitialStays.stored (lookup_afterInsert snapshot n)
  intro row text hrow
  rw [hfresh] at hrow
  cases hrow

theorem initialStays_afterUpdate {record : RecordId} {e : Entry} {row : RowData Text}
    {change : RecordChange} (hu : Updates J db record e row change) (new : Snapshot) :
    db.InitialStays (afterUpdate J db row change e.current new) := by
  apply Db.InitialStays.stored (lookup_afterUpdate row change e.current new)
  intro row' text hrow' htext
  rw [hu.named, hu.found, Option.some.injEq] at hrow'
  subst hrow'
  exact nextRow_initial_eq htext

theorem Db.InitialKept.step (h : db.InitialKept) (hstep : db.HistoryStep J db') :
    db'.InitialKept := by
  cases hstep with
  | same hq =>
    intro name row hrow
    rw [hq.records] at hrow
    exact h name row hrow
  | register hfresh hcontext => exact h
  | insert hi => exact h.afterInsert _ _
  | advance hu hadv => exact h.afterUpdate hu _ _
  | @answer request r decision e row change next ha =>
    exact (h.afterUpdate ha.updates _ _).afterInsert (Rules.created decision next) next

theorem Db.HistoryStep.initialStays (h : db.HistoryStep J db') : db.InitialStays db' := by
  cases h with
  | same hq => exact .of_eq hq.records
  | register hfresh hcontext => exact .of_eq rfl
  | insert hi => exact initialStays_afterInsert _ _ hi.inserts.fresh
  | advance hu hadv => exact initialStays_afterUpdate hu _
  | @answer request r decision e row change next ha =>
    have hinserted := initialStays_afterInsert (J := J) (Rules.created decision next) next
      ha.inserts.fresh
    exact (initialStays_afterUpdate ha.updates _).trans hinserted

/-! ## The draft of a record -/

/-- The records of a database read, and are known by their drafts. -/
structure Db.Drafted (J : SerdeJson Text) (db : Db Text) : Prop where
  sound : db.Sound
  readable : db.Readable J
  initial : db.InitialKept

theorem DecodesTo.initial_id {row : RowData Text} {e : Entry} (h : DecodesTo J row e) :
    e.initial.record.id = e.current.record.id := by
  have hinitial := h.initial
  cases hrow : row.initial with
  | none =>
    rw [hrow] at hinitial
    rw [hinitial.2]
  | some text =>
    rw [hrow] at hinitial
    obtain ⟨content, -, -, heq⟩ := hinitial
    rw [heq]
    rfl

/-- The record is there, and this is the draft that it was created with. -/
def Db.HasDraft (J : SerdeJson Text) (db : Db Text) (draft : Draft) : Prop :=
  ∃ e, entry J db draft.id = .ok (some e) ∧ Rules.draftOf e.initial = draft

/-- The drafts and responses of a database stay. -/
structure Db.DraftsStay (J : SerdeJson Text) (db db' : Db Text) : Prop where
  drafts : ∀ draft, db.HasDraft J draft → db'.HasDraft J draft
  decisions : ∀ request response, db.decisions.lookup request = some response →
    db'.decisions.lookup request = some response
  initial : db.InitialStays db'

theorem Db.DraftsStay.refl (db : Db Text) : db.DraftsStay J db :=
  ⟨fun _ h => h, fun _ _ h => h, .of_eq rfl⟩

theorem Db.DraftsStay.trans {a b c : Db Text} (h : a.DraftsStay J b) (h' : b.DraftsStay J c) :
    a.DraftsStay J c :=
  ⟨fun draft hd => h'.drafts draft (h.drafts draft hd),
    fun request response hd => h'.decisions request response (h.decisions request response hd),
    h.initial.trans h'.initial⟩

theorem Db.HasDraft.congr {draft : Draft} (h : db.HasDraft J draft)
    (hsame : db'.records.lookup draft.id.asStr = db.records.lookup draft.id.asStr) :
    db'.HasDraft J draft := by
  obtain ⟨e, he, hdraft⟩ := h
  exact ⟨e, by rw [entry_congr hsame, he], hdraft⟩

section Documents

theorem newRow_decodes {draft : Draft} {n : Nat} (hp : Prepares J db draft n)
    (hn : (n : Int) < i64Max)
    (hdocs : Db.ReadsBack J (afterInsert J db (Rules.created draft n) n)) :
    DecodesTo J (newRow J (Rules.created draft n))
      ⟨Rules.created draft n, Rules.created draft n⟩ := by
  have hread : ∀ doc ∈ newDocs (Rules.created draft n), doc.ReadsBack J :=
    fun doc hdoc => hdocs doc (List.mem_append_left _ hdoc)
  apply decodesTo_newRow hn hp.valid
  · exact hread (.payload draft.payload) List.mem_cons_self
  · intro source hsource
    refine hread (.source source) (List.mem_cons_of_mem _ ?_)
    show Document.source source ∈ (draft.source.map Document.source).toList
    rw [hsource]
    exact List.mem_singleton.mpr rfl

theorem nextRow_decodes {record : RecordId} {e : Entry} {row : RowData Text}
    {change : RecordChange} (hu : Updates J db record e row change) {payload : Payload}
    {next : RecordState} (hvalid : Rules.validate payload next = .ok ())
    (hdocs : ∀ doc ∈ updateDocs e.current (Rules.advance e.current payload next),
      doc.ReadsBack J) :
    DecodesTo J (nextRow J row e.current (Rules.advance e.current payload next))
      ⟨e.initial, Rules.advance e.current payload next⟩ := by
  apply decodesTo_nextRow hu.decodes hvalid
  · exact hdocs (.payload payload) List.mem_cons_self
  · intro hnone
    have hfirst := hu.decodes.initial
    rw [hnone] at hfirst
    refine hdocs (.initial ⟨e.current.record.payload, e.current.state⟩)
      (List.mem_cons_of_mem _ ?_)
    rw [initialContent, if_pos hfirst.1]
    exact List.mem_singleton.mpr rfl

/-- A record is created. -/
theorem draftsStay_afterInsert {draft : Draft} {n : Nat}
    (hfresh : db.records.lookup draft.id.asStr = none) :
    ∀ other, db.HasDraft J other →
      (afterInsert J db (Rules.created draft n) n).HasDraft J other := by
  intro other hother
  apply hother.congr
  rw [lookup_afterInsert, if_neg]
  intro heq
  obtain ⟨e, he, -⟩ := hother
  obtain ⟨row, hrow, -⟩ := entry_eq_some.mp he
  rw [heq] at hrow
  have hfresh' := hfresh.symm.trans hrow
  cases hfresh'

/-- A record is updated. -/
theorem draftsStay_afterUpdate {record : RecordId} {e : Entry} {row : RowData Text}
    {change : RecordChange} (hu : Updates J db record e row change) {payload : Payload}
    {next : RecordState}
    (hdecodes : DecodesTo J (nextRow J row e.current (Rules.advance e.current payload next))
      ⟨e.initial, Rules.advance e.current payload next⟩) :
    ∀ draft, db.HasDraft J draft →
      (afterUpdate J db row change e.current
        (Rules.advance e.current payload next)).HasDraft J draft := by
  intro draft hdraft
  by_cases hid : draft.id = record
  · obtain ⟨e', he', hsame⟩ := hdraft
    have hread := hu.read_eq
    rw [Db.read_eq_some, ← hid, he', Except.ok.injEq, Option.some.injEq] at hread
    subst hread
    have hentry := (@entry_afterUpdate_self _ J db row change _ _ _).mpr hdecodes
    rw [hu.named, ← hid] at hentry
    exact ⟨_, hentry, hsame⟩
  · apply hdraft.congr
    rw [lookup_afterUpdate, if_neg]
    intro heq
    exact hid ((Identifier.asStr_inj.mp heq).trans hu.named)

end Documents

/-- One call, when what it has written reads back. -/
theorem Db.Drafted.step (h : db.Drafted J) (hstep : db.HistoryStep J db')
    (hdocs : Db.ReadsBack J db') : db'.Drafted J ∧ db.DraftsStay J db' := by
  have hsound := h.sound.step hstep
  have hinitial := h.initial.step hstep
  have hstays := hstep.initialStays
  cases hstep with
  | same hq =>
    refine ⟨⟨hsound, h.readable.congr hq.records, hinitial⟩, ⟨?_, ?_, hstays⟩⟩
    · exact fun draft hd => hd.congr (by rw [hq.records])
    · intro request response hd
      rw [hq.decisions, hd]
  | register hfresh hcontext =>
    exact ⟨⟨hsound, h.readable.congr rfl, hinitial⟩,
      ⟨fun draft hd => hd.congr rfl, fun _ _ hd => hd, hstays⟩⟩
  | @insert draft next hi =>
    have hdecodes := newRow_decodes hi.prepares hi.bound hdocs
    have hreadable := h.readable.stored (lookup_afterInsert (Rules.created draft next) next)
      hdecodes rfl
    exact ⟨⟨hsound, hreadable, hinitial⟩,
      ⟨draftsStay_afterInsert hi.inserts.fresh, fun _ _ hd => hd, hstays⟩⟩
  | @advance record e row change r payload next hu hadv =>
    have hdecodes := nextRow_decodes hu hadv.valid fun doc hdoc =>
      hdocs doc (List.mem_append_left _ hdoc)
    have hreadable := h.readable.stored (lookup_afterUpdate row change e.current _) hdecodes rfl
    exact ⟨⟨hsound, hreadable, hinitial⟩,
      ⟨draftsStay_afterUpdate hu hdecodes, fun _ _ hd => hd, hstays⟩⟩
  | @answer request r decision e row change next ha =>
    have hkinds := Rules.responseMatches_kinds ha.resolves.answers
    have hvalid : Rules.validate e.current.record.payload .complete = .ok () :=
      Rules.validate_request ha.updates.decodes.valid hkinds.1
    have hupdate := nextRow_decodes ha.updates hvalid fun doc hdoc =>
      hdocs doc (List.mem_append_right _ (List.mem_append_left _ hdoc))
    have hinsert := newRow_decodes ha.prepares ha.bound fun doc hdoc => by
      rcases List.mem_append.mp hdoc with hdoc | hdoc
      · exact hdocs doc (List.mem_append_left _ hdoc)
      · exact hdocs doc (List.mem_append_right _ (List.mem_append_right _ hdoc))
    have hupdated := h.readable.stored
      (lookup_afterUpdate (J := J) row change e.current (Rules.advance e.current _ .complete))
      hupdate rfl
    have hinserted := hupdated.stored (lookup_afterInsert (Rules.created decision next) next)
      hinsert rfl
    refine ⟨⟨hsound, hinserted.congr rfl, hinitial⟩, ⟨?_, ?_, hstays⟩⟩
    · intro draft hd
      have hfirst := draftsStay_afterUpdate ha.updates hupdate draft hd
      have hsecond := draftsStay_afterInsert (n := next) ha.inserts.fresh draft hfirst
      exact hsecond.congr rfl
    · intro q response hd
      refine (HashMap.lookup_insert_eq _ _ _ _).trans ((if_neg ?_).trans hd)
      intro heq
      rw [heq, ha.unresolved] at hd
      cases hd

theorem Db.Drafted.empty (epoch : String) : (Db.empty Text epoch).Drafted J :=
  ⟨.empty epoch, .empty epoch, fun _ _ h => by cases h⟩

/-- The documents of every state of the run read back. -/
def DocumentsReadBack (J : SerdeJson Text) (start : Db Text) (ops : List StoreOp) : Prop :=
  ∀ pre, pre <+: ops → Db.ReadsBack J ((machine J).after pre start)

theorem DocumentsReadBack.tail {op : StoreOp} {ops : List StoreOp}
    (h : DocumentsReadBack J db (op :: ops)) :
    DocumentsReadBack J ((machine J).exec op.call db).2 ops :=
  fun pre hpre => h (op :: pre) (List.cons_prefix_cons.mpr ⟨rfl, hpre⟩)

theorem Db.Drafted.after (h : db.Drafted J) {ops : List StoreOp}
    (hdocs : DocumentsReadBack J db ops) :
    ((machine J).after ops db).Drafted J ∧ db.DraftsStay J ((machine J).after ops db) := by
  induction ops generalizing db with
  | nil => exact ⟨h, .refl db⟩
  | cons op ops ih =>
    obtain ⟨hnext, hstay⟩ := h.step (call_step (J := J) h.sound op.call) (hdocs [op] ⟨ops, rfl⟩)
    obtain ⟨hlast, hrest⟩ := ih hnext hdocs.tail
    exact ⟨hlast, hstay.trans hrest⟩

/-! ## Retries -/

theorem Db.HasDraft.unique {draft : Draft} {e : Entry} (h : db.HasDraft J draft)
    (he : entry J db draft.id = .ok (some e)) : Rules.draftOf e.initial = draft := by
  obtain ⟨e', he', hdraft⟩ := h
  rw [he, Except.ok.injEq, Option.some.injEq] at he'
  rw [he', hdraft]

/-- A repeated draft names the record that it is compared with. -/
theorem Repeats.id_eq (hs : db.Sound) {draft : Draft} {record : RecordId} {e : Entry}
    (h : Repeats J db draft record e) : draft.id = record := by
  obtain ⟨row, -, hdecodes, hnamed, -⟩ := hs.entry_row h.found
  have hid : e.initial.record.id = draft.id := congrArg Draft.id h.same
  rw [← hid, hdecodes.initial_id, hnamed]

/-- After a successful insert the draft is known. -/
theorem hasDraft_of_insert {draft : Draft} {s : Snapshot}
    (hdocs : Db.ReadsBack J (write (insert J draft) db).2)
    (h : (write (insert J draft) db).1 = .ok s) :
    draft.payload.isResponse = false ∧ (write (insert J draft) db).2.HasDraft J draft := by
  rcases insert_cases J draft db with ⟨e, he⟩ | ⟨e, hresponse, hrepeats, he⟩ | ⟨next, hi, he⟩
  · rw [he] at h
    cases h
  · rw [he]
    exact ⟨hresponse, e, hrepeats.found, hrepeats.same⟩
  · rw [he] at hdocs ⊢
    have hdecodes := newRow_decodes hi.prepares hi.bound hdocs
    exact ⟨hi.notResponse, _, entry_afterInsert_self.mpr hdecodes, rfl⟩

/-- After a successful resolve the response is known, and linked. -/
theorem hasDraft_of_resolve (hs : db.Sound) {request : RecordId} {r : Nat} {decision : Draft}
    {s : Snapshot} (hdocs : Db.ReadsBack J (write (resolve J request r decision) db).2)
    (h : (write (resolve J request r decision) db).1 = .ok s) :
    (write (resolve J request r decision) db).2.HasDraft J decision ∧
      (write (resolve J request r decision) db).2.decisions.lookup request.asStr =
        some decision.id.asStr := by
  rcases resolve_cases hs request r decision with
    ⟨e, he⟩ | ⟨response, e, hlinked, hrepeats, he⟩ | ⟨e, row, change, next, ha, he⟩
  · rw [he] at h
    cases h
  · rw [he]
    have hid := hrepeats.id_eq hs
    exact ⟨⟨e, by rw [hid]; exact hrepeats.found, hrepeats.same⟩, by rw [hid]; exact hlinked⟩
  · rw [he] at hdocs ⊢
    have hdecodes := newRow_decodes ha.prepares ha.bound fun doc hdoc => by
      rcases List.mem_append.mp hdoc with hdoc | hdoc
      · exact hdocs doc (List.mem_append_left _ hdoc)
      · exact hdocs doc (List.mem_append_right _ (List.mem_append_right _ hdoc))
    have hentry := (@entry_afterInsert_self _ J (SqliteStore.afterUpdate J db row change e.current
      (Rules.advance e.current e.current.record.payload .complete)) _ next _).mpr hdecodes
    refine ⟨⟨⟨Rules.created decision next, Rules.created decision next⟩, ?_, rfl⟩,
      (HashMap.lookup_insert_eq _ _ _ _).trans (if_pos rfl)⟩
    rw [← hentry]
    exact entry_congr rfl

/-- What reusing the id of a draft does: the same draft is a retry, another one is rejected. -/
structure IdReserved (J : SerdeJson Text) (db : Db Text) (draft : Draft) : Prop where
  /-- The row reads, and its creation snapshot is the draft. -/
  created : ∃ row e, db.records.lookup draft.id.asStr = some row ∧ row.decode J = .ok e ∧
    Rules.draftOf e.initial = draft ∧ (row.initial = none ↔ row.revision = 0)
  insertOther : ∀ other : Draft, other.id = draft.id → other ≠ draft →
    ∃ error, write (insert J other) db = (.error error, db)
  resolveOther : ∀ (request : RecordId) (r : Nat) (other : Draft), other.id = draft.id →
    other ≠ draft → ∃ error, write (resolve J request r other) db = (.error error, db)

theorem Db.Drafted.idReserved (h : db.Drafted J) {draft : Draft} (hd : db.HasDraft J draft) :
    IdReserved J db draft := by
  have hfound : ∃ row, db.records.lookup draft.id.asStr = some row := by
    obtain ⟨e, he, -⟩ := hd
    obtain ⟨row, hrow, -⟩ := entry_eq_some.mp he
    exact ⟨row, hrow⟩
  -- a repeated draft with this id is the draft
  have hunique : ∀ (other : Draft) (record : RecordId) (e : Entry), other.id = draft.id →
      Repeats J db other record e → other = draft := by
    intro other record e hid hrepeats
    have hrecord := hrepeats.id_eq h.sound
    have he : entry J db draft.id = .ok (some e) := by
      rw [← hid, hrecord]
      exact hrepeats.found
    rw [← hd.unique he, hrepeats.same]
  constructor
  case created =>
    obtain ⟨e, he, hdraft⟩ := hd
    obtain ⟨row, hrow, hdecodes⟩ := entry_eq_some.mp he
    exact ⟨row, e, hrow, decode_eq_ok.mpr hdecodes, hdraft, h.initial _ row hrow⟩
  case insertOther =>
    intro other hid hne
    rcases insert_cases J other db with herror | ⟨e, -, hrepeats, -⟩ | ⟨next, hi, -⟩
    · exact herror
    · exact absurd (hunique other _ e hid hrepeats) hne
    · obtain ⟨row, hrow⟩ := hfound
      have hfresh : db.records.lookup other.id.asStr = none := hi.inserts.fresh
      rw [hid, hrow] at hfresh
      cases hfresh
  case resolveOther =>
    intro request r other hid hne
    rcases resolve_cases h.sound request r other with
      herror | ⟨response, e, -, hrepeats, -⟩ | ⟨e, row, change, next, ha, -⟩
    · exact herror
    · exact absurd (hunique other _ e hid hrepeats) hne
    · obtain ⟨row, hrow⟩ := hfound
      have hfresh := ha.fresh
      rw [hid, hrow] at hfresh
      cases hfresh

theorem insert_again {draft : Draft} (hresponse : draft.payload.isResponse = false)
    (hd : db.HasDraft J draft) :
    ∃ s, get J draft.id db = .ok s ∧ write (insert J draft) db = (.ok s, db) := by
  obtain ⟨e, he, hdraft⟩ := hd
  have hsame : Rules.sameDraft e.initial draft = true := Rules.sameDraft_iff.mpr hdraft
  refine ⟨e.current, by simp only [get, he, ok_bind], write_ok ?_⟩
  simp only [insert, hresponse, Bool.false_eq_true, ↓reduceIte, he, ok_bind, hsame]

theorem resolve_again {request : RecordId} {decision : Draft} (hd : db.HasDraft J decision)
    (hlinked : db.decisions.lookup request.asStr = some decision.id.asStr) (r : Nat) :
    ∃ s, get J decision.id db = .ok s ∧
      write (resolve J request r decision) db = (.ok s, db) := by
  obtain ⟨e, he, hdraft⟩ := hd
  have hsame : Rules.sameDraft e.initial decision = true := Rules.sameDraft_iff.mpr hdraft
  have hid : SqliteStore.id decision.id.asStr = .ok decision.id := id_eq_ok.mpr rfl
  refine ⟨e.current, by simp only [get, he, ok_bind], write_ok ?_⟩
  simp only [resolve, hlinked, hid, ok_bind, he, hsame, ↓reduceIte]

/-- A request that is answered rejects every other response. -/
theorem resolve_other (h : db.Drafted J) {request : RecordId} {decision : Draft}
    (hd : db.HasDraft J decision)
    (hlinked : db.decisions.lookup request.asStr = some decision.id.asStr) (r : Nat) {other : Draft}
    (hne : other ≠ decision) : ∃ error, write (resolve J request r other) db = (.error error, db) := by
  rcases resolve_cases h.sound request r other with
    herror | ⟨response, e, hlinked', hrepeats, -⟩ | ⟨e, row, change, next, ha, -⟩
  · exact herror
  · rw [hlinked, Option.some.injEq] at hlinked'
    have hresponse := Identifier.asStr_inj.mp hlinked'
    have he := hrepeats.found
    rw [← hresponse] at he
    exact absurd (hrepeats.same.symm.trans (hd.unique he)) hne
  · have hunresolved := ha.unresolved
    rw [hlinked] at hunresolved
    cases hunresolved

end SqliteStore

open SqliteStore in
/-- In every run of the SQLite store whose documents read back, and for every insert or resolve in it
that has succeeded: at the end of the run the record is known by its draft, the same call again
answers its current snapshot, and any other draft for the same record or request is rejected; neither
changes anything.  Creation content that is there is never changed. -/
theorem creation_retries_are_idempotent {Text : Type} (J : SerdeJson Text) (epoch : String)
    (pre post : List StoreOp) (op : StoreOp) (db db' : Db Text)
    (hdocs : DocumentsReadBack J (Db.empty Text epoch) (pre ++ op :: post))
    (hdb : db = (machine J).after pre (Db.empty Text epoch))
    (hdb' : db' = (machine J).after (pre ++ op :: post) (Db.empty Text epoch)) :
    (∀ (draft : Draft) (s : Snapshot), op = ⟨.insert draft⟩ →
      (write (insert J draft) db).1 = .ok s →
        IdReserved J db' draft ∧
        ∃ s', get J draft.id db' = .ok s' ∧ write (insert J draft) db' = (.ok s', db')) ∧
    (∀ (request : RecordId) (r : Nat) (decision : Draft) (s : Snapshot),
      op = ⟨.resolve request r decision⟩ → (write (resolve J request r decision) db).1 = .ok s →
        IdReserved J db' decision ∧
        (∀ r', ∃ s', get J decision.id db' = .ok s' ∧
          write (resolve J request r' decision) db' = (.ok s', db')) ∧
        ∀ r' other, other ≠ decision →
          ∃ error, write (resolve J request r' other) db' = (.error error, db')) ∧
    db.InitialStays db' := by
  have hfront : ∀ {part}, part <+: pre ++ op :: post →
      Db.ReadsBack J ((machine J).after part (Db.empty Text epoch)) := fun h => hdocs _ h
  have hpre := ((Db.Drafted.empty (J := J) epoch).after fun part hpart =>
    hdocs part (hpart.trans (List.prefix_append _ _))).1
  rw [← hdb] at hpre
  have hlast : db' = (machine J).after post ((machine J).exec op.call db).2 := by
    rw [hdb', Machine.after_append, ← hdb]
    rfl
  have hnextDocs : Db.ReadsBack J (call J op.call db).2 := by
    have h := hfront ⟨post, List.append_assoc pre [op] post⟩
    rwa [Machine.after_append, ← hdb] at h
  have hpostDocs : DocumentsReadBack J ((machine J).exec op.call db).2 post := by
    intro part hpart
    have h := hfront ((List.prefix_append_right_inj pre).mpr
      (List.cons_prefix_cons.mpr ⟨rfl, hpart⟩))
    rw [Machine.after_append, ← hdb] at h
    exact h
  obtain ⟨hnext, hstay⟩ := hpre.step (call_step (J := J) hpre.sound op.call) hnextDocs
  obtain ⟨hend, hrest⟩ := hnext.after hpostDocs
  have hend' : ((machine J).after post ((machine J).exec op.call db).2).Drafted J := hend
  have hrest' : (call J op.call db).2.DraftsStay J
      ((machine J).after post ((machine J).exec op.call db).2) := hrest
  rw [← hlast] at hend' hrest'
  refine ⟨?_, ?_, (hstay.trans hrest').initial⟩
  · rintro draft s rfl hok
    obtain ⟨hresponse, hd⟩ := hasDraft_of_insert hnextDocs hok
    have hd' := hrest'.drafts draft hd
    exact ⟨hend'.idReserved hd', insert_again hresponse hd'⟩
  · rintro request r decision s rfl hok
    obtain ⟨hd, hlinked⟩ := hasDraft_of_resolve hpre.sound hnextDocs hok
    have hd' := hrest'.drafts decision hd
    have hlinked' := hrest'.decisions _ _ hlinked
    exact ⟨hend'.idReserved hd', resolve_again hd' hlinked',
      fun r' other hne => resolve_other hend' hd' hlinked' r' hne⟩

/-- The documents of the listing, before and after it gets its input. -/
theorem Sample.inputOps_readBack :
    SqliteStore.DocumentsReadBack SerdeJson.tree (SqliteStore.Db.empty Json "epoch")
      Sample.inputOps := by
  have hpayload : ∀ input ∈ [none, some Sample.path],
      (Document.payload (Sample.activity input)).ReadsBack SerdeJson.tree := by
    intro input hinput
    apply (Codec.readsBack_payload_iff SerdeJson.tree_lawful _).mpr
    revert input
    decide
  have hinitial : (Document.initial ⟨Sample.activity none, .opened⟩).ReadsBack SerdeJson.tree :=
    (Codec.readsBack_initial_iff SerdeJson.tree_lawful _).mpr (by decide)
  intro part hpart
  have hmem : part ∈ Sample.inputOps.inits := (List.mem_inits _ _).mpr hpart
  have hinits : Sample.inputOps.inits =
      [[], [⟨.createSession Sample.session⟩], Sample.listingOps, Sample.inputOps] := rfl
  rw [hinits] at hmem
  simp only [List.mem_cons, List.not_mem_nil, or_false] at hmem
  rcases hmem with rfl | rfl | rfl | rfl
  · exact fun d hd => by cases hd
  · exact fun d hd => by cases hd
  · intro d hd
    have hwritten : d ∈ [Document.payload (Sample.activity none)] := hd
    rw [List.mem_singleton.mp hwritten]
    exact hpayload none (by decide)
  · intro d hd
    have hwritten : d ∈ [Document.payload (Sample.activity (some Sample.path)),
        Document.initial ⟨Sample.activity none, .opened⟩,
        Document.payload (Sample.activity none)] := hd
    simp only [List.mem_cons, List.not_mem_nil, or_false] at hwritten
    rcases hwritten with rfl | rfl | rfl
    · exact hpayload _ (by decide)
    · exact hinitial
    · exact hpayload none (by decide)

/-- The listing inserted again, after it got its input, is answered as it is. -/
theorem listing_is_inserted_once :
    ∃ s', SqliteStore.get SerdeJson.tree Sample.listing
        ((SqliteStore.machine SerdeJson.tree).after Sample.inputOps
          (SqliteStore.Db.empty Json "epoch")) = .ok s' ∧
      SqliteStore.write (SqliteStore.insert SerdeJson.tree Sample.listingDraft)
          ((SqliteStore.machine SerdeJson.tree).after Sample.inputOps
            (SqliteStore.Db.empty Json "epoch")) =
        (.ok s', (SqliteStore.machine SerdeJson.tree).after Sample.inputOps
          (SqliteStore.Db.empty Json "epoch")) :=
  ((creation_retries_are_idempotent SerdeJson.tree "epoch" [⟨.createSession Sample.session⟩]
    [⟨.checkpoint Sample.listing 0 (Sample.activity (some Sample.path)) .opened⟩]
    ⟨.insert Sample.listingDraft⟩ _ _ Sample.inputOps_readBack rfl rfl).1
      Sample.listingDraft _ rfl rfl).2

end AgentBridge
