import AgentBridge.Reasoning.Feed
import AgentBridge.Records.Sqlite.Readings

/-!
# The change feed of the SQLite store

Every write of a record moves the change clock and gives the record its position, so a session is a
feed of its rows.  `snapshot_page` scans them by sequence and `changes` by position; each page is one
transaction.
-/

namespace AgentBridge

open Reasoning

/-- Position in one database's coalesced record changes, scoped to one session. -/
structure ChangeCursor where
  epoch : String
  sessionId : SessionId
  position : Nat
deriving DecidableEq

structure StatePage where
  records : List Snapshot
  cursor : ChangeCursor
  nextAfter : Option Nat
  pageFull : Bool

/-- The records of a page, by id. -/
def StatePage.rows (page : StatePage) : List (RecordId × Snapshot) :=
  page.records.map fun s => (s.record.id, s)

namespace SqliteStore

variable {Text : Type}

def clock (db : Db Text) (session : SessionId) : Except StoreError ChangeCursor := do
  let _ ← sessionSequence db session
  let position ← number db.changeClock.position
  .ok { epoch := db.changeClock.epoch, sessionId := session, position }

/-- `validate` of `changes.rs`. -/
def validateCursor (cursor head : ChangeCursor) : Except StoreError Unit :=
  if cursor.epoch ≠ head.epoch ∨ cursor.sessionId ≠ head.sessionId ∨
      head.position < cursor.position then
    .error .invalidChangeCursor
  else .ok ()

/-- `agent_bridge_records r JOIN agent_bridge_record_changes c ON c.record_id = r.id
WHERE c.session_id = ?1`, with the columns of the row and the position. -/
def Db.sessionChanges (db : Db Text) (session : String) : List (RowData Text × Int) :=
  db.recordChanges.entries.filterMap fun e =>
    if e.2.session = session then (db.records.lookup e.1).map fun row => (row, e.2.position)
    else none

/-- `AND c.position > ?2 ORDER BY c.position LIMIT ?3` of these. -/
def Db.selectChanges (db : Db Text) (session : String) (after : Int) (limit : Nat) :
    List (RowData Text × Int) :=
  selectAfter (·.2) (db.sessionChanges session) after limit

variable (J : SerdeJson Text)

def decodeChanges : List (RowData Text × Int) → Except StoreError (List (Snapshot × Nat))
  | [] => .ok []
  | (row, position) :: rows => do
      let existing ← row.decode J
      let position ← number position
      let rest ← decodeChanges rows
      .ok ((existing.current, position) :: rest)

/-- The cursor that a scan keeps: the given one, or the head. -/
def scanCursor (head : ChangeCursor) : Option ChangeCursor → Except StoreError ChangeCursor
  | some cursor => do
      validateCursor cursor head
      .ok cursor
  | none => .ok head

def scanAfter : Option Nat → Except StoreError Int
  | none => .ok (-1)
  | some after =>
      match tryI64 after with
      | some after => .ok after
      | none => .error .invalidChangeCursor

def snapshotPage (session : SessionId) (cursor : Option ChangeCursor) (after : Option Nat)
    (limit : Nat) (db : Db Text) : Except StoreError StatePage :=
  if limit < 1 ∨ 1000 < limit then .error .invalidPageSize
  else if after.isSome ∧ cursor.isNone then .error .invalidChangeCursor
  else do
    let head ← clock db session
    let cursor ← scanCursor head cursor
    let after ← scanAfter after
    let records ← decodeRows J (db.selectRecords session.asStr after limit)
    .ok {
      nextAfter := records.getLast?.map (·.record.sequence)
      pageFull := records.length == limit
      records, cursor }

/-- The position of a page of changes: `rows.last().unwrap()` of a full one. -/
def pagePosition (rows : List (Snapshot × Nat)) (limit : Nat) (head : ChangeCursor) :
    Except Fault Nat :=
  if rows.length = limit then
    match rows.getLast? with
    | some last => .ok last.2
    | none => .error .panic
  else .ok head.position

def changes (cursor : ChangeCursor) (limit : Nat) (db : Db Text) : Except Fault StatePage :=
  if limit < 1 ∨ 1000 < limit then .error (.error .invalidPageSize)
  else do
    let head ← orFault (clock db cursor.sessionId)
    orFault (validateCursor cursor head)
    let rows ← orFault
      (decodeChanges J (db.selectChanges cursor.sessionId.asStr (asI64 cursor.position) limit))
    let position ← pagePosition rows limit head
    .ok {
      records := rows.map (·.1)
      cursor := { head with position }
      nextAfter := none
      pageFull := rows.length == limit }

/-! ## A session as a feed -/

variable {J} {db db' : Db Text}

/-- How a row is read: as the current snapshot of what it decodes to. -/
def reading (J : SerdeJson Text) : Reading (RowData Text) Snapshot Int where
  Reads row s := ∃ e, DecodesTo J row e ∧ e.current = s
  revision row := row.revision
  version s := s.revision
  functional := by
    rintro row s s' ⟨e, he, rfl⟩ ⟨e', he', rfl⟩
    have heq := (decode_eq_ok.mpr he).symm.trans (decode_eq_ok.mpr he')
    rw [Except.ok.inj heq]
  version_eq := by
    rintro row s ⟨e, he, rfl⟩
    exact he.revision.symm

/-- The row of a session's record and the position of its last change. -/
def Db.changedRow (db : Db Text) (session : SessionId) (id : RecordId) :
    Option (RowData Text × Int) := do
  let row ← db.records.lookup id.asStr
  let change ← db.recordChanges.lookup id.asStr
  if row.session = session.asStr then some (row, change.position) else none

theorem Db.changedRow_eq_some {session : SessionId} {id : RecordId} {row : RowData Text}
    {position : Int} :
    db.changedRow session id = some (row, position) ↔
      db.records.lookup id.asStr = some row ∧ row.session = session.asStr ∧
        ∃ change, db.recordChanges.lookup id.asStr = some change ∧ change.position = position := by
  unfold Db.changedRow
  cases hrow : db.records.lookup id.asStr with
  | none => simp
  | some found =>
    cases hchange : db.recordChanges.lookup id.asStr with
    | none => simp
    | some change =>
      by_cases hsession : found.session = session.asStr
      · simp only [Option.bind_eq_bind, Option.bind_some, hsession, ↓reduceIte, Option.some.injEq,
          Prod.mk.injEq]
        constructor
        · rintro ⟨rfl, rfl⟩
          exact ⟨rfl, hsession, change, rfl, rfl⟩
        · rintro ⟨rfl, -, _, rfl, rfl⟩
          exact ⟨rfl, rfl⟩
      · simp only [Option.bind_eq_bind, Option.bind_some, hsession, ↓reduceIte, reduceCtorEq,
          Option.some.injEq, false_iff]
        rintro ⟨rfl, h, -⟩
        exact hsession h

def Db.Sound.feed (hs : db.Sound) (session : SessionId) : Feed RecordId (RowData Text) Int where
  row := db.changedRow session
  clock := db.changeClock.position
  bounded := by
    intro id row position h
    obtain ⟨-, -, change, hchange, rfl⟩ := Db.changedRow_eq_some.mp h
    exact (hs.position _ _ hchange).2

/-- Rows of other records, and of this one only with a higher revision, behind the clock. -/
theorem Db.Sound.feed_stored (hs : db.Sound) (hs' : db'.Sound) {key : RecordId}
    {row : RowData Text} {session : SessionId}
    (hrows : ∀ name, db'.records.lookup name =
      if name = key.asStr then some row else db.records.lookup name)
    (hchanges : ∀ name, db'.recordChanges.lookup name =
      if name = key.asStr then some ⟨row.session, db.changeClock.position + 1⟩
      else db.recordChanges.lookup name)
    (hclock : db'.changeClock.position = db.changeClock.position + 1)
    (hold : ∀ old, db.records.lookup key.asStr = some old →
      row.session = old.session ∧ old.revision < row.revision) :
    (hs.feed session).Grows (reading J) (hs'.feed session) where
  clock := by
    show db.changeClock.position ≤ db'.changeClock.position
    omega
  row id old position h := by
    by_cases hid : id = key
    · subst hid
      obtain ⟨hrow, hsession, -⟩ := Db.changedRow_eq_some.mp h
      obtain ⟨hsame, hrev⟩ := hold old hrow
      refine .inr ⟨row, db.changeClock.position + 1, Db.changedRow_eq_some.mpr ?_, ?_, hrev⟩
      · exact ⟨(hrows _).trans (if_pos rfl), hsame.trans hsession, _,
          (hchanges _).trans (if_pos rfl), rfl⟩
      · show db.changeClock.position < db.changeClock.position + 1
        omega
    · have hne : id.asStr ≠ key.asStr := fun heq => hid (Identifier.asStr_inj.mp heq)
      obtain ⟨hrow, hsession, change, hchange, hposition⟩ := Db.changedRow_eq_some.mp h
      refine .inl (Db.changedRow_eq_some.mpr ⟨?_, hsession, change, ?_, hposition⟩)
      · rw [hrows, if_neg hne, hrow]
      · rw [hchanges, if_neg hne, hchange]
  fresh id new position hnone h := by
    obtain ⟨hrow, hsession, change, hchange, rfl⟩ := Db.changedRow_eq_some.mp h
    rw [hrows] at hrow
    rw [hchanges] at hchange
    show db.changeClock.position < change.position
    by_cases hid : id.asStr = key.asStr
    · rw [if_pos hid, Option.some.injEq] at hchange
      rw [← hchange]
      show db.changeClock.position < db.changeClock.position + 1
      omega
    · rw [if_neg hid] at hrow hchange
      have hsome : db.changedRow session id = some (new, change.position) :=
        Db.changedRow_eq_some.mpr ⟨hrow, hsession, change, hchange, rfl⟩
      have hnone' : db.changedRow session id = none := hnone
      rw [hnone'] at hsome
      cases hsome

theorem Db.Sound.feed_same (hs : db.Sound) (hs' : db'.Sound) (session : SessionId)
    (hrecords : db'.records = db.records) (hchanges : db'.recordChanges = db.recordChanges)
    (hclock : db'.changeClock = db.changeClock) :
    (hs.feed session).Grows (reading J) (hs'.feed session) where
  clock := le_of_eq (by
    show db.changeClock.position = db'.changeClock.position
    rw [hclock])
  row id old position h := by
    left
    show db'.changedRow session id = _
    unfold Db.changedRow
    rw [hrecords, hchanges]
    exact h
  fresh id new position hnone h := by
    have h' : db'.changedRow session id = some (new, position) := h
    unfold Db.changedRow at h'
    rw [hrecords, hchanges] at h'
    exact absurd (hnone.symm.trans h') (by simp)

theorem feed_afterInsert (hs : db.Sound) {snapshot : Snapshot} {n : Int}
    (hs' : (afterInsert J db snapshot n).Sound) (session : SessionId)
    (hfresh : db.records.lookup snapshot.record.id.asStr = none) :
    (hs.feed session).Grows (reading J) (hs'.feed session) := by
  apply hs.feed_stored hs' (lookup_afterInsert snapshot n) (change_afterInsert snapshot n) rfl
  intro old hold
  rw [hfresh] at hold
  cases hold

theorem feed_afterUpdate (hs : db.Sound) {record : RecordId} {e : Entry}
    {row : RowData Text} {change : RecordChange} (h : Updates J db record e row change)
    (payload : Payload) (next : RecordState)
    (hs' : (afterUpdate J db row change e.current (Rules.advance e.current payload next)).Sound)
    (session : SessionId) : (hs.feed session).Grows (reading J) (hs'.feed session) := by
  have hkey : e.current.record.id = record := h.named
  have hfound : db.records.lookup e.current.record.id.asStr = some row := by
    rw [hkey]
    exact h.found
  have hsession : change.session = row.session := by
    obtain ⟨change', hchange', hsession⟩ := hs.change _ _ h.found
    rw [h.change, Option.some.injEq] at hchange'
    rw [hchange', hsession]
  have hchanges : ∀ name,
      (afterUpdate J db row change e.current
        (Rules.advance e.current payload next)).recordChanges.lookup name =
        if name = e.current.record.id.asStr then
          some ⟨(nextRow J row e.current (Rules.advance e.current payload next)).session,
            db.changeClock.position + 1⟩
        else db.recordChanges.lookup name := by
    intro name
    rw [change_afterUpdate]
    show (if _ then some (RecordChange.mk change.session _) else _) =
      if _ then some (RecordChange.mk row.session _) else _
    rw [hsession]
  apply hs.feed_stored hs' (lookup_afterUpdate row change _ _) hchanges rfl
  intro old hold
  rw [hfound, Option.some.injEq] at hold
  subst hold
  refine ⟨rfl, ?_⟩
  show row.revision < ((e.current.revision + 1 : Nat) : Int)
  have hrevision := h.decodes.revision
  omega

/-- Every call moves a session's feed on. -/
theorem Db.HistoryStep.feed (hs : db.Sound) (hs' : db'.Sound) (h : db.HistoryStep J db')
    (session : SessionId) : (hs.feed session).Grows (reading J) (hs'.feed session) := by
  cases h with
  | same h => exact hs.feed_same hs' session h.records h.changes h.clock
  | register hfresh hcontext => exact hs.feed_same hs' session rfl rfl rfl
  | insert h => exact feed_afterInsert hs hs' session h.inserts.fresh
  | advance h hadv => exact feed_afterUpdate hs h _ _ hs' session
  | @answer request r decision e row change next h =>
    have hupdated := hs.afterUpdate h.updates e.current.record.payload .complete
    have hinserted := hupdated.afterInsert (J := J) (Rules.created decision next) next
    refine (feed_afterUpdate hs h.updates _ _ hupdated session).trans ?_
    refine (feed_afterInsert hupdated hinserted session h.inserts.fresh).trans ?_
    exact hinserted.feed_same hs' session rfl rfl rfl

/-- No position exceeds an `i64`. -/
theorem Db.HistoryStep.clock_le (h : db.HistoryStep J db')
    (hmax : db.changeClock.position ≤ i64Max) : db'.changeClock.position ≤ i64Max := by
  cases h with
  | same h =>
    rw [h.clock]
    exact hmax
  | register hfresh hcontext => exact hmax
  | insert h =>
    have hlt := h.inserts.position
    show db.changeClock.position + 1 ≤ i64Max
    omega
  | advance h hadv =>
    have hlt := h.position
    show db.changeClock.position + 1 ≤ i64Max
    omega
  | answer h =>
    have hlt : db.changeClock.position + 1 < i64Max := h.inserts.position
    show db.changeClock.position + 1 + 1 ≤ i64Max
    omega

theorem Db.HistoryStep.epoch (h : db.HistoryStep J db') :
    db'.changeClock.epoch = db.changeClock.epoch := by
  cases h with
  | same h => rw [h.clock]
  | register hfresh hcontext => rfl
  | insert h => rfl
  | advance h hadv => rfl
  | answer h => rfl

/-! ## The pages -/

theorem clock_eq_ok (hs : db.Sound) {session : SessionId} {head : ChangeCursor} :
    clock db session = .ok head ↔ (db.sessions.lookup session.asStr).isSome ∧
      head.epoch = db.changeClock.epoch ∧ head.sessionId = session ∧
        (head.position : Int) = db.changeClock.position := by
  have hclock := hs.clock
  unfold clock
  simp only [bind_eq_ok, sessionSequence_eq_ok, number_eq_ok, Except.ok.injEq]
  constructor
  · rintro ⟨next, hnext, position, hposition, rfl⟩
    exact ⟨by rw [hnext]; rfl, rfl, rfl, hposition.symm⟩
  · rintro ⟨hsome, hepoch, hsession, hposition⟩
    obtain ⟨next, hnext⟩ := Option.isSome_iff_exists.mp hsome
    refine ⟨next, hnext, head.position, hposition.symm, ?_⟩
    rw [← hepoch, ← hsession]

theorem validateCursor_eq_ok {cursor head : ChangeCursor} {u : Unit} :
    validateCursor cursor head = .ok u ↔ cursor.epoch = head.epoch ∧
      cursor.sessionId = head.sessionId ∧ cursor.position ≤ head.position := by
  unfold validateCursor
  rw [ite_error_eq_ok]
  simp only [not_or, not_not, not_lt, and_true]

/-- Rows decode one by one. -/
theorem decodeRows_eq_ok {rows : List (RowData Text)} {records : List Snapshot} :
    decodeRows J rows = .ok records ↔ List.Forall₂ (reading J).Reads rows records := by
  induction rows generalizing records with
  | nil =>
    simp only [decodeRows, Except.ok.injEq, List.forall₂_nil_left_iff]
    exact eq_comm
  | cons row rows ih =>
    simp only [decodeRows, bind_eq_ok, decode_eq_ok, ih, Except.ok.injEq,
      List.forall₂_cons_left_iff]
    constructor
    · rintro ⟨e, he, rest, hrest, rfl⟩
      exact ⟨_, _, ⟨e, he, rfl⟩, hrest, rfl⟩
    · rintro ⟨s, rest, ⟨e, he, rfl⟩, hrest, rfl⟩
      exact ⟨e, he, rest, hrest, rfl⟩

/-- A row of the join is read with its position. -/
def ReadsAt (J : SerdeJson Text) (row : RowData Text × Int) (r : Snapshot × Nat) : Prop :=
  (reading J).Reads row.1 r.1 ∧ row.2 = r.2

theorem decodeChanges_eq_ok {rows : List (RowData Text × Int)} {read : List (Snapshot × Nat)} :
    decodeChanges J rows = .ok read ↔ List.Forall₂ (ReadsAt J) rows read := by
  induction rows generalizing read with
  | nil =>
    simp only [decodeChanges, Except.ok.injEq, List.forall₂_nil_left_iff]
    exact eq_comm
  | cons row rows ih =>
    simp only [decodeChanges, bind_eq_ok, decode_eq_ok, number_eq_ok, ih, Except.ok.injEq,
      List.forall₂_cons_left_iff]
    constructor
    · rintro ⟨e, he, position, hposition, rest, hrest, rfl⟩
      exact ⟨_, _, ⟨⟨e, he, rfl⟩, hposition⟩, hrest, rfl⟩
    · rintro ⟨r, rest, ⟨⟨e, he, hr⟩, hposition⟩, hrest, rfl⟩
      refine ⟨e, he, r.2, hposition, rest, hrest, ?_⟩
      rw [hr]

/-- A page of a session's rows as they are, with all those that meet `C`. -/
structure PageOf (J : SerdeJson Text) (hs : db.Sound) (session : SessionId)
    (C : RowData Text → Int → Prop) (page : StatePage) : Prop where
  current : (hs.feed session).Current (reading J) page.rows
  complete : ∀ id row position, (hs.feed session).row id = some (row, position) → C row position →
    ∃ s, (id, s) ∈ page.rows
  sessions : ∀ s ∈ page.records, s.record.sessionId = session
  epoch : page.cursor.epoch = db.changeClock.epoch
  session : page.cursor.sessionId = session
  position : (page.cursor.position : Int) ≤ db.changeClock.position

/-- The row that a page's record was read from. -/
theorem Db.Sound.changedRow_of_reads (hs : db.Sound) {name : String} {row : RowData Text}
    {session : SessionId} {s : Snapshot} (hrow : db.records.lookup name = some row)
    (hsession : row.session = session.asStr) (hreads : (reading J).Reads row s) :
    name = s.record.id.asStr ∧ s.record.sessionId = session ∧
      ∃ position, (hs.feed session).row s.record.id = some (row, position) := by
  obtain ⟨e, he, rfl⟩ := hreads
  have hname : name = e.current.record.id.asStr := by
    rw [← hs.key name row hrow, he.id]
  obtain ⟨change, hchange, -⟩ := hs.change name row hrow
  rw [hname] at hrow hchange
  refine ⟨hname, Identifier.asStr_inj.mp (he.session.symm.trans hsession), change.position, ?_⟩
  exact Db.changedRow_eq_some.mpr ⟨hrow, hsession, change, hchange, rfl⟩

theorem mem_rows {page : StatePage} {s : Snapshot} (h : s ∈ page.records) :
    (s.record.id, s) ∈ page.rows :=
  List.mem_map_of_mem h

theorem of_mem_rows {page : StatePage} {id : RecordId} {s : Snapshot} (h : (id, s) ∈ page.rows) :
    s ∈ page.records ∧ s.record.id = id := by
  obtain ⟨s', hs', heq⟩ := List.mem_map.mp h
  obtain ⟨rfl, rfl⟩ := Prod.mk.inj heq
  exact ⟨hs', rfl⟩

/-- A page that reads rows of the session, among them all those that meet `C`. -/
theorem PageOf.of_rows (hs : db.Sound) {session : SessionId} {C : RowData Text → Int → Prop}
    {page : StatePage} {rows : List (RowData Text)}
    (hread : List.Forall₂ (reading J).Reads rows page.records)
    (hrows : ∀ row ∈ rows, row.session = session.asStr ∧
      ∃ name, db.records.lookup name = some row)
    (hcomplete : ∀ id row position, db.changedRow session id = some (row, position) →
      C row position → row ∈ rows)
    (hepoch : page.cursor.epoch = db.changeClock.epoch) (hsession : page.cursor.sessionId = session)
    (hposition : (page.cursor.position : Int) ≤ db.changeClock.position) :
    PageOf J hs session C page where
  current := by
    intro id s hmem
    obtain ⟨hrecord, rfl⟩ := of_mem_rows hmem
    obtain ⟨row, hrow, hreads⟩ := exists_of_mem_right hread hrecord
    obtain ⟨hrowSession, name, hname⟩ := hrows row hrow
    obtain ⟨-, -, position, hfeed⟩ := hs.changedRow_of_reads hname hrowSession hreads
    exact ⟨row, position, hfeed, hreads⟩
  complete := by
    intro id row position hrow hc
    obtain ⟨s, hmem, hreads⟩ :=
      exists_of_mem_left hread (hcomplete id row position hrow hc)
    obtain ⟨hlookup, hrowSession, -⟩ := Db.changedRow_eq_some.mp hrow
    obtain ⟨hname, -, -⟩ := hs.changedRow_of_reads hlookup hrowSession hreads
    rw [Identifier.asStr_inj.mp hname]
    exact ⟨s, mem_rows hmem⟩
  sessions := by
    intro s hrecord
    obtain ⟨row, hrow, hreads⟩ := exists_of_mem_right hread hrecord
    obtain ⟨hrowSession, name, hname⟩ := hrows row hrow
    exact (hs.changedRow_of_reads hname hrowSession hreads).2.1
  epoch := hepoch
  session := hsession
  position := hposition

variable {session : SessionId} {page : StatePage} {limit : Nat}

theorem Db.Ordered.sequence_nonneg (hk : db.Ordered) {id : RecordId} {row : RowData Text}
    {position : Int} (h : db.changedRow session id = some (row, position)) : 0 ≤ row.sequence :=
  (hk.sequence _ row (Db.changedRow_eq_some.mp h).1).1

/-- No two records of a session have the same sequence. -/
theorem Db.Ordered.sequence_inj (hk : db.Ordered) {id id' : RecordId} {row row' : RowData Text}
    {position position' : Int} (h : db.changedRow session id = some (row, position))
    (h' : db.changedRow session id' = some (row', position'))
    (heq : row.sequence = row'.sequence) : row = row' := by
  obtain ⟨hrow, hsession, -⟩ := Db.changedRow_eq_some.mp h
  obtain ⟨hrow', hsession', -⟩ := Db.changedRow_eq_some.mp h'
  have hname := hk.unique _ _ row row' hrow hrow' (hsession.trans hsession'.symm) heq
  rw [hname, hrow', Option.some.injEq] at hrow
  exact hrow.symm

/-- What a page of a scan has read: rows behind `after`, up to the last one of a full page. -/
def scanned (after : Int) (page : StatePage) (row : RowData Text) : Prop :=
  after < row.sequence ∧
    (page.pageFull = true → ∀ last, page.nextAfter = some last → row.sequence ≤ (last : Int))

def Db.sessionRows (db : Db Text) (session : String) : List (RowData Text) :=
  db.records.values.filter fun row => row.session == session

theorem mem_sessionRows {row : RowData Text} :
    row ∈ db.sessionRows session.asStr ↔
      row.session = session.asStr ∧ ∃ name, db.records.lookup name = some row := by
  rw [Db.sessionRows, List.mem_filter, HashMap.mem_values_iff, beq_iff_eq, and_comm]

theorem selectRecords_eq (after : Int) :
    db.selectRecords session.asStr after limit =
      selectAfter (·.sequence) (db.sessionRows session.asStr) after limit := by
  have hfilter : (fun row : RowData Text => row.session == session.asStr && after < row.sequence) =
      fun row => decide (after < row.sequence) && row.session == session.asStr := by
    funext row
    rw [Bool.and_comm]
  rw [Db.selectRecords, selectAfter, Db.sessionRows, List.filter_filter, hfilter]

/-- The head of the change clock. -/
structure IsHead (db : Db Text) (session : SessionId) (head : ChangeCursor) : Prop where
  epoch : head.epoch = db.changeClock.epoch
  session : head.sessionId = session
  position : (head.position : Int) = db.changeClock.position

/-- A cursor that `validate` accepts. -/
structure IsBehind (db : Db Text) (session : SessionId) (cursor : ChangeCursor) : Prop where
  epoch : cursor.epoch = db.changeClock.epoch
  session : cursor.sessionId = session
  position : (cursor.position : Int) ≤ db.changeClock.position

theorem IsHead.behind {head : ChangeCursor} (h : IsHead db session head) :
    IsBehind db session head :=
  ⟨h.epoch, h.session, Int.le_of_eq h.position⟩

theorem validateCursor_head {head cursor : ChangeCursor} (h : IsHead db session head) {u : Unit} :
    validateCursor cursor head = .ok u ↔ IsBehind db session cursor := by
  have hepoch := h.epoch
  have hsession := h.session
  have hposition := h.position
  rw [validateCursor_eq_ok]
  constructor
  · rintro ⟨he, hs, hp⟩
    exact ⟨he.trans hepoch, hs.trans hsession, by omega⟩
  · intro hb
    have hp := hb.position
    exact ⟨hb.epoch.trans hepoch.symm, hb.session.trans hsession.symm, by omega⟩

theorem scanCursor_eq_ok {head kept : ChangeCursor} {cursor : Option ChangeCursor}
    (h : IsHead db session head) :
    scanCursor head cursor = .ok kept ↔
      (cursor = none ∧ kept = head) ∨ (cursor = some kept ∧ IsBehind db session kept) := by
  cases cursor with
  | none =>
    simp only [scanCursor, Except.ok.injEq, true_and, reduceCtorEq, false_and, or_false]
    exact eq_comm
  | some given =>
    simp only [scanCursor, bind_eq_ok, validateCursor_head h, Except.ok.injEq, reduceCtorEq,
      false_and, Option.some.injEq, false_or, exists_const]
    constructor
    · rintro ⟨hb, rfl⟩
      exact ⟨rfl, hb⟩
    · rintro ⟨rfl, hb⟩
      exact ⟨hb, rfl⟩

/-- `after` as the query compares it. -/
def scanStart : Option Nat → Int
  | none => -1
  | some n => n

theorem scanAfter_eq_ok {after : Option Nat} {a : Int} :
    scanAfter after = .ok a ↔ (∀ n, after = some n → (n : Int) ≤ i64Max) ∧ a = scanStart after := by
  cases after with
  | none =>
    simp only [scanAfter, Except.ok.injEq, reduceCtorEq, false_implies, implies_true, true_and,
      scanStart]
    exact eq_comm
  | some n =>
    simp only [scanAfter, Option.some.injEq, forall_eq', scanStart]
    cases hn : tryI64 n with
    | none =>
      have hlarge : ¬ (n : Int) ≤ i64Max := by
        intro hle
        rw [tryI64_eq_some.mpr ⟨hle, rfl⟩] at hn
        cases hn
      simp [hlarge]
    | some m =>
      obtain ⟨hle, rfl⟩ := tryI64_eq_some.mp hn
      simp only [Except.ok.injEq, hle, true_and]
      exact eq_comm

/-- What `snapshot_page` returns. -/
structure ScanPage (J : SerdeJson Text) (db : Db Text) (session : SessionId)
    (cursor : Option ChangeCursor) (after : Option Nat) (limit : Nat) (page : StatePage) : Prop where
  size : 1 ≤ limit ∧ limit ≤ 1000
  given : after.isSome → cursor.isSome
  bound : ∀ n, after = some n → (n : Int) ≤ i64Max
  known : (db.sessions.lookup session.asStr).isSome
  cursor : (cursor = none ∧ IsHead db session page.cursor) ∨
    (cursor = some page.cursor ∧ IsBehind db session page.cursor)
  read : List.Forall₂ (reading J).Reads (db.selectRecords session.asStr (scanStart after) limit)
    page.records
  next : page.nextAfter = page.records.getLast?.map (·.record.sequence)
  full : page.pageFull = (page.records.length == limit)

theorem exists_head (hs : db.Sound) (session : SessionId) : ∃ head, IsHead db session head := by
  have hclock := hs.clock
  exact ⟨⟨db.changeClock.epoch, session, db.changeClock.position.toNat⟩, rfl, rfl, by
    show ((db.changeClock.position.toNat : Nat) : Int) = _
    omega⟩

theorem IsHead.unique {head head' : ChangeCursor} (h : IsHead db session head)
    (h' : IsHead db session head') : head = head' := by
  rcases head with ⟨epoch, other, position⟩
  rcases head' with ⟨epoch', other', position'⟩
  have hposition := h.position
  have hposition' := h'.position
  simp only at hposition hposition'
  rw [ChangeCursor.mk.injEq]
  exact ⟨h.epoch.trans h'.epoch.symm, h.session.trans h'.session.symm, by omega⟩

theorem clock_head (hs : db.Sound) {head : ChangeCursor} :
    clock db session = .ok head ↔
      (db.sessions.lookup session.asStr).isSome ∧ IsHead db session head := by
  rw [clock_eq_ok hs]
  constructor
  · rintro ⟨hknown, hepoch, hsession, hposition⟩
    exact ⟨hknown, hepoch, hsession, hposition⟩
  · rintro ⟨hknown, hhead⟩
    exact ⟨hknown, hhead.epoch, hhead.session, hhead.position⟩

theorem snapshotPage_eq_ok (hs : db.Sound) {cursor : Option ChangeCursor} {after : Option Nat} :
    snapshotPage J session cursor after limit db = .ok page ↔
      ScanPage J db session cursor after limit page := by
  unfold snapshotPage
  simp only [ite_error_eq_ok, bind_eq_ok, decodeRows_eq_ok, clock_head hs, scanAfter_eq_ok,
    Except.ok.injEq]
  constructor
  · rintro ⟨hlimit, hgiven, head, ⟨hknown, hhead⟩, kept, hkept, _, ⟨hbound, rfl⟩, records, hread, rfl⟩
    refine ⟨by omega, ?_, hbound, hknown, ?_, hread, rfl, rfl⟩
    · intro hafter
      rw [← Option.not_isNone, Bool.not_eq_true', ← Bool.not_eq_true]
      exact fun hnone => hgiven ⟨hafter, hnone⟩
    · rcases (scanCursor_eq_ok hhead).mp hkept with ⟨hnone, rfl⟩ | hsome
      · exact .inl ⟨hnone, hhead⟩
      · exact .inr hsome
  · intro h
    obtain ⟨hmin, hmax⟩ := h.size
    obtain ⟨head, hhead⟩ := exists_head hs session
    refine ⟨by omega, ?_, head, ⟨h.known, hhead⟩, page.cursor, ?_, _, ⟨h.bound, rfl⟩, page.records,
      h.read, ?_⟩
    · rintro ⟨hafter, hnone⟩
      rw [Option.isNone_iff_eq_none] at hnone
      have hsome := h.given hafter
      rw [hnone] at hsome
      cases hsome
    · rw [scanCursor_eq_ok hhead]
      rcases h.cursor with ⟨hnone, hkept⟩ | hsome
      · exact .inl ⟨hnone, hkept.unique hhead⟩
      · exact .inr hsome
    · rw [← h.next, ← h.full]

/-- A page of a scan. -/
theorem ScanPage.pageOf (hk : db.Ordered) {cursor : Option ChangeCursor} {after : Option Nat}
    (h : ScanPage J db session cursor after limit page) :
    PageOf J hk.sound session (fun row _ => scanned (scanStart after) page row) page := by
  have hbehind : IsBehind db session page.cursor := by
    rcases h.cursor with ⟨-, hhead⟩ | ⟨-, hbehind⟩
    · exact hhead.behind
    · exact hbehind
  refine PageOf.of_rows hk.sound h.read ?_ ?_ hbehind.epoch hbehind.session hbehind.position
  · intro row hrow
    rw [selectRecords_eq] at hrow
    exact mem_sessionRows.mp (mem_selectAfter hrow).1
  · intro id row position hrow hscanned
    by_contra hout
    obtain ⟨hlookup, hsession, -⟩ := Db.changedRow_eq_some.mp hrow
    have hread := h.read
    rw [selectRecords_eq] at hread hout
    obtain ⟨hlong, hbefore⟩ :=
      selectAfter_complete (mem_sessionRows.mpr ⟨hsession, _, hlookup⟩) hscanned.1 hout
    have hlength := hread.length_eq
    rw [hlong] at hlength
    have hfull : page.pageFull = true := by
      rw [h.full, beq_iff_eq]
      omega
    -- the page ends with a row of the same sequence, so with this one
    have hne : page.records ≠ [] := by
      intro hnil
      rw [hnil, List.length_nil] at hlength
      have := h.size.1
      omega
    have hlast := List.getLast?_eq_some_getLast hne
    have hmem := List.getLast_mem hne
    obtain ⟨other, hother, hreads⟩ := exists_of_mem_right hread hmem
    obtain ⟨hotherSession, name, hname⟩ := mem_sessionRows.mp (mem_selectAfter hother).1
    obtain ⟨-, -, position', hrow'⟩ := hk.sound.changedRow_of_reads hname hotherSession hreads
    have hnext : page.nextAfter = some (page.records.getLast hne).record.sequence := by
      rw [h.next, hlast, Option.map_some]
    have hle := hscanned.2 hfull _ hnext
    have hge := hbefore other hother
    obtain ⟨e, he, hcurrent⟩ := hreads
    have hsequence := he.sequence
    rw [hcurrent] at hsequence
    have heq := hk.sequence_inj hrow hrow' (by omega)
    rw [heq] at hout
    exact hout hother

/-- What `changes` returns. -/
structure ChangePage (J : SerdeJson Text) (db : Db Text) (cursor : ChangeCursor) (limit : Nat)
    (page : StatePage) : Prop where
  size : 1 ≤ limit ∧ limit ≤ 1000
  known : (db.sessions.lookup cursor.sessionId.asStr).isSome
  behind : IsBehind db cursor.sessionId cursor
  rows : ∃ read : List (Snapshot × Nat), List.Forall₂ (ReadsAt J)
      (db.selectChanges cursor.sessionId.asStr cursor.position limit) read ∧
    page.records = read.map (·.1) ∧
    (read.length = limit → ∃ last, read.getLast? = some last ∧ page.cursor.position = last.2) ∧
    (read.length ≠ limit → (page.cursor.position : Int) = db.changeClock.position)
  epoch : page.cursor.epoch = db.changeClock.epoch
  session : page.cursor.sessionId = cursor.sessionId
  next : page.nextAfter = none
  full : page.pageFull = (page.records.length == limit)

theorem pagePosition_eq_ok {read : List (Snapshot × Nat)} {head : ChangeCursor} {position : Nat} :
    pagePosition read limit head = .ok position ↔
      (read.length = limit → ∃ last, read.getLast? = some last ∧ position = last.2) ∧
        (read.length ≠ limit → position = head.position) := by
  unfold pagePosition
  by_cases hfull : read.length = limit
  · rw [if_pos hfull]
    cases read.getLast? with
    | none => simp [hfull]
    | some last =>
      simp only [Except.ok.injEq, hfull, true_implies, ne_eq, not_true_eq_false, false_implies,
        and_true, Option.some.injEq, exists_eq_left']
      exact eq_comm
  · rw [if_neg hfull]
    simp only [Except.ok.injEq, hfull, false_implies, true_and, ne_eq, not_false_eq_true,
      true_implies]
    exact eq_comm

theorem orFault_eq_ok {α : Type} {x : Except StoreError α} {a : α} :
    orFault x = .ok a ↔ x = .ok a := by
  cases x with
  | error e => simp
  | ok b => simp

theorem changes_eq_ok (hs : db.Sound) (hmax : db.changeClock.position ≤ i64Max)
    {cursor : ChangeCursor} :
    changes J cursor limit db = .ok page ↔ ChangePage J db cursor limit page := by
  unfold changes
  simp only [ite_error_eq_ok, bind_eq_ok, orFault_eq_ok, clock_head hs, decodeChanges_eq_ok,
    pagePosition_eq_ok, Except.ok.injEq]
  constructor
  · rintro ⟨hlimit, head, ⟨hknown, hhead⟩, _, hvalid, read, hread, position, ⟨hfull, hshort⟩, rfl⟩
    have hbehind := (validateCursor_head hhead).mp hvalid
    have hle := hbehind.position
    rw [asI64_of_lt (by unfold i64Max at hmax; omega)] at hread
    refine ⟨by omega, hknown, hbehind, ⟨read, hread, rfl, hfull, fun hne => ?_⟩, hhead.epoch,
      hhead.session, rfl, ?_⟩
    · rw [hshort hne]
      exact hhead.position
    · show _ = (List.length (List.map _ read) == limit)
      rw [List.length_map]
  · intro h
    obtain ⟨hmin, hle⟩ := h.size
    obtain ⟨read, hread, hrecords, hfull, hshort⟩ := h.rows
    obtain ⟨head, hhead⟩ := exists_head hs cursor.sessionId
    have hposition := h.behind.position
    refine ⟨by omega, head, ⟨h.known, hhead⟩, (), (validateCursor_head hhead).mpr h.behind, read,
      ?_, page.cursor.position, ⟨hfull, fun hne => ?_⟩, ?_⟩
    · rw [asI64_of_lt (by unfold i64Max at hmax; omega)]
      exact hread
    · have := hshort hne
      have := hhead.position
      omega
    · have hlength : read.length = page.records.length := by rw [hrecords, List.length_map]
      have hepoch := hhead.epoch.trans h.epoch.symm
      have hsession := hhead.session.trans h.session.symm
      rw [hlength, ← hrecords, ← h.full, ← h.next, hepoch, hsession]

theorem mem_sessionChanges (hs : db.Sound) {row : RowData Text} {position : Int} :
    (row, position) ∈ db.sessionChanges session.asStr ↔ row.session = session.asStr ∧
      ∃ name change, db.records.lookup name = some row ∧
        db.recordChanges.lookup name = some change ∧ change.position = position := by
  rw [Db.sessionChanges, List.mem_filterMap]
  constructor
  · rintro ⟨⟨name, change⟩, hmem, h⟩
    by_cases hc : change.session = session.asStr
    · rw [if_pos hc, Option.map_eq_some_iff] at h
      obtain ⟨row', hrow', heq⟩ := h
      obtain ⟨rfl, rfl⟩ := Prod.mk.inj heq
      have hchange := (HashMap.mem_entries_iff _ _ _).mp hmem
      obtain ⟨change', hchange', hsame⟩ := hs.change name row' hrow'
      rw [hchange, Option.some.injEq] at hchange'
      subst hchange'
      exact ⟨hsame.symm.trans hc, name, change, hrow', hchange, rfl⟩
    · rw [if_neg hc] at h
      cases h
  · rintro ⟨hsession, name, change, hrow, hchange, rfl⟩
    obtain ⟨change', hchange', hsame⟩ := hs.change name row hrow
    rw [hchange, Option.some.injEq] at hchange'
    subst hchange'
    refine ⟨⟨name, change⟩, (HashMap.mem_entries_iff _ _ _).mpr hchange, ?_⟩
    rw [if_pos (hsame.trans hsession), hrow]
    rfl

theorem mem_sessionChanges_of_row (hs : db.Sound) {id : RecordId} {row : RowData Text}
    {position : Int} (h : db.changedRow session id = some (row, position)) :
    (row, position) ∈ db.sessionChanges session.asStr := by
  obtain ⟨hlookup, hsession, change, hchange, hposition⟩ := Db.changedRow_eq_some.mp h
  exact (mem_sessionChanges hs).mpr ⟨hsession, _, change, hlookup, hchange, hposition⟩

/-- Changes have distinct positions. -/
theorem Db.Sound.position_inj (hs : db.Sound) {id id' : RecordId} {row row' : RowData Text}
    {position : Int} (h : db.changedRow session id = some (row, position))
    (h' : db.changedRow session id' = some (row', position)) : row = row' := by
  obtain ⟨hrow, -, change, hchange, hposition⟩ := Db.changedRow_eq_some.mp h
  obtain ⟨hrow', -, change', hchange', hposition'⟩ := Db.changedRow_eq_some.mp h'
  have hname := hs.distinct _ _ _ _ hchange hchange' (hposition.trans hposition'.symm)
  rw [hname, hrow', Option.some.injEq] at hrow
  exact hrow.symm

theorem ChangePage.position_le (hs : db.Sound) {cursor : ChangeCursor}
    (h : ChangePage J db cursor limit page) :
    (page.cursor.position : Int) ≤ db.changeClock.position := by
  obtain ⟨read, hread, -, hfull, hshort⟩ := h.rows
  by_cases hlength : read.length = limit
  · obtain ⟨last, hlast, hposition⟩ := hfull hlength
    obtain ⟨row, hrow, -, hlocated⟩ := exists_of_mem_right hread (List.mem_of_getLast? hlast)
    have hjoined : (row.1, row.2) ∈ _ := (mem_selectAfter hrow).1
    obtain ⟨-, name, change, -, hchange, hsame⟩ := (mem_sessionChanges hs).mp hjoined
    have := (hs.position name change hchange).2
    omega
  · exact Int.le_of_eq (hshort hlength)

/-- A page of changes, up to its own cursor. -/
theorem ChangePage.pageOf (hs : db.Sound) {cursor : ChangeCursor}
    (h : ChangePage J db cursor limit page) :
    PageOf J hs cursor.sessionId
      (fun _ position => (cursor.position : Int) < position ∧ position ≤ page.cursor.position)
      page := by
  obtain ⟨read, hread, hrecords, hfull, hshort⟩ := h.rows
  have hreads : List.Forall₂ (reading J).Reads
      ((db.selectChanges cursor.sessionId.asStr cursor.position limit).map (·.1))
      page.records := by
    rw [hrecords, List.forall₂_map_left_iff, List.forall₂_map_right_iff]
    exact hread.imp fun _ _ h => h.1
  refine PageOf.of_rows hs hreads ?_ ?_ h.epoch h.session (h.position_le hs)
  · intro row hrow
    obtain ⟨located, hmem, rfl⟩ := List.mem_map.mp hrow
    have hjoined : (located.1, located.2) ∈ _ := (mem_selectAfter hmem).1
    obtain ⟨hsession, name, -, hname, -⟩ := (mem_sessionChanges hs).mp hjoined
    exact ⟨hsession, name, hname⟩
  · rintro id row position hrow ⟨hafter, hupto⟩
    refine List.mem_map.mpr ⟨(row, position), ?_, rfl⟩
    by_contra hout
    obtain ⟨hlong, hbefore⟩ :=
      selectAfter_complete (mem_sessionChanges_of_row hs hrow) hafter hout
    have hcount := hread.length_eq
    unfold Db.selectChanges at hcount
    -- the page is full and ends with a change of the same position, so with this one
    obtain ⟨last, hlast, hposition⟩ := hfull (by omega)
    obtain ⟨other, hother, hotherReads, hsame⟩ :=
      exists_of_mem_right hread (List.mem_of_getLast? hlast)
    have hle := hbefore other hother
    have heq : other.2 = position := by omega
    have hjoined : (other.1, other.2) ∈ _ := (mem_selectAfter hother).1
    obtain ⟨hsession, name, change, hname, hchange, hchanged⟩ := (mem_sessionChanges hs).mp hjoined
    obtain ⟨hnamed, -, -⟩ := hs.changedRow_of_reads hname hsession hotherReads
    have hrow' : db.changedRow cursor.sessionId last.1.record.id = some (other.1, position) := by
      rw [hnamed] at hname hchange
      exact Db.changedRow_eq_some.mpr ⟨hname, hsession, change, hchange, hchanged.trans heq⟩
    rw [hs.position_inj hrow hrow', ← heq] at hout
    exact hout hother

/-- A page that is not full goes up to the head. -/
theorem ChangePage.head {cursor : ChangeCursor} (h : ChangePage J db cursor limit page)
    (hshort : page.pageFull = false) :
    (page.cursor.position : Int) = db.changeClock.position := by
  obtain ⟨read, hread, hrecords, -, hhead⟩ := h.rows
  apply hhead
  rw [h.full, beq_eq_false_iff_ne, hrecords, List.length_map] at hshort
  exact hshort

end SqliteStore

end AgentBridge
