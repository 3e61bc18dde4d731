import AgentBridge.Client.State
import AgentBridge.Records.History
import AgentBridge.Reasoning.Transition

/-!
# A synchronised state

One client synchronises a session while others commit calls of any kind, between the pages too.  It
may save its checkpoint at any time and start again from the last one saved.
-/

namespace AgentBridge

open Reasoning

structure StateSystem (Text : Type) where
  db : SqliteStore.Db Text
  state : SessionState
  saved : Option StateCheckpoint
  /-- How the calls of `sync` ended so far, true when the promise was fulfilled. -/
  settled : List Bool

namespace StateSystem

inductive Event where
  | commit (op : StoreOp)
  /-- The client calls `sync`. -/
  | sync (limit : Nat)
  /-- The host answers the request that the client waits for.  What is committed between the read
  and the answer's arrival is committed after both. -/
  | answer
  /-- The request fails for a reason outside the database. -/
  | fail
  | save
  /-- A new `SessionState` from the checkpoint saved last. -/
  | restart

variable {Text : Type} (J : SerdeJson Text) (accepts : Snapshot → Bool)

/-- What an answer leaves of the client, and of the promise when it settles it. -/
def settle (s : StateSystem Text) (result : SessionState × Option Bool) : StateSystem Text :=
  { s with state := result.1, settled := s.settled ++ result.2.toList }

def next : Next Event (StateSystem Text)
  | s, .commit op => some { s with db := ((SqliteStore.machine J).exec op.call s.db).2 }
  | s, .sync limit =>
      match s.state.sync limit with
      | .ok state => some { s with state }
      | .error _ => some { s with settled := s.settled ++ [false] }
  | s, .answer =>
      s.state.syncing.map fun sync =>
        s.settle (s.state.receive accepts sync
          (SessionState.request J s.state.sessionId sync s.db))
  | s, .fail =>
      s.state.syncing.map fun sync =>
        s.settle (s.state.receive accepts sync (.error (.message "failed")))
  | s, .save => some { s with saved := s.state.checkpoint }
  | s, .restart =>
      match SessionState.new accepts s.state.sessionId s.saved with
      | .ok state => some { s with state }
      | .error _ => none

/-- A new client of a session in a database. -/
def start (db : SqliteStore.Db Text) (session : SessionId) : StateSystem Text :=
  ⟨db, .empty session, none, []⟩

end StateSystem

/-! ## Applying pages -/

namespace SessionState

open SqliteStore

variable {Text : Type} {J : SerdeJson Text} {accepts : Snapshot → Bool} {session : SessionId}
  {records records' : HashMap RecordId Snapshot}

/-- What `project` has read of the session, by id. -/
def Keyed (accepts : Snapshot → Bool) (session : SessionId) (records : HashMap RecordId Snapshot) :
    Prop :=
  ∀ id s, records.lookup id = some s →
    s.record.id = id ∧ s.record.sessionId = session ∧ accepts s = true

theorem Keyed.empty : Keyed accepts session ∅ := by
  intro id s h
  simp at h

theorem Keyed.insert (h : Keyed accepts session records) {row : Snapshot}
    (hsession : row.record.sessionId = session) (haccepts : accepts row = true) :
    Keyed accepts session (records.insert row.record.id row) := by
  intro id s hs
  rw [HashMap.lookup_insert_eq] at hs
  split at hs
  · next heq =>
    obtain rfl := Option.some.inj hs
    exact ⟨heq.symm, hsession, haccepts⟩
  · exact h id s hs

/-- A row that `apply` takes is merged into the mirror. -/
theorem applyRow_eq_ok {row : Snapshot} (h : applyRow accepts session records row = .ok records') :
    row.record.sessionId = session ∧ accepts row = true ∧
      (fun id => records'.lookup id) =
        merge (reading J) (fun id => records.lookup id) (row.record.id, row) ∧
      (records' = records ∨ records' = records.insert row.record.id row) := by
  unfold applyRow at h
  rw [ite_error_eq_ok, ite_error_eq_ok] at h
  obtain ⟨hsession, haccepts, h⟩ := h
  refine ⟨not_not.mp hsession, by simpa using haccepts, ?_⟩
  cases hold : records.lookup row.record.id with
  | none =>
    rw [hold] at h
    obtain rfl := Except.ok.inj h
    refine ⟨?_, .inr rfl⟩
    funext id
    simp only [HashMap.lookup_insert_eq, merge, hold]
  | some old =>
    rw [hold] at h
    dsimp only at h
    by_cases hlt : old.revision < row.revision
    · rw [if_pos hlt] at h
      obtain rfl := Except.ok.inj h
      refine ⟨?_, .inr rfl⟩
      funext id
      have hversion : (reading J).version old < (reading J).version row := Int.ofNat_lt.mpr hlt
      simp only [HashMap.lookup_insert_eq, merge, hold, if_pos hversion]
    · rw [if_neg hlt] at h
      obtain rfl := Except.ok.inj h
      refine ⟨?_, .inl rfl⟩
      funext id
      have hversion : ¬ (reading J).version old < (reading J).version row :=
        fun hver => hlt (Int.ofNat_lt.mp hver)
      simp only [merge, hold, if_neg hversion]
      split
      · next heq => rw [heq, hold]
      · rfl

theorem apply_eq_ok {rows : List Snapshot} (h : apply accepts session records rows = .ok records') :
    (fun id => records'.lookup id) =
        (rows.map fun s => (s.record.id, s)).foldl (merge (reading J)) (fun id => records.lookup id) ∧
      (Keyed accepts session records → Keyed accepts session records') := by
  induction rows generalizing records with
  | nil =>
    obtain rfl := Except.ok.inj h
    exact ⟨rfl, fun hkeyed => hkeyed⟩
  | cons row rows ih =>
    obtain ⟨mid, hmid, hrest⟩ := bind_eq_ok.mp h
    obtain ⟨hsession, haccepts, hmerge, hmap⟩ := applyRow_eq_ok (J := J) hmid
    obtain ⟨hfold, hkeyed⟩ := ih hrest
    refine ⟨?_, fun hrecords => hkeyed ?_⟩
    · rw [hfold, hmerge]
      rfl
    · rcases hmap with rfl | rfl
      · exact hrecords
      · exact hrecords.insert hsession haccepts

/-- A record after a page was there before, or came with the page. -/
theorem lookup_apply {rows : List Snapshot} (h : apply accepts session records rows = .ok records')
    {id : RecordId} {v : Snapshot} (hv : records'.lookup id = some v) :
    records.lookup id = some v ∨ v ∈ rows ∧ v.record.id = id := by
  induction rows generalizing records with
  | nil =>
    obtain rfl := Except.ok.inj h
    exact .inl hv
  | cons row rows ih =>
    obtain ⟨mid, hmid, hrest⟩ := bind_eq_ok.mp h
    rcases ih hrest with hlookup | ⟨hmem, hid⟩
    · have hrow : mid = records ∨ mid = records.insert row.record.id row := by
        unfold applyRow at hmid
        rw [ite_error_eq_ok, ite_error_eq_ok] at hmid
        obtain ⟨-, -, hmid⟩ := hmid
        cases hold : records.lookup row.record.id with
        | none =>
          rw [hold] at hmid
          exact .inr (Except.ok.inj hmid).symm
        | some old =>
          rw [hold] at hmid
          dsimp only at hmid
          split at hmid
          · exact .inr (Except.ok.inj hmid).symm
          · exact .inl (Except.ok.inj hmid).symm
      rcases hrow with rfl | rfl
      · exact .inl hlookup
      · rw [HashMap.lookup_insert_eq] at hlookup
        split at hlookup
        · next heq =>
          obtain rfl := Option.some.inj hlookup
          exact .inr ⟨List.mem_cons_self, heq.symm⟩
        · exact .inl hlookup
    · exact .inr ⟨List.mem_cons_of_mem _ hmem, hid⟩

/-! ## The host's answers -/

variable {db db' : Db Text} {page : StatePage}

/-- What `history` checks. -/
structure Asks (request : Host.PageRequest) : Prop where
  limit : 1 ≤ request.limit ∧ request.limit ≤ 1000
  cursor : ∀ c, request.cursor = some c → c.epoch ≠ "" ∧ c.sessionId = request.sessionId

theorem checkPage_eq_ok {request : Host.PageRequest} {u : Unit} :
    Host.checkPage request = .ok u ↔ Asks request := by
  unfold Host.checkPage
  simp only [ite_error_eq_ok, and_true, Option.any_eq_true, not_exists, not_and, beq_iff_eq,
    bne_iff_ne, ne_eq, not_not, not_or, not_lt]
  constructor
  · rintro ⟨hepoch, hsession, hmin, hmax⟩
    exact ⟨⟨hmin, hmax⟩, fun c hc => ⟨hepoch c hc, hsession c hc⟩⟩
  · intro h
    exact ⟨fun c hc => (h.cursor c hc).1, fun c hc => (h.cursor c hc).2, h.limit.1, h.limit.2⟩

theorem orFailure_eq_ok {α : Type} {x : Except Fault α} {a : α} :
    Host.orFailure x = .ok a ↔ x = .ok a := by
  cases x with
  | error e => simp [Host.orFailure]
  | ok b => simp [Host.orFailure]

theorem snapshot_eq_ok (hs : db.Sound) {request : Host.PageRequest} {after : Option Nat} :
    Host.snapshot J request after db = .ok page ↔ Asks request ∧
      ScanPage J db request.sessionId request.cursor after request.limit page := by
  unfold Host.snapshot
  simp only [bind_eq_ok, checkPage_eq_ok, orFailure_eq_ok, orFault_eq_ok, snapshotPage_eq_ok hs,
    exists_const]

theorem changes_eq_ok (hs : db.Sound) (hmax : db.changeClock.position ≤ i64Max)
    {request : Host.PageRequest} :
    Host.changes J request db = .ok page ↔ Asks request ∧
      ∃ cursor, request.cursor = some cursor ∧ ChangePage J db cursor request.limit page := by
  unfold Host.changes
  simp only [bind_eq_ok, checkPage_eq_ok, exists_const]
  cases request.cursor with
  | none => simp
  | some cursor =>
    simp only [orFailure_eq_ok, SqliteStore.changes_eq_ok hs hmax, Option.some.injEq,
      exists_eq_left']

/-! ## What a mirror holds -/

/-- The changes up to a cursor. -/
def upTo (cursor : Option ChangeCursor) (_ : RowData Text) (position : Int) : Prop :=
  ∃ c, cursor = some c ∧ position ≤ c.position

/-- Those of the rows up to a sequence. -/
def scannedTo (cursor : Option ChangeCursor) (after : Option Nat) (row : RowData Text)
    (position : Int) : Prop :=
  upTo cursor row position ∧ row.sequence ≤ scanStart after

structure Mirrors (J : SerdeJson Text) (accepts : Snapshot → Bool) (hs : db.Sound)
    (session : SessionId) (records : HashMap RecordId Snapshot) (cursor : Option ChangeCursor)
    (C : RowData Text → Int → Prop) : Prop where
  keyed : Keyed accepts session records
  behind : ∀ c, cursor = some c → IsBehind db session c
  older : (hs.feed session).Older (reading J) fun id => records.lookup id
  covers : (hs.feed session).Covers (reading J) (fun id => records.lookup id) C

namespace Mirrors

variable {cursor cursor' : Option ChangeCursor} {C C' P : RowData Text → Int → Prop}

theorem empty (hs : db.Sound) : Mirrors J accepts hs session ∅ none (upTo none) where
  keyed := .empty
  behind _ h := by cases h
  older id s h := by simp at h
  covers _ _ _ _ h := by
    obtain ⟨c, hc, -⟩ := h
    cases hc

/-- Others commit a call. -/
theorem step {hs : db.Sound} (h : Mirrors J accepts hs session records cursor C) (hs' : db'.Sound)
    (hstep : db.HistoryStep J db') (hC : ∀ row position, C row position → upTo cursor row position) :
    Mirrors J accepts hs' session records cursor C where
  keyed := h.keyed
  behind c hc := by
    have hbehind := h.behind c hc
    have hclock : db.changeClock.position ≤ db'.changeClock.position :=
      (hstep.feed hs hs' session).clock
    have hposition := hbehind.position
    exact ⟨hbehind.epoch.trans hstep.epoch.symm, hbehind.session, by omega⟩
  older := h.older.grows (hstep.feed hs hs' session)
  covers := by
    apply h.covers.grows (hstep.feed hs hs' session)
    intro row position hc
    obtain ⟨c, hcursor, hle⟩ := hC row position hc
    exact Int.le_trans hle (h.behind c hcursor).position

/-- A page is applied. -/
theorem extend {hs : db.Sound} (h : Mirrors J accepts hs session records cursor C)
    {page : StatePage} (hpage : PageOf J hs session P page)
    (happly : apply accepts session records page.records = .ok records')
    (hbehind : ∀ c, cursor' = some c → IsBehind db session c)
    (hC : ∀ id row position, (hs.feed session).row id = some (row, position) → C' row position →
      C row position ∨ P row position) :
    Mirrors J accepts hs session records' cursor' C' := by
  obtain ⟨hfold, hkeyed⟩ := apply_eq_ok (J := J) happly
  have hrows : page.rows = page.records.map fun s => (s.record.id, s) := rfl
  rw [← hrows] at hfold
  refine ⟨hkeyed h.keyed, hbehind, ?_, ?_⟩
  · rw [hfold]
    exact (applied h.older hpage.current).older
  · rw [hfold]
    apply h.covers.apply h.older hpage.current
    intro id row position hrow hc
    rcases hC id row position hrow hc with hold | hnew
    · exact .inl hold
    · exact .inr (hpage.complete id row position hrow hnew)

/-- The scan goes on: the page extends it, to the whole session when it is not full. -/
theorem scan (hk : db.Ordered) {after : Option Nat} {limit : Nat} {page : StatePage}
    (h : Mirrors J accepts hk.sound session records cursor (scannedTo cursor after))
    (hpage : ScanPage J db session cursor after limit page)
    (happly : apply accepts session records page.records = .ok records') :
    Mirrors J accepts hk.sound session records' (some (cursor.getD page.cursor))
      (if page.pageFull then scannedTo (some (cursor.getD page.cursor)) page.nextAfter
        else upTo (some (cursor.getD page.cursor))) := by
  have hcursor : cursor.getD page.cursor = page.cursor ∧ IsBehind db session page.cursor := by
    rcases hpage.cursor with ⟨hnone, hhead⟩ | ⟨hsome, hbehind⟩
    · rw [hnone]
      exact ⟨rfl, hhead.behind⟩
    · rw [hsome]
      exact ⟨rfl, hbehind⟩
  rw [hcursor.1]
  apply h.extend (hpage.pageOf hk) happly
  · intro c hc
    rw [← Option.some.inj hc]
    exact hcursor.2
  · intro id row position hrow hc
    by_cases hseen : row.sequence ≤ scanStart after
    · -- only a scan with a cursor has come behind a row
      left
      have hupTo : upTo (some page.cursor) row position := by
        split at hc
        · exact hc.1
        · exact hc
      rcases hpage.cursor with ⟨hnone, -⟩ | ⟨hsome, -⟩
      · have hfresh : after = none := by
          cases after with
          | none => rfl
          | some n => exact absurd (hpage.given rfl) (by rw [hnone]; decide)
        have hnonneg := hk.sequence_nonneg hrow
        rw [hfresh] at hseen
        have hminus : scanStart none = -1 := rfl
        omega
      · rw [hsome]
        exact ⟨hupTo, hseen⟩
    · right
      refine ⟨by omega, fun hfull last hlast => ?_⟩
      rw [if_pos hfull, hlast] at hc
      exact hc.2

/-- The changes go on: the page extends the mirror up to its own cursor. -/
theorem change {hs : db.Sound} {limit : Nat} {page : StatePage} {c : ChangeCursor}
    (h : Mirrors J accepts hs session records (some c) (upTo (some c)))
    (hpage : ChangePage J db c limit page)
    (happly : apply accepts session records page.records = .ok records') :
    Mirrors J accepts hs session records' (some page.cursor) (upTo (some page.cursor)) := by
  obtain rfl := (h.behind c rfl).session
  have hpageOf := hpage.pageOf hs
  apply h.extend hpageOf happly
  · intro c' hc'
    rw [← Option.some.inj hc']
    exact ⟨hpageOf.epoch, hpageOf.session, hpageOf.position⟩
  · rintro id row position - ⟨c', hc', hle⟩
    rw [← Option.some.inj hc'] at hle
    by_cases hold : position ≤ c.position
    · exact .inl ⟨c, rfl, hold⟩
    · exact .inr ⟨by omega, hle⟩

end Mirrors

/-! ## A running `sync` -/

/-- What a running `sync` has covered. -/
def coverage (sync : Sync) : RowData Text → Int → Prop :=
  match sync.loop with
  | .snapshot after => scannedTo sync.cursor after
  | .changes => upTo sync.cursor

def Runs (J : SerdeJson Text) (accepts : Snapshot → Bool) (hs : db.Sound) (session : SessionId)
    (sync : Sync) : Prop :=
  Mirrors J accepts hs session sync.records sync.cursor (coverage sync)

theorem upTo_of_coverage {sync : Sync} {row : RowData Text} {position : Int}
    (h : coverage sync row position) : upTo sync.cursor row position := by
  cases hloop : sync.loop with
  | snapshot after =>
    simp only [coverage, hloop] at h
    exact h.1
  | changes =>
    simp only [coverage, hloop] at h
    exact h

/-- All changes of the session. -/
def Complete (db : Db Text) (cursor : Option ChangeCursor) : Prop :=
  ∃ c, cursor = some c ∧ (c.position : Int) = db.changeClock.position

/-- What holds when a `sync` has gone on. -/
def Proceeds (J : SerdeJson Text) (accepts : Snapshot → Bool) (hs : db.Sound)
    (session : SessionId) : SyncStep → Prop
  | .waits sync => Runs J accepts hs session sync
  | .done records position =>
      Mirrors J accepts hs session records position (upTo position) ∧ Complete db position

theorem Runs.proceed (hk : db.Ordered) (hmax : db.changeClock.position ≤ i64Max)
    {sync : Sync} {page : StatePage} {step : SyncStep}
    (h : Runs J accepts hk.sound session sync) (hpage : request J session sync db = .ok page)
    (hstep : SessionState.proceed accepts session sync page = .ok step) :
    Proceeds J accepts hk.sound session step := by
  unfold Runs coverage at h
  unfold request at hpage
  unfold SessionState.proceed at hstep
  cases hloop : sync.loop with
  | snapshot after =>
    rw [hloop] at h hpage hstep
    simp only [bind_eq_ok, Except.ok.injEq] at hstep
    obtain ⟨records, happly, pages, -, rfl⟩ := hstep
    have hscan := ((snapshot_eq_ok hk.sound).mp hpage).2
    have hnext := h.scan hk hscan happly
    show Mirrors J accepts hk.sound session records _ _
    unfold coverage
    cases hfull : page.pageFull with
    | true =>
      rw [hfull] at hnext
      exact hnext
    | false =>
      rw [hfull] at hnext
      exact hnext
  | changes =>
    rw [hloop] at h hpage hstep
    obtain ⟨records, happly, hstep⟩ := bind_eq_ok.mp hstep
    obtain ⟨-, c, hc, hchange⟩ := (changes_eq_ok hk.sound hmax).mp hpage
    have hcursor : sync.cursor = some c := hc
    rw [hcursor] at h
    have hnext := h.change hchange happly
    cases hfull : page.pageFull with
    | true =>
      rw [hfull, if_pos rfl] at hstep
      obtain ⟨pages, -, heq⟩ := bind_eq_ok.mp hstep
      obtain rfl := Except.ok.inj heq
      show Mirrors J accepts hk.sound session records _ _
      exact hnext
    | false =>
      rw [hfull] at hstep
      obtain rfl := Except.ok.inj hstep
      exact ⟨hnext, page.cursor, rfl, hchange.head hfull⟩

/-- A mirror that is complete holds the session. -/
theorem Mirrors.exact {hs : db.Sound} {cursor : Option ChangeCursor}
    (h : Mirrors J accepts hs session records cursor (upTo cursor)) (hcomplete : Complete db cursor)
    (id : RecordId) (s : Snapshot) :
    records.lookup id = some s ↔
      ∃ row position, (hs.feed session).row id = some (row, position) ∧ (reading J).Reads row s := by
  obtain ⟨c, rfl, hclock⟩ := hcomplete
  apply h.covers.exact h.older
  intro id row position hrow
  have hle : position ≤ db.changeClock.position := (hs.feed session).bounded id row position hrow
  exact ⟨c, rfl, by omega⟩

/-! ## Checkpoints -/

/-- A table made of values that name their keys. -/
theorem lookup_foldl_insert {K V : Type} [DecidableEq K] {key : V → K} {l : List V} (k : K) (v : V) :
    ∀ (_ : (l.map key).Nodup) (m : HashMap K V) (_ : ∀ v ∈ l, m.lookup (key v) = none),
      (l.foldl (fun m v => m.insert (key v) v) m).lookup k = some v ↔
        (v ∈ l ∧ key v = k) ∨ m.lookup k = some v := by
  induction l with
  | nil =>
    intro _ m _
    simp
  | cons head l ih =>
    intro hnodup m hfresh
    rw [List.map_cons, List.nodup_cons] at hnodup
    have hrest : ∀ w ∈ l, (m.insert (key head) head).lookup (key w) = none := by
      intro w hw
      have hne : key w ≠ key head := fun heq =>
        hnodup.1 (heq ▸ List.mem_map_of_mem hw)
      rw [HashMap.lookup_insert_eq, if_neg hne]
      exact hfresh w (List.mem_cons_of_mem _ hw)
    rw [List.foldl_cons, ih hnodup.2 _ hrest, HashMap.lookup_insert_eq, List.mem_cons]
    constructor
    · rintro (⟨hmem, hkey⟩ | hlookup)
      · exact .inl ⟨.inr hmem, hkey⟩
      · split at hlookup
        · next heq =>
          obtain rfl := Option.some.inj hlookup
          exact .inl ⟨.inl rfl, heq.symm⟩
        · exact .inr hlookup
    · rintro (⟨rfl | hmem, hkey⟩ | hlookup)
      · exact .inr (by rw [if_pos hkey.symm])
      · exact .inl ⟨hmem, hkey⟩
      · right
        have hne : k ≠ key head := by
          rintro rfl
          rw [hfresh head List.mem_cons_self] at hlookup
          cases hlookup
        rw [if_neg hne]
        exact hlookup

/-- The values of a keyed table make the same table. -/
theorem Keyed.rebuild (h : Keyed accepts session records) (id : RecordId) :
    ((records.entries.map (·.2)).foldl (fun records row => records.insert row.record.id row)
      (∅ : HashMap RecordId Snapshot)).lookup id = records.lookup id := by
  have hkeys : (records.entries.map (·.2)).map (·.record.id) = records.keys := by
    rw [List.map_map]
    apply List.map_congr_left
    rintro ⟨k, s⟩ hmem
    exact (h k s ((HashMap.mem_entries_iff _ _ _).mp hmem)).1
  have hnodup : ((records.entries.map (·.2)).map (·.record.id)).Nodup := by
    rw [hkeys]
    exact records.keys_nodup
  apply Option.ext
  intro s
  have hlookup := lookup_foldl_insert id s hnodup ∅ (by simp)
  rw [hlookup]
  simp only [AList.lookup_empty, reduceCtorEq, or_false]
  constructor
  · rintro ⟨hmem, hid⟩
    obtain ⟨⟨k, s'⟩, hentry, rfl⟩ := List.mem_map.mp hmem
    have hlookup := (HashMap.mem_entries_iff _ _ _).mp hentry
    rw [← hid, (h k s' hlookup).1]
    exact hlookup
  · intro hlookup
    refine ⟨?_, (h id s hlookup).1⟩
    exact List.mem_map.mpr ⟨⟨id, s⟩, (HashMap.mem_entries_iff _ _ _).mpr hlookup, rfl⟩

/-- The record is in the store, in the session, and reads so. -/
def Stores (J : SerdeJson Text) (db : Db Text) (session : SessionId) (id : RecordId)
    (s : Snapshot) : Prop :=
  ∃ e, entry J db id = .ok (some e) ∧ e.current = s ∧ s.record.sessionId = session

theorem stores_iff (hs : db.Sound) {id : RecordId} {s : Snapshot} :
    (∃ row position, (hs.feed session).row id = some (row, position) ∧ (reading J).Reads row s) ↔
      Stores J db session id s := by
  constructor
  · rintro ⟨row, position, hrow, e, he, rfl⟩
    obtain ⟨hlookup, hsession, -⟩ := Db.changedRow_eq_some.mp hrow
    exact ⟨e, entry_eq_some.mpr ⟨row, hlookup, he⟩, rfl,
      Identifier.asStr_inj.mp (he.session.symm.trans hsession)⟩
  · rintro ⟨e, hentry, rfl, hsession⟩
    obtain ⟨row, hlookup, he⟩ := entry_eq_some.mp hentry
    obtain ⟨change, hchange, -⟩ := hs.change _ _ hlookup
    refine ⟨row, change.position, Db.changedRow_eq_some.mpr ⟨hlookup, ?_, change, hchange, rfl⟩, e,
      he, rfl⟩
    rw [he.session, hsession]

/-- What comes with a page is stored, and of the session. -/
theorem stores_of_page {hs : db.Sound} {C : RowData Text → Int → Prop} {page : StatePage}
    (h : PageOf J hs session C page) {v : Snapshot} (hv : v ∈ page.records) :
    Stores J db session v.record.id v := by
  obtain ⟨row, position, hrow, hreads⟩ := h.current _ _ (mem_rows hv)
  exact (stores_iff hs).mp ⟨row, position, hrow, hreads⟩

/-- The pages that a running `sync` is answered with. -/
theorem Runs.stores (hk : db.Ordered) (hmax : db.changeClock.position ≤ i64Max) {sync : Sync}
    {page : StatePage} (h : Runs J accepts hk.sound session sync)
    (hpage : request J session sync db = .ok page) {v : Snapshot} (hv : v ∈ page.records) :
    Stores J db session v.record.id v := by
  unfold request at hpage
  cases hloop : sync.loop with
  | snapshot after =>
    rw [hloop] at hpage
    exact stores_of_page (((snapshot_eq_ok hk.sound).mp hpage).2.pageOf hk) hv
  | changes =>
    rw [hloop] at hpage
    obtain ⟨-, c, hc, hchange⟩ := (changes_eq_ok hk.sound hmax).mp hpage
    obtain rfl := (h.behind c hc).session
    exact stores_of_page (hchange.pageOf hk.sound) hv

/-- No record of the one table is missing in the other, or older there. -/
def NoOlder (records records' : HashMap RecordId Snapshot) : Prop :=
  ∀ id s, records.lookup id = some s →
    ∃ s', records'.lookup id = some s' ∧ s.revision ≤ s'.revision

theorem NoOlder.refl (records : HashMap RecordId Snapshot) : NoOlder records records :=
  fun _ s hs => ⟨s, hs, Nat.le_refl _⟩

theorem NoOlder.trans {a b c : HashMap RecordId Snapshot} (h : NoOlder a b) (h' : NoOlder b c) :
    NoOlder a c := by
  intro id s hs
  obtain ⟨mid, hmid, hle⟩ := h id s hs
  obtain ⟨last, hlast, hle'⟩ := h' id mid hmid
  exact ⟨last, hlast, Nat.le_trans hle hle'⟩

theorem noOlder_apply (J : SerdeJson Text) {rows : List Snapshot}
    (h : apply accepts session records rows = .ok records') : NoOlder records records' := by
  intro id s hs
  have hmerges : ∃ s', (rows.map fun s => (s.record.id, s)).foldl (merge (reading J))
      (fun id => records.lookup id) id = some s' ∧
        (reading J).version s ≤ (reading J).version s' := version_le_merges _ hs
  obtain ⟨s', hs', hle⟩ := hmerges
  rw [← (apply_eq_ok (J := J) h).1] at hs'
  exact ⟨s', hs', Int.ofNat_le.mp hle⟩

def stepRecords : SyncStep → HashMap RecordId Snapshot
  | .waits sync => sync.records
  | .done records _ => records

theorem noOlder_proceed (J : SerdeJson Text) {sync : Sync} {page : StatePage} {step : SyncStep}
    (h : SessionState.proceed accepts session sync page = .ok step) :
    NoOlder sync.records (stepRecords step) := by
  unfold SessionState.proceed at h
  cases hloop : sync.loop with
  | snapshot after =>
    rw [hloop] at h
    simp only [bind_eq_ok, Except.ok.injEq] at h
    obtain ⟨records, happly, pages, -, rfl⟩ := h
    exact noOlder_apply J happly
  | changes =>
    rw [hloop] at h
    obtain ⟨records, happly, h⟩ := bind_eq_ok.mp h
    split at h
    · obtain ⟨pages, -, heq⟩ := bind_eq_ok.mp h
      obtain rfl := Except.ok.inj heq
      exact noOlder_apply J happly
    · obtain rfl := Except.ok.inj h
      exact noOlder_apply J happly

/-- A record of a `sync` that has gone on was there before, or came with the page. -/
theorem lookup_proceed {sync : Sync} {page : StatePage} {step : SyncStep}
    (h : SessionState.proceed accepts session sync page = .ok step) {id : RecordId} {v : Snapshot}
    (hv : (stepRecords step).lookup id = some v) :
    sync.records.lookup id = some v ∨ v ∈ page.records ∧ v.record.id = id := by
  unfold SessionState.proceed at h
  cases hloop : sync.loop with
  | snapshot after =>
    rw [hloop] at h
    simp only [bind_eq_ok, Except.ok.injEq] at h
    obtain ⟨records, happly, pages, -, rfl⟩ := h
    exact lookup_apply happly hv
  | changes =>
    rw [hloop] at h
    obtain ⟨records, happly, h⟩ := bind_eq_ok.mp h
    split at h
    · obtain ⟨pages, -, heq⟩ := bind_eq_ok.mp h
      obtain rfl := Except.ok.inj heq
      exact lookup_apply happly hv
    · obtain rfl := Except.ok.inj h
      exact lookup_apply happly hv

/-- How an answer ends. -/
theorem receive_cases (accepts : Snapshot → Bool) (state : SessionState) (sync : Sync)
    (answer : Except Host.Failure StatePage) :
    (state.receive accepts sync answer = ({ state with syncing := none }, some false)) ∨
    ∃ page step, answer = .ok page ∧ proceed accepts state.sessionId sync page = .ok step ∧
      ((∃ sync', step = .waits sync' ∧
          state.receive accepts sync answer = ({ state with syncing := some sync' }, none)) ∨
        ∃ records position, step = .done records position ∧
          state.receive accepts sync answer =
            ({ state with records, position, syncing := none }, some true)) := by
  cases answer with
  | error e => exact .inl rfl
  | ok page =>
    cases hstep : proceed accepts state.sessionId sync page with
    | error e =>
      left
      simp only [receive, hstep]
    | ok step =>
      right
      refine ⟨page, step, rfl, hstep, ?_⟩
      cases step with
      | waits sync' => exact .inl ⟨sync', rfl, by simp only [receive, hstep]⟩
      | done records position => exact .inr ⟨records, position, rfl, by simp only [receive, hstep]⟩

/-- A client of a session, between the calls of `sync`. -/
structure Follows (J : SerdeJson Text) (accepts : Snapshot → Bool) (db : Db Text)
    (session : SessionId) (state : SessionState) : Prop where
  own : state.sessionId = session
  fresh : state.position = none → ∀ id, state.records.lookup id = none
  mirrors : ∀ hs : db.Sound,
    Mirrors J accepts hs session state.records state.position (upTo state.position)

/-- A client that starts where another one was. -/
structure Loads (old state : SessionState) : Prop where
  own : state.sessionId = old.sessionId
  idle : state.syncing = none
  position : state.position = old.position
  records : ∀ id, state.records.lookup id = old.records.lookup id

theorem Follows.empty : Follows J accepts db session (.empty session) where
  own := rfl
  fresh _ _ := AList.lookup_empty _
  mirrors hs := .empty hs

/-- Others commit a call. -/
theorem Follows.step {state : SessionState} (h : Follows J accepts db session state)
    (hs : db.Sound) (hstep : db.HistoryStep J db') : Follows J accepts db' session state where
  own := h.own
  fresh := h.fresh
  mirrors hs' := (h.mirrors hs).step hs' hstep fun _ _ hc => hc

theorem Loads.follows {old state : SessionState} (h : Loads old state)
    (hold : Follows J accepts db session old) : Follows J accepts db session state where
  own := h.own.trans hold.own
  fresh hnone id := by
    rw [h.records, hold.fresh (h.position ▸ hnone)]
  mirrors hs := by
    have hmirrors := hold.mirrors hs
    have hrecords : (fun id => state.records.lookup id) = fun id => old.records.lookup id :=
      funext h.records
    rw [h.position]
    refine ⟨fun id row hrow => hmirrors.keyed id row ((h.records id).symm.trans hrow),
      hmirrors.behind, ?_, ?_⟩
    · rw [hrecords]
      exact hmirrors.older
    · rw [hrecords]
      exact hmirrors.covers

/-- A checkpoint loads as the client that saved it. -/
theorem Follows.load (hs : db.Sound) {old : SessionState} (h : Follows J accepts db session old) :
    ∃ state, SessionState.new accepts session old.checkpoint = .ok state ∧ Loads old state := by
  have hmirrors := h.mirrors hs
  cases hposition : old.position with
  | none =>
    have hcheckpoint : old.checkpoint = none := by
      unfold SessionState.checkpoint
      rw [hposition]
      rfl
    rw [hcheckpoint]
    exact ⟨.empty session, rfl, h.own.symm, rfl, hposition.symm, fun id =>
      (AList.lookup_empty id).trans (h.fresh hposition id).symm⟩
  | some cursor =>
    have hcheckpoint : old.checkpoint = some ⟨some 2, cursor, old.records.entries.map (·.2)⟩ := by
      unfold SessionState.checkpoint
      rw [hposition]
      rfl
    have hkeyed := hmirrors.keyed
    have hrow : ∀ row ∈ old.records.entries.map (·.2),
        row.record.sessionId = session ∧ accepts row = true := by
      intro row hrow
      obtain ⟨⟨id, row'⟩, hentry, rfl⟩ := List.mem_map.mp hrow
      exact (hkeyed id row' ((HashMap.mem_entries_iff _ _ _).mp hentry)).2
    have hforeign : ¬ (cursor.sessionId ≠ session ∨
        (old.records.entries.map (·.2)).any fun row => row.record.sessionId != session) := by
      rw [not_or]
      refine ⟨not_not.mpr (hmirrors.behind _ hposition).session, ?_⟩
      rw [Bool.not_eq_true, List.any_eq_false]
      intro row hmem
      simp [(hrow row hmem).1]
    have hrefused : ¬ ((old.records.entries.map (·.2)).any fun row => !accepts row) = true := by
      rw [Bool.not_eq_true, List.any_eq_false]
      intro row hmem
      simp [(hrow row hmem).2]
    have hnew : SessionState.new accepts session old.checkpoint =
        .ok ⟨session, (old.records.entries.map (·.2)).foldl
          (fun records row => records.insert row.record.id row) ∅, some cursor, none⟩ := by
      rw [hcheckpoint]
      unfold SessionState.new
      dsimp only
      rw [if_neg hforeign, if_neg (by decide), if_neg (by decide), if_neg hrefused]
    exact ⟨_, hnew, h.own.symm, rfl, hposition.symm, hkeyed.rebuild⟩

end SessionState

namespace StateSystem

open SqliteStore SessionState

variable {Text : Type} {J : SerdeJson Text} {accepts : Snapshot → Bool} {created : Db Text}
  {session : SessionId} {s t : StateSystem Text}

/-! ## The invariant -/

/-- What the calls leave of a database. -/
structure Reached (db : Db Text) : Prop where
  ordered : db.Ordered
  bound : db.changeClock.position ≤ i64Max

theorem Reached.empty (epoch : String) : Reached (Db.empty Text epoch) :=
  ⟨.empty epoch, show (0 : Int) ≤ i64Max by decide⟩

theorem Reached.step {db db' : Db Text} (h : Reached db) (hstep : db.HistoryStep J db') :
    Reached db' :=
  ⟨h.ordered.step hstep, hstep.clock_le h.bound⟩

structure Coherent (J : SerdeJson Text) (accepts : Snapshot → Bool) (session : SessionId)
    (s : StateSystem Text) : Prop where
  reached : Reached s.db
  state : Follows J accepts s.db session s.state
  syncing : ∀ sync, s.state.syncing = some sync →
    NoOlder s.state.records sync.records ∧ ∀ hs : s.db.Sound, Runs J accepts hs session sync
  saved : ∃ old, s.saved = old.checkpoint ∧ Follows J accepts s.db session old

theorem Coherent.own (h : s.Coherent J accepts session) : s.state.sessionId = session :=
  h.state.own

theorem coherent_start (h : Reached created) :
    (start created session).Coherent J accepts session where
  reached := h
  state := .empty
  syncing _ h := by cases h
  saved := ⟨.empty session, rfl, .empty⟩

theorem Coherent.commit (h : s.Coherent J accepts session) (op : StoreOp) :
    ({ s with db := ((machine J).exec op.call s.db).2 } : StateSystem Text).Coherent J accepts session := by
  have hk := h.reached.ordered
  have hstep : s.db.HistoryStep J ((machine J).exec op.call s.db).2 := call_step hk.sound op.call
  refine ⟨h.reached.step hstep, h.state.step hk.sound hstep, fun sync hsync => ?_, ?_⟩
  · obtain ⟨hnewer, hruns⟩ := h.syncing sync hsync
    exact ⟨hnewer, fun hs => (hruns hk.sound).step hs hstep fun _ _ => upTo_of_coverage⟩
  · obtain ⟨old, hold, hfollows⟩ := h.saved
    exact ⟨old, hold, hfollows.step hk.sound hstep⟩

theorem Coherent.sync (h : s.Coherent J accepts session) {limit : Nat} {state : SessionState}
    (hsync : s.state.sync limit = .ok state) :
    ({ s with state } : StateSystem Text).Coherent J accepts session := by
  unfold SessionState.sync at hsync
  rw [ite_error_eq_ok] at hsync
  obtain ⟨pages, -, heq⟩ := bind_eq_ok.mp hsync.2
  obtain rfl := Except.ok.inj heq
  refine ⟨h.reached, ⟨h.own, h.state.fresh, h.state.mirrors⟩, fun sync hsome => ?_, h.saved⟩
  obtain rfl := Option.some.inj hsome
  refine ⟨.refl _, fun hs => ?_⟩
  have hmirrors := h.state.mirrors hs
  refine ⟨hmirrors.keyed, hmirrors.behind, hmirrors.older, hmirrors.covers.mono ?_⟩
  intro id row position _ hc
  exact upTo_of_coverage hc

theorem Coherent.receive (h : s.Coherent J accepts session) {sync : Sync}
    (hsync : s.state.syncing = some sync) {answer : Except Host.Failure StatePage}
    (hanswer : ∀ page, answer = .ok page → request J session sync s.db = .ok page) :
    (s.settle (s.state.receive accepts sync answer)).Coherent J accepts session := by
  obtain ⟨hnewer, hruns⟩ := h.syncing sync hsync
  have hk := h.reached.ordered
  rcases receive_cases accepts s.state sync answer with hfail | ⟨page, step, hpage,
    hstep, ⟨sync', rfl, hwaits⟩ | ⟨records, position, rfl, hdone⟩⟩
  · rw [hfail]
    exact ⟨h.reached, ⟨h.own, h.state.fresh, h.state.mirrors⟩, fun _ hnone => (by cases hnone),
      h.saved⟩
  · rw [hwaits]
    rw [h.own] at hstep
    have hproceeds := (hruns hk.sound).proceed hk h.reached.bound (hanswer page hpage) hstep
    refine ⟨h.reached, ⟨h.own, h.state.fresh, h.state.mirrors⟩, fun other hother => ?_, h.saved⟩
    obtain rfl := Option.some.inj hother
    exact ⟨hnewer.trans (noOlder_proceed J hstep), fun _ => hproceeds⟩
  · rw [hdone]
    rw [h.own] at hstep
    have hproceeds := (hruns hk.sound).proceed hk h.reached.bound (hanswer page hpage) hstep
    refine ⟨h.reached, ⟨h.own, fun hnone => ?_, fun _ => hproceeds.1⟩,
      fun _ hnone => (by cases hnone), h.saved⟩
    obtain ⟨c, hc, -⟩ := hproceeds.2
    exact absurd (hnone.symm.trans hc) (by simp)

theorem Coherent.load (h : s.Coherent J accepts session) :
    ∃ state, SessionState.new accepts s.state.sessionId s.saved = .ok state ∧
      ({ s with state } : StateSystem Text).Coherent J accepts session := by
  have hk := h.reached.ordered
  obtain ⟨old, hold, hfollows⟩ := h.saved
  obtain ⟨state, hnew, hloads⟩ := hfollows.load hk.sound
  refine ⟨state, by rw [h.own, hold, hnew], h.reached, hloads.follows hfollows, ?_, h.saved⟩
  intro sync hsync
  have hsome : state.syncing = some sync := hsync
  rw [hloads.idle] at hsome
  cases hsome

theorem Coherent.next (h : s.Coherent J accepts session) {e : Event}
    (hnext : StateSystem.next J accepts s e = some t) : t.Coherent J accepts session := by
  cases e with
  | commit op =>
    obtain rfl := Option.some.inj hnext
    exact h.commit op
  | sync limit =>
    cases hsync : s.state.sync limit with
    | error e =>
      simp only [StateSystem.next, hsync, Option.some.injEq] at hnext
      rw [← hnext]
      exact ⟨h.reached, h.state, h.syncing, h.saved⟩
    | ok state =>
      simp only [StateSystem.next, hsync, Option.some.injEq] at hnext
      exact hnext ▸ h.sync hsync
  | answer =>
    obtain ⟨sync, hsync, rfl⟩ := Option.map_eq_some_iff.mp hnext
    apply h.receive hsync
    intro page hpage
    rw [← h.own]
    exact hpage
  | fail =>
    obtain ⟨sync, hsync, rfl⟩ := Option.map_eq_some_iff.mp hnext
    exact h.receive hsync fun page hpage => by cases hpage
  | save =>
    obtain rfl := Option.some.inj hnext
    exact ⟨h.reached, h.state, h.syncing, s.state, rfl, h.state⟩
  | restart =>
    obtain ⟨state, hnew, hcoherent⟩ := h.load
    simp only [StateSystem.next, hnew, Option.some.injEq] at hnext
    exact hnext ▸ hcoherent

theorem coherent_run (hcreated : Reached created) {events : List Event}
    (hrun : Next.run (next J accepts) events (start created session) = some s) :
    s.Coherent J accepts session :=
  Next.run_invariant (fun _ _ _ h hnext => Coherent.next h hnext) (coherent_start hcreated) hrun

/-- Only a restart takes records back, to those saved last. -/
theorem Coherent.noOlder (h : s.Coherent J accepts session) {e : Event} (hne : e ≠ .restart)
    (hnext : StateSystem.next J accepts s e = some t) : NoOlder s.state.records t.state.records := by
  have hreceive : ∀ sync answer, s.state.syncing = some sync →
      NoOlder s.state.records (s.state.receive accepts sync answer).1.records := by
    intro sync answer hsync
    rcases receive_cases accepts s.state sync answer with hfail | ⟨page, step, -, hstep,
      ⟨sync', rfl, hwaits⟩ | ⟨records, position, rfl, hdone⟩⟩
    · rw [hfail]
      exact .refl _
    · rw [hwaits]
      exact .refl _
    · rw [hdone]
      exact (h.syncing sync hsync).1.trans (noOlder_proceed J hstep)
  cases e with
  | commit op =>
    obtain rfl := Option.some.inj hnext
    exact .refl _
  | sync limit =>
    cases hsync : s.state.sync limit with
    | error e =>
      simp only [StateSystem.next, hsync, Option.some.injEq] at hnext
      exact hnext ▸ .refl _
    | ok state =>
      simp only [StateSystem.next, hsync, Option.some.injEq] at hnext
      unfold SessionState.sync at hsync
      rw [ite_error_eq_ok] at hsync
      obtain ⟨pages, -, heq⟩ := bind_eq_ok.mp hsync.2
      obtain rfl := Except.ok.inj heq
      exact hnext ▸ .refl _
  | answer =>
    obtain ⟨sync, hsync, rfl⟩ := Option.map_eq_some_iff.mp hnext
    exact hreceive sync _ hsync
  | fail =>
    obtain ⟨sync, hsync, rfl⟩ := Option.map_eq_some_iff.mp hnext
    exact hreceive sync _ hsync
  | save =>
    obtain rfl := Option.some.inj hnext
    exact .refl _
  | restart => exact absurd rfl hne

/-! ## What the client has seen -/

/-- The record was stored so in a state that the run passed through. -/
def Held (J : SerdeJson Text) (accepts : Snapshot → Bool) (created : Db Text) (session : SessionId)
    (events : List Event) (id : RecordId) (v : Snapshot) : Prop :=
  ∃ mid, Next.Visited (next J accepts) events (start created session) mid ∧
    Stores J mid.db session id v

/-- The client when it saved last in a run, or a new one when it never did. -/
inductive SavedLast (J : SerdeJson Text) (accepts : Snapshot → Bool) (created : Db Text)
    (session : SessionId) (events : List Event) : SessionState → Prop where
  | never (h : .save ∉ events) : SavedLast J accepts created session events (.empty session)
  | last (before after : List Event) (mid : StateSystem Text)
      (h : events = before ++ .save :: after) (hafter : .save ∉ after)
      (hrun : Next.run (next J accepts) before (start created session) = some mid) :
      SavedLast J accepts created session events mid.state

theorem Held.append {events : List Event} {id : RecordId} {v : Snapshot} (e : Event)
    (h : Held J accepts created session events id v) :
    Held J accepts created session (events ++ [e]) id v := by
  obtain ⟨mid, ⟨before, after, hsplit, hrun⟩, hstores⟩ := h
  refine ⟨mid, ⟨before, after ++ [e], ?_, hrun⟩, hstores⟩
  rw [hsplit, List.append_assoc]

/-- Another event than a save leaves the last one where it was. -/
theorem SavedLast.append {events : List Event} {old : SessionState} {e : Event} (hne : e ≠ .save)
    (h : SavedLast J accepts created session events old) :
    SavedLast J accepts created session (events ++ [e]) old := by
  have hother : ∀ {l : List Event}, .save ∉ l → .save ∉ l ++ [e] := by
    intro l hl hmem
    rcases List.mem_append.mp hmem with hmem | hmem
    · exact hl hmem
    · exact hne (List.mem_singleton.mp hmem).symm
  cases h with
  | never h => exact .never (hother h)
  | last before after mid h hafter hrun =>
    exact .last before (after ++ [e]) mid (by rw [h, List.append_assoc, List.cons_append])
      (hother hafter) hrun

theorem SavedLast.follows (hcreated : Reached created) {events : List Event} {old : SessionState}
    (h : SavedLast J accepts created session events old) :
    ∃ db : Db Text, db.Sound ∧ Follows J accepts db session old := by
  cases h with
  | never h => exact ⟨created, hcreated.ordered.sound, .empty⟩
  | last before after mid h hafter hrun =>
    have hmid := coherent_run hcreated hrun
    have hk := hmid.reached.ordered
    exact ⟨mid.db, hk.sound, hmid.state⟩

/-- What the client holds, and may go back to, was stored. -/
structure Recalls (J : SerdeJson Text) (accepts : Snapshot → Bool) (created : Db Text)
    (session : SessionId) (events : List Event) (s : StateSystem Text) : Prop where
  state : ∀ id v, s.state.records.lookup id = some v → Held J accepts created session events id v
  syncing : ∀ sync, s.state.syncing = some sync →
    ∀ id v, sync.records.lookup id = some v → Held J accepts created session events id v
  saved : ∃ old, SavedLast J accepts created session events old ∧ s.saved = old.checkpoint ∧
    ∀ id v, old.records.lookup id = some v → Held J accepts created session events id v

theorem recalls_start : (start created session).Recalls J accepts created session []
    where
  state id v h := by cases (AList.lookup_empty id).symm.trans h
  syncing _ h := by cases h
  saved := ⟨.empty session, .never List.not_mem_nil, rfl,
    fun id v h => by cases (AList.lookup_empty id).symm.trans h⟩

/-- An event that lets the client hold nothing new. -/
theorem Recalls.append {events : List Event} {e : Event}
    (h : s.Recalls J accepts created session events) (hne : e ≠ .save) (hsaved : t.saved = s.saved)
    (hstate : ∀ id v, t.state.records.lookup id = some v →
      Held J accepts created session (events ++ [e]) id v)
    (hsyncing : ∀ sync, t.state.syncing = some sync → ∀ id v, sync.records.lookup id = some v →
      Held J accepts created session (events ++ [e]) id v) :
    t.Recalls J accepts created session (events ++ [e]) := by
  obtain ⟨old, hold, hcheckpoint, hheld⟩ := h.saved
  exact ⟨hstate, hsyncing, old, hold.append hne, hsaved.trans hcheckpoint,
    fun id v hv => (hheld id v hv).append e⟩

theorem Recalls.receive (hcreated : Reached created) {events : List Event} {e : Event}
    (hrun : Next.run (next J accepts) events (start created session) = some s)
    (h : s.Recalls J accepts created session events) (hne : e ≠ .save) {sync : Sync}
    (hsync : s.state.syncing = some sync) {answer : Except Host.Failure StatePage}
    (hanswer : ∀ page, answer = .ok page → request J session sync s.db = .ok page) :
    (s.settle (s.state.receive accepts sync answer)).Recalls J accepts created session
      (events ++ [e]) := by
  have hcoherent := coherent_run hcreated hrun
  have hk := hcoherent.reached.ordered
  have hvisited : Next.Visited (next J accepts) (events ++ [e]) (start created session) s :=
    ⟨events, [e], rfl, hrun⟩
  have hold : ∀ id v, s.state.records.lookup id = some v →
      Held J accepts created session (events ++ [e]) id v := fun id v hv => (h.state id v hv).append e
  -- a record that comes with a page is stored in the state that the page was read in
  have hnew : ∀ page step, answer = .ok page →
      proceed accepts s.state.sessionId sync page = .ok step → ∀ id v,
        (stepRecords step).lookup id = some v → Held J accepts created session (events ++ [e]) id v := by
    intro page step hpage hstep id v hv
    rcases lookup_proceed hstep hv with hlookup | ⟨hmem, rfl⟩
    · exact (h.syncing sync hsync id v hlookup).append e
    · refine ⟨s, hvisited, ?_⟩
      have hruns := (hcoherent.syncing sync hsync).2 hk.sound
      exact hruns.stores hk hcoherent.reached.bound (hanswer page hpage) hmem
  rcases receive_cases accepts s.state sync answer with hfail | ⟨page, step, hpage, hstep,
    ⟨sync', rfl, hwaits⟩ | ⟨records, position, rfl, hdone⟩⟩
  · rw [hfail]
    exact h.append hne rfl hold fun _ hnone => by cases hnone
  · rw [hwaits]
    refine h.append hne rfl hold fun other hother => ?_
    obtain rfl := Option.some.inj hother
    exact hnew page _ hpage hstep
  · rw [hdone]
    exact h.append hne rfl (hnew page _ hpage hstep) fun _ hnone => by cases hnone

theorem Recalls.next (hcreated : Reached created) {events : List Event} {e : Event}
    (hrun : Next.run (next J accepts) events (start created session) = some s)
    (h : s.Recalls J accepts created session events)
    (hnext : StateSystem.next J accepts s e = some t) :
    t.Recalls J accepts created session (events ++ [e]) := by
  have hcoherent := coherent_run hcreated hrun
  have hstate : ∀ id v, s.state.records.lookup id = some v →
      Held J accepts created session (events ++ [e]) id v := fun id v hv => (h.state id v hv).append e
  have hsyncing : ∀ sync, s.state.syncing = some sync → ∀ id v, sync.records.lookup id = some v →
      Held J accepts created session (events ++ [e]) id v :=
    fun sync hsync id v hv => (h.syncing sync hsync id v hv).append e
  cases e with
  | commit op =>
    obtain rfl := Option.some.inj hnext
    exact h.append (by simp) rfl hstate hsyncing
  | sync limit =>
    cases hsync : s.state.sync limit with
    | error e =>
      simp only [StateSystem.next, hsync, Option.some.injEq] at hnext
      obtain rfl := hnext
      exact h.append (by simp) rfl hstate hsyncing
    | ok state =>
      simp only [StateSystem.next, hsync, Option.some.injEq] at hnext
      unfold SessionState.sync at hsync
      rw [ite_error_eq_ok] at hsync
      obtain ⟨pages, -, heq⟩ := bind_eq_ok.mp hsync.2
      obtain rfl := Except.ok.inj heq
      obtain rfl := hnext
      refine h.append (by simp) rfl hstate fun sync hsome => ?_
      obtain rfl := Option.some.inj hsome
      exact hstate
  | answer =>
    obtain ⟨sync, hsync, rfl⟩ := Option.map_eq_some_iff.mp hnext
    refine h.receive hcreated hrun (by simp) hsync fun page hpage => ?_
    rw [← hcoherent.own]
    exact hpage
  | fail =>
    obtain ⟨sync, hsync, rfl⟩ := Option.map_eq_some_iff.mp hnext
    exact h.receive hcreated hrun (by simp) hsync fun page hpage => by cases hpage
  | save =>
    obtain rfl := Option.some.inj hnext
    exact ⟨hstate, hsyncing, s.state, .last events [] s rfl List.not_mem_nil hrun, rfl, hstate⟩
  | restart =>
    obtain ⟨old, hold, hcheckpoint, hheld⟩ := h.saved
    obtain ⟨db, hs, hfollows⟩ := hold.follows hcreated
    obtain ⟨state, hnew, hloads⟩ := hfollows.load hs
    rw [← hcheckpoint, ← hcoherent.own] at hnew
    simp only [StateSystem.next, hnew, Option.some.injEq] at hnext
    obtain rfl := hnext
    refine h.append (by simp) rfl (fun id v hv => ?_) fun sync hsome => ?_
    · exact (hheld id v ((hloads.records id).symm.trans hv)).append .restart
    · have hsome : state.syncing = some sync := hsome
      rw [hloads.idle] at hsome
      cases hsome

theorem recalls_run (hcreated : Reached created) {events : List Event}
    (hrun : Next.run (next J accepts) events (start created session) = some s) :
    s.Recalls J accepts created session events :=
  Next.run_history recalls_start
    (fun _ _ _ _ hbefore h hnext => Recalls.next hcreated hbefore h hnext) hrun

/-- A restart goes back to the client that saved last. -/
theorem Recalls.restart (hcreated : Reached created) {events : List Event} (hcoherent : s.Coherent J accepts session)
    (h : s.Recalls J accepts created session events) :
    ∃ old t, SavedLast J accepts created session events old ∧
      StateSystem.next J accepts s .restart = some t ∧ t.db = s.db ∧ Loads old t.state := by
  obtain ⟨old, hold, hcheckpoint, -⟩ := h.saved
  obtain ⟨db, hs, hfollows⟩ := hold.follows hcreated
  obtain ⟨state, hnew, hloads⟩ := hfollows.load hs
  rw [← hcheckpoint, ← hcoherent.own] at hnew
  exact ⟨old, { s with state }, hold, by simp only [StateSystem.next, hnew], rfl, hloads⟩

/-! ## The results -/

/-- Every record whose last change is not behind the cursor is held as the store reads it. -/
def CaughtUp (J : SerdeJson Text) (session : SessionId) (s : StateSystem Text) : Prop :=
  ∀ c, s.state.position = some c → ∀ (id : RecordId) row change,
    s.db.records.lookup id.asStr = some row → row.session = session.asStr →
      s.db.recordChanges.lookup id.asStr = some change → change.position ≤ c.position →
        ∃ v, Stores J s.db session id v ∧ s.state.records.lookup id = some v

theorem Coherent.caughtUp (h : s.Coherent J accepts session) : s.CaughtUp J session := by
  intro c hc id row change hrow hsession hchange hle
  have hk := h.reached.ordered
  have hfeed : (hk.sound.feed session).row id = some (row, change.position) :=
    Db.changedRow_eq_some.mpr ⟨hrow, hsession, change, hchange, rfl⟩
  obtain ⟨v, hreads, hv⟩ :=
    (h.state.mirrors hk.sound).covers id row change.position hfeed ⟨c, hc, hle⟩
  exact ⟨v, (stores_iff hk.sound).mp ⟨row, change.position, hfeed, hreads⟩, hv⟩

/-- When an answer settles the promise of `sync`: fulfilled, the cursor is the head of the changes, and
the records are those of the session as the store holds it; rejected, nothing has changed. -/
theorem Coherent.settles (h : s.Coherent J accepts session) {sync : Sync}
    (hsync : s.state.syncing = some sync) {answer : Except Host.Failure StatePage}
    (hanswer : ∀ page, answer = .ok page → request J session sync s.db = .ok page)
    {state : SessionState} {fulfilled : Bool}
    (hreceive : s.state.receive accepts sync answer = (state, some fulfilled)) :
    (fulfilled = true → Complete s.db state.position ∧
        ∀ id v, state.records.lookup id = some v ↔ Stores J s.db session id v) ∧
      (fulfilled = false → state.records = s.state.records ∧ state.position = s.state.position) := by
  obtain ⟨-, hruns⟩ := h.syncing sync hsync
  have hk := h.reached.ordered
  rcases receive_cases accepts s.state sync answer with hfail |
    ⟨page, step, hpage, hstep, ⟨sync', -, hwaits⟩ | ⟨records, position, rfl, hdone⟩⟩
  · rw [hfail, Prod.mk.injEq, Option.some.injEq] at hreceive
    obtain ⟨rfl, rfl⟩ := hreceive
    exact ⟨fun hfalse => (by cases hfalse), fun _ => ⟨rfl, rfl⟩⟩
  · rw [hwaits, Prod.mk.injEq] at hreceive
    cases hreceive.2
  · rw [hdone, Prod.mk.injEq, Option.some.injEq] at hreceive
    obtain ⟨rfl, rfl⟩ := hreceive
    rw [h.own] at hstep
    obtain ⟨hmirrors, hcomplete⟩ :=
      (hruns hk.sound).proceed hk h.reached.bound (hanswer page hpage) hstep
    refine ⟨fun _ => ⟨hcomplete, fun id v => ?_⟩, fun hfalse => (by cases hfalse)⟩
    rw [← stores_iff hk.sound]
    exact hmirrors.exact hcomplete id v

/-- What an event that settles a promise leaves. -/
structure Settles (J : SerdeJson Text) (session : SessionId) (s t : StateSystem Text) : Prop where
  fulfilled : t.settled = s.settled ++ [true] →
    t.db = s.db ∧ Complete t.db t.state.position ∧
      ∀ id v, t.state.records.lookup id = some v ↔ Stores J t.db session id v
  rejected : t.settled = s.settled ++ [false] →
    t.state.records = s.state.records ∧ t.state.position = s.state.position

theorem settles_of_same (h : t.settled = s.settled) : Settles J session s t := by
  have hne : ∀ b : Bool, t.settled ≠ s.settled ++ [b] := by
    intro b heq
    have hlength := congrArg List.length (h.symm.trans heq)
    rw [List.length_append, List.length_singleton] at hlength
    omega
  exact ⟨fun heq => absurd heq (hne true), fun heq => absurd heq (hne false)⟩

theorem Coherent.settles_receive (h : s.Coherent J accepts session) {sync : Sync}
    (hsync : s.state.syncing = some sync) {answer : Except Host.Failure StatePage}
    (hanswer : ∀ page, answer = .ok page → request J session sync s.db = .ok page) :
    Settles J session s (s.settle (s.state.receive accepts sync answer)) := by
  cases hreceive : s.state.receive accepts sync answer with
  | mk state settled =>
    cases settled with
    | none => exact settles_of_same (List.append_nil _)
    | some fulfilled =>
      obtain ⟨htrue, hfalse⟩ := h.settles hsync hanswer hreceive
      have hlast : ∀ b : Bool, s.settled ++ [fulfilled] = s.settled ++ [b] → fulfilled = b := by
        intro b heq
        exact List.singleton_inj.mp (List.append_cancel_left heq)
      exact ⟨fun heq => ⟨rfl, htrue (hlast true heq)⟩, fun heq => hfalse (hlast false heq)⟩

theorem Coherent.settles_next (h : s.Coherent J accepts session) {e : Event}
    (hnext : StateSystem.next J accepts s e = some t) : Settles J session s t := by
  cases e with
  | commit op =>
    obtain rfl := Option.some.inj hnext
    exact settles_of_same rfl
  | sync limit =>
    cases hsync : s.state.sync limit with
    | error e =>
      simp only [StateSystem.next, hsync, Option.some.injEq] at hnext
      obtain rfl := hnext
      refine ⟨fun heq => ?_, fun _ => ⟨rfl, rfl⟩⟩
      cases List.singleton_inj.mp (List.append_cancel_left heq)
    | ok state =>
      simp only [StateSystem.next, hsync, Option.some.injEq] at hnext
      obtain rfl := hnext
      exact settles_of_same rfl
  | answer =>
    obtain ⟨sync, hsync, rfl⟩ := Option.map_eq_some_iff.mp hnext
    refine h.settles_receive hsync fun page hpage => ?_
    rw [← h.own]
    exact hpage
  | fail =>
    obtain ⟨sync, hsync, rfl⟩ := Option.map_eq_some_iff.mp hnext
    exact h.settles_receive hsync fun page hpage => by cases hpage
  | save =>
    obtain rfl := Option.some.inj hnext
    exact settles_of_same rfl
  | restart =>
    obtain ⟨state, hnew, -⟩ := h.load
    simp only [StateSystem.next, hnew, Option.some.injEq] at hnext
    obtain rfl := hnext
    exact settles_of_same rfl

/-- What the application sees of a session was stored so in the course of the run, and is so still
or at a higher revision. -/
def Faithful (J : SerdeJson Text) (accepts : Snapshot → Bool) (created : Db Text)
    (session : SessionId) (events : List Event) (s : StateSystem Text) : Prop :=
  ∀ id v, s.state.records.lookup id = some v → v.record.id = id ∧ accepts v = true ∧
    Held J accepts created session events id v ∧
    ∃ row, s.db.records.lookup id.asStr = some row ∧ row.session = session.asStr ∧
      (Stores J s.db session id v ∨ (v.revision : Int) < row.revision)

theorem Coherent.faithful {events : List Event} (h : s.Coherent J accepts session)
    (hrecalls : s.Recalls J accepts created session events) :
    s.Faithful J accepts created session events := by
  intro id v hv
  have hk := h.reached.ordered
  have hmirrors := h.state.mirrors hk.sound
  obtain ⟨hid, -, haccepts⟩ := hmirrors.keyed id v hv
  obtain ⟨row, position, hrow, hage⟩ := hmirrors.older id v hv
  obtain ⟨hlookup, hown, -⟩ := Db.changedRow_eq_some.mp hrow
  refine ⟨hid, haccepts, hrecalls.state id v hv, row, hlookup, hown, ?_⟩
  rcases hage with hreads | hlt
  · exact .inl ((stores_iff hk.sound).mp ⟨row, position, hrow, hreads⟩)
  · exact .inr hlt

/-- In every run: what the application sees was stored so, and is caught up with the cursor; a `sync`
that is fulfilled leaves the session as the store held it when the last page was read, and one that
is rejected leaves what there was; nothing but a restart takes a record back, and a restart goes back
to exactly what was saved last. -/
theorem sync_is_faithful {epoch : String} {events : List Event}
    (hrun : Next.run (next J accepts) events (start (.empty Text epoch) session) = some s) :
    s.Faithful J accepts (.empty Text epoch) session events ∧ s.CaughtUp J session ∧
    (∀ e t, next J accepts s e = some t → Settles J session s t) ∧
    (∀ e t, e ≠ .restart → next J accepts s e = some t →
      NoOlder s.state.records t.state.records) ∧
    ∃ old t, SavedLast J accepts (.empty Text epoch) session events old ∧
      next J accepts s .restart = some t ∧ t.db = s.db ∧ Loads old t.state := by
  have h := coherent_run (.empty epoch) hrun
  have hrecalls := recalls_run (.empty epoch) hrun
  exact ⟨h.faithful hrecalls, h.caughtUp, fun _ _ hnext => h.settles_next hnext,
    fun _ _ hne hnext => h.noOlder hne hnext, hrecalls.restart (.empty epoch) h⟩

namespace Sample

def reply : RecordId := ⟨"reply", by decide⟩

/-- A message that is still written. -/
def replyDraft : Draft :=
  { AgentBridge.Sample.noteDraft with
    id := reply, payload := AgentBridge.Sample.text "first", state := .opened }

/-- Two records are synchronised in pages of one, and one of them is changed after the first page; a
second `sync` fails, and the client starts again from its checkpoint. -/
def noteEvents : List Event :=
  AgentBridge.Sample.noteOps.map .commit ++
    [.commit ⟨.insert replyDraft⟩, .sync 1, .answer,
      .commit ⟨.checkpoint reply 0 (AgentBridge.Sample.text "second") .opened⟩, .answer, .answer,
      .answer, .answer, .save, .sync 1, .fail, .restart]

def synchronized : StateSystem Json :=
  (Next.run (next SerdeJson.tree fun _ => true) noteEvents
    (start (.empty Json "epoch") AgentBridge.Sample.session)).getD
      (start (.empty Json "epoch") AgentBridge.Sample.session)

end Sample

theorem note_is_synchronized :
    Sample.synchronized.Faithful SerdeJson.tree (fun _ => true) (.empty Json "epoch")
        AgentBridge.Sample.session Sample.noteEvents ∧
      Sample.synchronized.settled = [true, false] ∧
      (Sample.synchronized.state.records.lookup AgentBridge.Sample.note).isSome = true ∧
      (Sample.synchronized.state.records.lookup Sample.reply).map (·.record.payload) =
        some (AgentBridge.Sample.text "second") :=
  ⟨(sync_is_faithful (Next.run_getD (by decide +kernel) _)).1, by decide +kernel, by decide +kernel,
    by decide +kernel⟩

end StateSystem

end AgentBridge
