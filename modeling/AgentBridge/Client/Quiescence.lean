import AgentBridge.Client.Synchronization
import AgentBridge.Records.Listing

/-!
# A synchronisation that nobody disturbs

While others commit nothing, every full page leaves less to read, so a `sync` ends after a number of
pages that its start tells: it is fulfilled when they fit in the budget, and rejected otherwise.
-/

namespace AgentBridge

open Reasoning

namespace StateSystem

open SqliteStore SessionState

variable {Text : Type} {J : SerdeJson Text} {accepts : Snapshot → Bool} {epoch : String}
  {session : SessionId} {s t : StateSystem Text} {db : Db Text}

/-- The host can answer pages of this size, and the client can read the records on them. -/
structure Serves (J : SerdeJson Text) (accepts : Snapshot → Bool) (db : Db Text)
    (session : SessionId) (limit : Nat) : Prop where
  epoch : db.changeClock.epoch ≠ ""
  limit : 1 ≤ limit ∧ limit ≤ 1000
  known : (db.sessions.lookup session.asStr).isSome
  reads : ∀ row ∈ db.sessionRows session.asStr, ∃ v, (reading J).Reads row v ∧ accepts v = true

/-- The records of a session behind a sequence. -/
def rowsLeft (db : Db Text) (session : SessionId) (after : Int) : Nat :=
  remaining (·.sequence) (db.sessionRows session.asStr) after

/-- The changes of a session behind a cursor; without one, those behind the head. -/
def changesLeft (db : Db Text) (session : SessionId) : Option ChangeCursor → Nat
  | some c => remaining (·.2) (db.sessionChanges session.asStr) (c.position : Int)
  | none => 0

theorem nodup_sequences (hk : db.Ordered) (session : SessionId) :
    ((db.sessionRows session.asStr).map (·.sequence)).Nodup := by
  apply List.Nodup.map_on
  · intro a ha b hb heq
    obtain ⟨hsession, name, hname⟩ := mem_sessionRows.mp ha
    obtain ⟨hsession', name', hname'⟩ := mem_sessionRows.mp hb
    have hnames := hk.unique name name' a b hname hname' (hsession.trans hsession'.symm) heq
    rw [hnames, hname', Option.some.injEq] at hname
    exact hname.symm
  · exact hk.sound.nodup_records.filter _

theorem nodup_positions (hs : db.Sound) (session : String) :
    ((db.sessionChanges session).map (·.2)).Nodup := by
  unfold Db.sessionChanges
  rw [List.Nodup, List.pairwise_map, List.pairwise_filterMap]
  have hkeys : db.recordChanges.entries.Pairwise fun a b => a.1 ≠ b.1 :=
    List.pairwise_map.mp db.recordChanges.nodupKeys
  apply hkeys.imp_of_mem
  rintro ⟨name, change⟩ ⟨name', change'⟩ ha hb hne ⟨row, position⟩ hrow ⟨row', position'⟩ hrow' heq
  have hposition : change.position = position := by
    split at hrow
    · obtain ⟨found, -, hfound⟩ := Option.map_eq_some_iff.mp hrow
      exact (Prod.mk.inj hfound).2
    · cases hrow
  have hposition' : change'.position = position' := by
    split at hrow'
    · obtain ⟨found, -, hfound⟩ := Option.map_eq_some_iff.mp hrow'
      exact (Prod.mk.inj hfound).2
    · cases hrow'
  have hsame : position = position' := heq
  apply hne
  exact hs.distinct name name' change change' ((HashMap.mem_entries_iff _ _ _).mp ha)
    ((HashMap.mem_entries_iff _ _ _).mp hb) (by omega)

/-- What the pages of a served session hold is accepted. -/
theorem Serves.accepted {limit : Nat} (h : Serves J accepts db session limit) {row : RowData Text}
    {v : Snapshot} (hrow : row ∈ db.sessionRows session.asStr) (hreads : (reading J).Reads row v) :
    v.record.sessionId = session ∧ accepts v = true := by
  obtain ⟨v', hreads', haccepts⟩ := h.reads row hrow
  obtain rfl := (reading J).functional hreads' hreads
  obtain ⟨e, he, rfl⟩ := hreads
  exact ⟨Identifier.asStr_inj.mp (he.session.symm.trans (mem_sessionRows.mp hrow).1), haccepts⟩

/-- A page of a scan can be read, and leaves less. -/
theorem Serves.scan {limit : Nat} (hk : db.Ordered) (h : Serves J accepts db session limit)
    {cursor : Option ChangeCursor} {after : Option Nat} (hgiven : after.isSome → cursor.isSome)
    (hbound : ∀ n, after = some n → (n : Int) ≤ i64Max)
    (hbehind : ∀ c, cursor = some c → IsBehind db session c) :
    ∃ page, ScanPage J db session cursor after limit page ∧
      (∀ v ∈ page.records, v.record.sessionId = session ∧ accepts v = true) ∧
      (page.pageFull = true ↔ limit ≤ rowsLeft db session (scanStart after)) ∧
      (page.pageFull = true → ∃ n, page.nextAfter = some n ∧ (n : Int) ≤ i64Max ∧
        rowsLeft db session (scanStart (some n)) =
          rowsLeft db session (scanStart after) - limit) := by
  obtain ⟨hmin, hmax⟩ := h.limit
  have hrows : ∀ row ∈ selectAfter (·.sequence) (db.sessionRows session.asStr) (scanStart after) limit,
      ∃ v, (reading J).Reads row v := by
    intro row hrow
    obtain ⟨v, hv, -⟩ := h.reads row (mem_selectAfter hrow).1
    exact ⟨v, hv⟩
  obtain ⟨records, hread⟩ := exists_forall₂ hrows
  have hkept : ∃ kept, (cursor = none ∧ IsHead db session kept) ∨
      (cursor = some kept ∧ IsBehind db session kept) := by
    cases hcursor : cursor with
    | none =>
      obtain ⟨head, hhead⟩ := exists_head hk.sound session
      exact ⟨head, .inl ⟨rfl, hhead⟩⟩
    | some c => exact ⟨c, .inr ⟨rfl, hbehind c hcursor⟩⟩
  obtain ⟨kept, hkept⟩ := hkept
  have hlength := hread.length_eq
  rw [length_selectAfter] at hlength
  refine ⟨⟨records, kept, records.getLast?.map (·.record.sequence), records.length == limit⟩,
    ⟨h.limit, hgiven, hbound, h.known, hkept, ?_, rfl, rfl⟩, ?_, ?_, ?_⟩
  · rw [selectRecords_eq]
    exact hread
  · intro v hv
    obtain ⟨row, hrow, hreads⟩ := exists_of_mem_right hread hv
    exact h.accepted (mem_selectAfter hrow).1 hreads
  · rw [beq_iff_eq, ← hlength, min_eq_left_iff]
    exact Iff.rfl
  · intro hfull
    have hcount : records.length = limit := by simpa using hfull
    have hne : records ≠ [] := by
      intro hnil
      rw [hnil, List.length_nil] at hcount
      omega
    have hlast := List.getLast?_eq_some_getLast hne
    obtain ⟨row, hrowLast, hreads⟩ := getLast?_of_forall₂ hread hlast
    obtain ⟨hsession, name, hname⟩ := mem_sessionRows.mp
      (mem_selectAfter (List.mem_of_getLast? hrowLast)).1
    obtain ⟨e, he, hcurrent⟩ := hreads
    have hsequence := he.sequence
    rw [hcurrent] at hsequence
    refine ⟨(records.getLast hne).record.sequence, by rw [hlast, Option.map_some], ?_, ?_⟩
    · rw [← hsequence]
      exact (hk.sequence name row hname).2
    · show remaining _ _ _ = _
      rw [show scanStart (some (records.getLast hne).record.sequence) = row.sequence from
        hsequence.symm]
      exact remaining_last (nodup_sequences hk session) hrowLast

/-- A page of changes can be read, and leaves less. -/
theorem Serves.change {limit : Nat} (hk : db.Ordered) (h : Serves J accepts db session limit)
    {cursor : ChangeCursor} (hbehind : IsBehind db session cursor) :
    ∃ page, ChangePage J db cursor limit page ∧
      (∀ v ∈ page.records, v.record.sessionId = session ∧ accepts v = true) ∧
      (page.pageFull = true ↔ limit ≤ changesLeft db session (some cursor)) ∧
      (page.pageFull = true → changesLeft db session (some page.cursor) =
        changesLeft db session (some cursor) - limit) := by
  obtain ⟨hmin, hmax⟩ := h.limit
  obtain ⟨epoch, hsession, hposition⟩ := hbehind
  subst hsession
  have hrows : ∀ row ∈ db.selectChanges cursor.sessionId.asStr cursor.position limit,
      ∃ r, ReadsAt J row r := by
    rintro ⟨row, position⟩ hrow
    obtain ⟨hsession, name, change, hname, hchange, hsame⟩ :=
      (mem_sessionChanges hk.sound).mp (mem_selectAfter hrow).1
    obtain ⟨v, hv, -⟩ := h.reads row (mem_sessionRows.mpr ⟨hsession, name, hname⟩)
    have hpos := (hk.sound.position name change hchange).1
    refine ⟨(v, position.toNat), hv, ?_⟩
    show position = (position.toNat : Int)
    omega
  obtain ⟨read, hread⟩ := exists_forall₂ hrows
  have hlength := hread.length_eq
  unfold Db.selectChanges at hlength
  rw [length_selectAfter] at hlength
  have hclock := hk.sound.clock
  -- the position of the page's cursor
  have hnext : ∃ position : Nat,
      (read.length = limit → ∃ last, read.getLast? = some last ∧ position = last.2) ∧
        (read.length ≠ limit → (position : Int) = db.changeClock.position) := by
    by_cases hfull : read.length = limit
    · have hne : read ≠ [] := by
        intro hnil
        rw [hnil, List.length_nil] at hfull
        omega
      exact ⟨(read.getLast hne).2, fun _ => ⟨_, List.getLast?_eq_some_getLast hne, rfl⟩,
        fun hshort => absurd hfull hshort⟩
    · refine ⟨db.changeClock.position.toNat, fun hfalse => absurd hfalse hfull, fun _ => ?_⟩
      omega
  obtain ⟨position, hfull, hshort⟩ := hnext
  refine ⟨⟨read.map (·.1), ⟨cursor.epoch, cursor.sessionId, position⟩, none,
    (read.map (·.1)).length == limit⟩, ⟨h.limit, h.known, ⟨epoch, rfl, hposition⟩,
      ⟨read, hread, rfl, hfull, hshort⟩, epoch, rfl, rfl, rfl⟩, ?_, ?_, ?_⟩
  · intro v hv
    obtain ⟨r, hr, rfl⟩ := List.mem_map.mp hv
    obtain ⟨⟨row, position⟩, hrow, hreads, -⟩ := exists_of_mem_right hread hr
    obtain ⟨hsession, name, change, hname, -⟩ :=
      (mem_sessionChanges hk.sound).mp (mem_selectAfter hrow).1
    exact h.accepted (mem_sessionRows.mpr ⟨hsession, name, hname⟩) hreads
  · rw [beq_iff_eq, List.length_map, ← hlength, min_eq_left_iff]
    exact Iff.rfl
  · intro hpage
    have hcount : read.length = limit := by simpa using hpage
    obtain ⟨last, hlast, rfl⟩ := hfull hcount
    obtain ⟨row, hrowLast, -, hlocated⟩ := getLast?_of_forall₂ hread hlast
    show remaining _ _ (last.2 : Int) = _
    rw [← hlocated]
    exact remaining_last (nodup_positions hk.sound cursor.sessionId.asStr) hrowLast

/-! ## One page -/

/-- A `sync` that waits for its first page. -/
def begun (state : SessionState) (limit : Nat) : Sync where
  limit := limit
  records := state.records
  cursor := state.position
  pages := 1
  loop := if state.position.isSome then .changes else .snapshot none

namespace Sample

def stored : StateSystem Json :=
  (Next.run (next SerdeJson.tree fun _ => true) (AgentBridge.Sample.noteOps.map .commit)
    (start (.empty Json "epoch") AgentBridge.Sample.session)).getD (start (.empty Json "epoch") AgentBridge.Sample.session)

end Sample

end StateSystem

end AgentBridge
