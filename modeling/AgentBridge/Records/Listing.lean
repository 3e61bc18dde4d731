import AgentBridge.Records.Sequences
import AgentBridge.Records.Durability
import AgentBridge.Reasoning.Paging

/-!
# Listing a whole session

A reader calls `list` again and again with the last sequence returned, while others commit calls of
any kind in between, until a page is not full.  It gets every record that the session held at its
first call once, in sequence, as long as the store can read its records back.
-/

namespace AgentBridge

open Reasoning

/-- One call of `list`, and what others commit before the next one. -/
structure Turn where
  limit : Nat
  meanwhile : List StoreOp

/-- The last sequence returned. -/
def lastSequence (after : Option Nat) (records : List Snapshot) : Option Nat :=
  match records.getLast? with
  | some s => some s.record.sequence
  | none => after

/-- The records that a reader has collected, and whether it has met a page that is not full. -/
def listAll {σ : Type} (m : StoreMachine σ) (session : SessionId) (after : Option Nat) :
    List Turn → σ → Except Fault (List Snapshot × Bool)
  | [], _ => .ok ([], false)
  | turn :: turns, s => do
      let records ← (m.exec (.list session after turn.limit) s).1
      if records.length < turn.limit then .ok (records, true)
      else do
        let (rest, done) ← listAll m session (lastSequence after records) turns
          (m.after turn.meanwhile (m.exec (.list session after turn.limit) s).2)
        .ok (records ++ rest, done)

/-- What a reader gets that starts when the session holds `first` and ends when it holds `last`. -/
structure Collected (session : SessionId) (first last : List RecordId) (limits : List Nat)
    (records : List Snapshot) (done : Bool) : Prop where
  complete : done = true → first <+: records.map (·.record.id)
  /-- A reader that is not done has asked for more records than the session held. -/
  more : done = false → records.length = limits.sum
  read : records.map (·.record.id) <+: last
  once : (records.map (·.record.id)).Nodup
  sequence : records.map (·.record.sequence) = List.range records.length
  session : ∀ s ∈ records, s.record.sessionId = session

/-! ## Pages -/

/-- A cursor before the record with this sequence. -/
def cursor : Nat → Option Nat
  | 0 => none
  | start + 1 => some start

/-- The snapshots of these ids, with their sequences from `start` on. -/
structure IsPage (session : SessionId) (start : Nat) (ids : List RecordId)
    (records : List Snapshot) : Prop where
  ids : records.map (·.record.id) = ids
  place : ∀ i s, records[i]? = some s →
    s.record.sequence = start + i ∧ s.record.sessionId = session

namespace IsPage

variable {session : SessionId} {start : Nat} {ids others : List RecordId}
  {records rest : List Snapshot}

theorem nil (session : SessionId) (start : Nat) : IsPage session start [] [] :=
  ⟨rfl, fun _ _ h => by cases h⟩

theorem length (h : IsPage session start ids records) : records.length = ids.length := by
  rw [← h.ids, List.length_map]

theorem append (h : IsPage session start ids records)
    (h' : IsPage session (start + ids.length) others rest) :
    IsPage session start (ids ++ others) (records ++ rest) := by
  have hlength := h.length
  constructor
  · rw [List.map_append, h.ids, h'.ids]
  · intro i s hs
    by_cases hi : i < records.length
    · rw [List.getElem?_append_left hi] at hs
      exact h.place i s hs
    · rw [List.getElem?_append_right (by omega)] at hs
      have hplace := h'.place _ s hs
      exact ⟨by omega, hplace.2⟩

theorem cons {s : Snapshot} (h : IsPage session (start + 1) ids records)
    (hsequence : s.record.sequence = start) (hsession : s.record.sessionId = session) :
    IsPage session start (s.record.id :: ids) (s :: records) := by
  have hfirst : IsPage session start [s.record.id] [s] := by
    refine ⟨rfl, ?_⟩
    intro i other ho
    have hi := (List.getElem?_eq_some_iff.mp ho).1
    rw [List.length_singleton] at hi
    obtain rfl : i = 0 := by omega
    obtain rfl := Option.some.inj ho
    exact ⟨hsequence, hsession⟩
  exact hfirst.append h

/-- The cursor behind a page. -/
theorem lastSequence_eq (h : IsPage session start ids records) :
    lastSequence (cursor start) records = cursor (start + ids.length) := by
  rw [← h.length]
  unfold lastSequence
  rw [List.getLast?_eq_getElem?]
  by_cases hempty : records.length = 0
  · rw [hempty, List.getElem?_eq_none (by omega)]
    rfl
  · have hlt : records.length - 1 < records.length := by omega
    rw [List.getElem?_eq_getElem hlt]
    have hplace := (h.place _ _ (List.getElem?_eq_getElem hlt)).1
    have hnext : start + records.length = (start + (records.length - 1)) + 1 := by omega
    rw [hnext]
    dsimp only
    rw [hplace]
    rfl

theorem sequence (h : IsPage session start ids records) :
    records.map (·.record.sequence) = List.range' start records.length := by
  apply List.ext_getElem?
  intro i
  rw [List.getElem?_map]
  by_cases hi : i < records.length
  · rw [List.getElem?_range' hi, List.getElem?_eq_getElem hi, Option.map_some,
      (h.place i _ (List.getElem?_eq_getElem hi)).1, Nat.one_mul]
  · rw [List.getElem?_eq_none (by omega), List.getElem?_eq_none (by simpa using hi)]
    rfl

end IsPage

/-- The pages that a store's `list` answers when the session holds these ids. -/
def ListsFrom {σ : Type} (m : StoreMachine σ) (session : SessionId) (ids : List RecordId) (s : σ) :
    Prop :=
  ∀ start limit, start ≤ ids.length → 1 ≤ limit → limit ≤ 1000 →
    ∃ records, m.exec (.list session (cursor start) limit) s = (.ok records, s) ∧
      IsPage session start (page ids start limit) records

section Reader

variable {σ : Type} {m : StoreMachine σ} {session : SessionId}

/-- What the reader gets are the pages that it takes of the session's list as that list grows. -/
theorem listAll_eq {turns : List Turn} {s : σ} {journal : Journal} {ids last : List RecordId}
    {start : Nat} (hids : journal session = some ids) (hstart : start ≤ ids.length)
    (hlimits : ∀ turn ∈ turns, 1 ≤ turn.limit ∧ turn.limit ≤ 1000)
    (hlast : journal.after m (turns.flatMap (·.meanwhile)) s session = some last)
    (hlists : ∀ pre, pre <+: turns.flatMap (·.meanwhile) → ∀ ids,
      journal.after m pre s session = some ids → ListsFrom m session ids (m.after pre s)) :
    ∃ records reads, reads.map (·.2) = turns.map (·.limit) ∧
      (∀ read ∈ reads, ids <+: read.1 ∧ read.1 <+: last) ∧
      listAll m session (cursor start) turns s = .ok (records, (readPages start reads).2) ∧
      IsPage session start (readPages start reads).1 records := by
  induction turns generalizing s journal ids start with
  | nil => exact ⟨[], [], rfl, by simp, rfl, .nil session start⟩
  | cons turn turns ih =>
    obtain ⟨hmin, hmax⟩ := hlimits turn (by simp)
    rw [List.flatMap_cons] at hlast hlists
    obtain ⟨records, hexec, hpage⟩ := hlists [] List.nil_prefix ids hids start turn.limit hstart
      hmin hmax
    have hexec' : m.exec (.list session (cursor start) turn.limit) s = (.ok records, s) := hexec
    have hlength := hpage.length
    have hread := length_page ids start turn.limit
    obtain ⟨grown, hgrown, hfront⟩ := Journal.grows_after (m := m) turn.meanwhile s session ids hids
    rw [Journal.after_append] at hlast
    have hrest : ∀ pre, pre <+: turns.flatMap (·.meanwhile) → ∀ ids,
        (journal.after m turn.meanwhile s).after m pre (m.after turn.meanwhile s) session =
          some ids → ListsFrom m session ids (m.after pre (m.after turn.meanwhile s)) := by
      intro pre hpre others hothers
      rw [← Journal.after_append] at hothers
      rw [← Machine.after_append]
      exact hlists _ ((List.prefix_append_right_inj _).mpr hpre) others hothers
    obtain ⟨grown', hgrown', hfront'⟩ := Journal.grows_after (m := m)
      (turns.flatMap (·.meanwhile)) (m.after turn.meanwhile s) session grown hgrown
    rw [hlast, Option.some.injEq] at hgrown'
    subst hgrown'
    by_cases hshort : (page ids start turn.limit).length < turn.limit
    · -- the reads after a page that is not full are not made
      refine ⟨records, (ids, turn.limit) :: turns.map fun t => (grown, t.limit), ?_, ?_, ?_, ?_⟩
      · simp [Function.comp_def]
      · intro read hmem
        rcases List.mem_cons.mp hmem with rfl | hmem
        · exact ⟨List.prefix_refl _, hfront.trans hfront'⟩
        · obtain ⟨t, -, rfl⟩ := List.mem_map.mp hmem
          exact ⟨hfront, hfront'⟩
      · rw [readPages, if_pos hshort, listAll, hexec']
        simp only [ok_bind]
        rw [if_pos (by omega)]
      · rw [readPages, if_pos hshort]
        exact hpage
    · have hfull : (page ids start turn.limit).length = turn.limit := by omega
      have hnext : start + turn.limit ≤ grown.length := by
        have := hfront.length_le
        omega
      obtain ⟨rest, reads, hreads, hbetween, hlist, hrestPage⟩ :=
        ih hgrown hnext (fun t ht => hlimits t (by simp [ht])) hlast hrest
      refine ⟨records ++ rest, (ids, turn.limit) :: reads, ?_, ?_, ?_, ?_⟩
      · rw [List.map_cons, List.map_cons, hreads]
      · intro read hmem
        rcases List.mem_cons.mp hmem with rfl | hmem
        · exact ⟨List.prefix_refl _, hfront.trans hfront'⟩
        · exact ⟨hfront.trans (hbetween read hmem).1, (hbetween read hmem).2⟩
      · rw [readPages, if_neg hshort, listAll, hexec']
        simp only [ok_bind]
        rw [if_neg (by omega), hpage.lastSequence_eq, hfull, hlist]
        rfl
      · rw [readPages, if_neg hshort]
        apply hpage.append
        rw [hfull]
        exact hrestPage

theorem listAll_collects {turns : List Turn} {s : σ} {journal : Journal}
    {first last : List RecordId} (hfirst : journal session = some first)
    (hlimits : ∀ turn ∈ turns, 1 ≤ turn.limit ∧ turn.limit ≤ 1000)
    (hlast : journal.after m (turns.flatMap (·.meanwhile)) s session = some last)
    (hnodup : last.Nodup)
    (hlists : ∀ pre, pre <+: turns.flatMap (·.meanwhile) → ∀ ids,
      journal.after m pre s session = some ids → ListsFrom m session ids (m.after pre s)) :
    ∃ records done, listAll m session none turns s = .ok (records, done) ∧
      Collected session first last (turns.map (·.limit)) records done := by
  obtain ⟨records, reads, hreads, hbetween, hlist, hpage⟩ :=
    listAll_eq hfirst (Nat.zero_le _) hlimits hlast hlists
  have hread : (readPages 0 reads).1 <+: last := by
    simpa using readPages_prefix (fun read hmem => (hbetween read hmem).2) 0
  refine ⟨records, _, hlist, ?_⟩
  constructor
  case complete =>
    intro hdone
    obtain ⟨grown, hgrown, hfront⟩ :=
      Journal.grows_after (m := m) (turns.flatMap (·.meanwhile)) s session first hfirst
    rw [hlast, Option.some.injEq] at hgrown
    rw [hpage.ids]
    exact prefix_readPages (fun read hmem => (hbetween read hmem).1)
      (fun read hmem => (hbetween read hmem).2) (hgrown ▸ hfront) hdone
  case more =>
    intro hmore
    rw [hpage.length, length_readPages 0 hmore, hreads]
  case read =>
    rw [hpage.ids]
    exact hread
  case once =>
    rw [hpage.ids]
    exact hnodup.sublist hread.sublist
  case sequence =>
    rw [hpage.sequence, List.range_eq_range']
  case session =>
    intro s hs
    obtain ⟨i, hi⟩ := List.mem_iff_getElem?.mp hs
    exact (hpage.place i s hi).2

end Reader

/-! ## The in-memory store -/

namespace MemoryStore

variable {state : State} {journal : Journal}

/-- A `Vec` holds at most `isize::MAX` bytes. -/
def isizeMax : Nat := 2 ^ 63 - 1

/-- The sessions' lists fit in a `Vec`. -/
def State.Addressable (state : State) : Prop :=
  ∀ session ids, state.sessions.lookup session = some ids → ids.length ≤ isizeMax

/-- The `map` of `list` over ids of one session from a sequence on. -/
theorem State.WellFormed.currents_page (h : state.WellFormed) {session : SessionId} {start : Nat}
    {ids : List RecordId} (hids : ∀ i id, ids[i]? = some id → state.Placed id session (start + i)) :
    ∃ records, currents state ids = .ok records ∧ IsPage session start ids records := by
  induction ids generalizing start with
  | nil => exact ⟨[], rfl, .nil session start⟩
  | cons id ids ih =>
    obtain ⟨entry, hentry, hsession, hsequence⟩ := hids 0 id rfl
    have htail : ∀ i other, ids[i]? = some other → state.Placed other session (start + 1 + i) := by
      intro i other hother
      rw [Nat.add_right_comm]
      exact hids (i + 1) other hother
    obtain ⟨records, hrecords, hpage⟩ := ih htail
    have hid := (h.entries id entry hentry).2
    refine ⟨entry.current :: records, ?_, ?_⟩
    · simp only [currents, hentry, hrecords, ok_bind]
    · rw [← hid]
      exact hpage.cons hsequence hsession

theorem State.Keeps.listsFrom (h : state.Keeps journal) {session : SessionId} {ids : List RecordId}
    (hids : journal session = some ids) (hbound : ids.length ≤ isizeMax) :
    ListsFrom machine session ids state := by
  intro start limit hstart hmin hmax
  have hlookup := (h.sessions session).trans hids
  have hplaced : ∀ i id, (page ids start limit)[i]? = some id →
      state.Placed id session (start + i) := by
    intro i id hi
    rw [State.Keeps.placed_iff h.wellFormed]
    refine ⟨ids, hlookup, ?_⟩
    unfold page at hi
    rw [List.getElem?_take] at hi
    split at hi
    · rw [← hi, List.getElem?_drop]
    · cases hi
  obtain ⟨records, hrecords, hpage⟩ := h.wellFormed.currents_page hplaced
  refine ⟨records, ?_, hpage⟩
  show (list session (cursor start) limit state, state) = _
  have hlist : list session (cursor start) limit state = currents state (page ids start limit) := by
    unfold list
    rw [if_neg (by omega), hlookup]
    cases start with
    | zero => rfl
    | succ n =>
      -- the cursor is at most the last index, so it has a successor
      have hlt : n < u64Max := by
        unfold isizeMax at hbound
        unfold u64Max
        omega
      simp only [cursor, Rules.checkedSucc_eq_some.mpr ⟨hlt, rfl⟩, Option.getD_some]
      rfl
  rw [hlist, hrecords]

/-- The lists of a state that later calls leave addressable were addressable. -/
theorem State.Keeps.bound (h : state.Keeps journal) {ops : List StoreOp}
    (hbound : (machine.after ops state).Addressable) {session : SessionId} {ids : List RecordId}
    (hids : journal session = some ids) : ids.length ≤ isizeMax := by
  obtain ⟨grown, hgrown, hfront⟩ := Journal.grows_after (m := machine) ops state session ids hids
  have hlookup := ((h.after ops).sessions session).trans hgrown
  exact hfront.length_le.trans (hbound session grown hlookup)

end MemoryStore

/-! ## The SQLite store -/

namespace SqliteStore

variable {Text : Type} {J : SerdeJson Text} {db : Db Text} {journal : Journal}

/-- The rows of these records. -/
def Db.rowsOf (db : Db Text) (ids : List RecordId) : List (RowData Text) :=
  ids.filterMap fun id => db.records.lookup id.asStr

theorem Db.Sound.nodup_records (hs : db.Sound) : db.records.values.Nodup := by
  apply HashMap.nodup_values
  intro name name' row hrow hrow'
  rw [← hs.key name row hrow, ← hs.key name' row hrow']

namespace Db.Keeps

/-- The rows that come from a sequence on are those of the list's end. -/
theorem selectRecords (h : db.Keeps journal) {session : SessionId} {ids : List RecordId}
    (hids : journal session = some ids) (start limit : Nat) :
    db.selectRecords session.asStr ((start : Int) - 1) limit =
      db.rowsOf (page ids start limit) := by
  have hfound : ∀ i id, (ids.drop start)[i]? = some id → db.Placed id session (start + i) := by
    intro i id hi
    rw [List.getElem?_drop] at hi
    exact (h.orders.place _ _ _).mpr ⟨ids, hids, hi⟩
  have hsome : ∀ id ∈ ids.drop start, (db.records.lookup id.asStr).isSome := by
    intro id hid
    obtain ⟨i, hi⟩ := List.mem_iff_getElem?.mp hid
    obtain ⟨row, hrow, -⟩ := hfound i id hi
    rw [hrow]
    rfl
  unfold Db.selectRecords Db.rowsOf page
  rw [← take_filterMap _ _ hsome]
  congr 1
  apply insertionSort_eq_of_mem_iff (h.sound.nodup_records.filter _)
  · intro row
    simp only [List.mem_filterMap, List.mem_filter, HashMap.mem_values_iff, Bool.and_eq_true,
      beq_iff_eq, decide_eq_true_eq, Int.sub_one_lt_iff]
    constructor
    · rintro ⟨id, hid, hrow⟩
      obtain ⟨i, hi⟩ := List.mem_iff_getElem?.mp hid
      obtain ⟨row', hrow', hsession, hsequence⟩ := hfound i id hi
      rw [hrow, Option.some.injEq] at hrow'
      subst hrow'
      exact ⟨⟨_, hrow⟩, hsession, by omega⟩
    · rintro ⟨⟨name, hrow⟩, hsession, hsequence⟩
      obtain ⟨id, other, i, rfl, row', hrow', hother, hi⟩ := h.named name row hrow
      rw [hrow, Option.some.injEq] at hrow'
      subst hrow'
      have hsame : other = session := Identifier.asStr_inj.mp (hother.symm.trans hsession)
      subst hsame
      obtain ⟨ids', hids', hget⟩ := (h.orders.place id other i).mp ⟨row, hrow, hother, hi⟩
      rw [hids, Option.some.injEq] at hids'
      subst hids'
      refine ⟨id, ?_, hrow⟩
      apply List.mem_of_getElem? (i := i - start)
      rw [List.getElem?_drop, ← hget]
      congr 1
      omega
  · rw [List.pairwise_filterMap, List.pairwise_iff_getElem]
    intro i j hi hj hij row hrow row' hrow'
    obtain ⟨other, hother, -, hsequence⟩ := hfound i _ (List.getElem?_eq_getElem hi)
    obtain ⟨other', hother', -, hsequence'⟩ := hfound j _ (List.getElem?_eq_getElem hj)
    rw [hrow, Option.some.injEq] at hother
    rw [hrow', Option.some.injEq] at hother'
    subst hother hother'
    omega

/-- Rows that read, at the places of these ids, decode to a page. -/
theorem decodeRows_page (hr : db.Readable J) (hs : db.Sound) {session : SessionId} {start : Nat}
    {ids : List RecordId} (hids : ∀ i id, ids[i]? = some id → db.Placed id session (start + i)) :
    ∃ records, decodeRows J (db.rowsOf ids) = .ok records ∧ IsPage session start ids records := by
  induction ids generalizing start with
  | nil => exact ⟨[], rfl, .nil session start⟩
  | cons id ids ih =>
    obtain ⟨row, hrow, hsession, hsequence⟩ := hids 0 id rfl
    have htail : ∀ i other, ids[i]? = some other → db.Placed other session (start + 1 + i) := by
      intro i other hother
      rw [Nat.add_right_comm]
      exact hids (i + 1) other hother
    obtain ⟨records, hrecords, hpage⟩ := ih htail
    obtain ⟨e, he, -⟩ := hr _ _ hrow
    have hid : e.current.record.id = id := by
      apply Identifier.asStr_inj.mp
      rw [← he.id, hs.key _ _ hrow]
    have hsame : e.current.record.sessionId = session := by
      apply Identifier.asStr_inj.mp
      rw [← he.session, hsession]
    have hplace : e.current.record.sequence = start := by
      have := he.sequence
      omega
    have hrows : db.rowsOf (id :: ids) = row :: db.rowsOf ids := by
      simp only [Db.rowsOf, List.filterMap_cons, hrow]
    refine ⟨e.current :: records, ?_, ?_⟩
    · simp only [hrows, decodeRows, decode_eq_ok.mpr he, ok_bind, hrecords]
    · rw [← hid]
      exact hpage.cons hplace hsame

theorem listsFrom (h : db.Keeps journal) (hr : db.Readable J) {session : SessionId}
    {ids : List RecordId} (hids : journal session = some ids) :
    ListsFrom (machine J) session ids db := by
  intro start limit hstart hmin hmax
  have hbound := h.bound session ids hids
  have hplaced : ∀ i id, (page ids start limit)[i]? = some id → db.Placed id session (start + i) := by
    intro i id hi
    refine (h.orders.place _ _ _).mpr ⟨ids, hids, ?_⟩
    unfold page at hi
    rw [List.getElem?_take] at hi
    split at hi
    · rw [← hi, List.getElem?_drop]
    · cases hi
  obtain ⟨records, hrecords, hpage⟩ := decodeRows_page hr h.sound hplaced
  refine ⟨records, ?_, hpage⟩
  show (orFault (list J session (cursor start) limit db), db) = _
  have hsession : (db.sessions.lookup session.asStr).isSome := by
    rw [h.sessions, hids]
    rfl
  have hcursor : ∀ a, cursor start = some a → (a : Int) ≤ i64Max := by
    intro a ha
    cases start with
    | zero => cases ha
    | succ n =>
      obtain rfl := Option.some.inj ha
      omega
  have hafter : ((cursor start).elim (-1) fun a => (a : Int)) = (start : Int) - 1 := by
    cases start with
    | zero => rfl
    | succ n =>
      simp only [cursor, Option.elim]
      omega
  rw [list_eq hsession ⟨hmin, hmax⟩ hcursor, hafter, h.selectRecords hids, hrecords]
  rfl

end Db.Keeps

end SqliteStore

/-! ## Both stores -/

/-- A reader that starts after the calls of `ops` collects the session as the journals tell it. -/
def CollectsAll {σ : Type} (m : StoreMachine σ) (start : σ) (ops : List StoreOp)
    (session : SessionId) (turns : List Turn) : Prop :=
  ∀ first, Journal.empty.after m ops start session = some first →
    ∃ last, Journal.empty.after m (ops ++ turns.flatMap (·.meanwhile)) start session = some last ∧
      ∃ records done, listAll m session none turns (m.after ops start) = .ok (records, done) ∧
        Collected session first last (turns.map (·.limit)) records done

section Collects

variable {σ : Type} {m : StoreMachine σ} {start : σ} {ops : List StoreOp} {session : SessionId}
  {turns : List Turn}

theorem collectsAll_of_listsFrom (hlimits : ∀ turn ∈ turns, 1 ≤ turn.limit ∧ turn.limit ≤ 1000)
    (hnodup : ∀ ids, Journal.empty.after m (ops ++ turns.flatMap (·.meanwhile)) start session =
      some ids → ids.Nodup)
    (hlists : ∀ pre, pre <+: turns.flatMap (·.meanwhile) → ∀ ids,
      Journal.empty.after m (ops ++ pre) start session = some ids →
        ListsFrom m session ids (m.after (ops ++ pre) start)) :
    CollectsAll m start ops session turns := by
  intro first hfirst
  obtain ⟨last, hlast, -⟩ := Journal.grows_after (m := m) (turns.flatMap (·.meanwhile))
    (m.after ops start) session first hfirst
  have hend := hlast
  rw [← Journal.after_append] at hend
  refine ⟨last, hend, listAll_collects hfirst hlimits hlast (hnodup last hend) ?_⟩
  intro pre hpre ids hids
  rw [← Journal.after_append] at hids
  rw [← Machine.after_append]
  exact hlists pre hpre ids hids

end Collects

theorem MemoryStore.collectsAll {ops : List StoreOp} {session : SessionId} {turns : List Turn}
    (hlimits : ∀ turn ∈ turns, 1 ≤ turn.limit ∧ turn.limit ≤ 1000)
    (hbound : (machine.after (ops ++ turns.flatMap (·.meanwhile)) .default).Addressable) :
    CollectsAll machine .default ops session turns := by
  have hkeeps := fun calls => State.Keeps.default.after calls
  apply collectsAll_of_listsFrom hlimits
  · intro ids hids
    exact (hkeeps _).orders.nodup session ids hids
  · intro pre hpre ids hids
    obtain ⟨post, hpost⟩ := hpre
    apply (hkeeps _).listsFrom hids
    rw [← hpost, ← List.append_assoc, Machine.after_append] at hbound
    exact (hkeeps (ops ++ pre)).bound hbound hids

theorem SqliteStore.collectsAll {Text : Type} {J : SerdeJson Text} (hJ : J.Lawful) {epoch : String}
    {ops : List StoreOp} {session : SessionId} {turns : List Turn}
    (hlimits : ∀ turn ∈ turns, 1 ≤ turn.limit ∧ turn.limit ≤ 1000)
    (hgood : GoodRun (machine J) (fun c db => db.Storable J c)
      (ops ++ turns.flatMap (·.meanwhile)) (Db.empty Text epoch)) :
    CollectsAll (machine J) (Db.empty Text epoch) ops session turns := by
  have hkeeps := fun calls => (@Db.Keeps.empty Text epoch).after (J := J) calls
  apply collectsAll_of_listsFrom hlimits
  · intro ids hids
    exact (hkeeps _).orders.nodup session ids hids
  · intro pre hpre ids hids
    obtain ⟨post, hpost⟩ := hpre
    rw [← hpost, ← List.append_assoc] at hgood
    have hintact := (versionedStore hJ).inv_after (.empty epoch) (GoodRun.append.mp hgood).1
    exact (hkeeps _).listsFrom hintact.readable hids

/-- After every run of either store the records of each session have the sequences from 0 on, in
the order of their creation.  A reader of the in-memory store gets them all; a reader of the SQLite
store does as long as what calls commit, before and meanwhile, can be stored. -/
theorem sessions_are_gapless_and_listed {Text : Type} (J : SerdeJson Text) (hJ : J.Lawful)
    (epoch : String) (ops : List StoreOp) :
    (Journal.empty.after MemoryStore.machine ops .default).Orders
        (MemoryStore.machine.after ops .default).Placed ∧
    (Journal.empty.after (SqliteStore.machine J) ops (SqliteStore.Db.empty Text epoch)).Orders
        ((SqliteStore.machine J).after ops (SqliteStore.Db.empty Text epoch)).Placed ∧
    (∀ name row, ((SqliteStore.machine J).after ops
        (SqliteStore.Db.empty Text epoch)).records.lookup name = some row →
      ∃ (id : RecordId) (session : SessionId) (i : Nat), name = id.asStr ∧
        ((SqliteStore.machine J).after ops (SqliteStore.Db.empty Text epoch)).Placed
          id session i) ∧
    ∀ (session : SessionId) (turns : List Turn),
      (∀ turn ∈ turns, 1 ≤ turn.limit ∧ turn.limit ≤ 1000) →
      ((MemoryStore.machine.after (ops ++ turns.flatMap (·.meanwhile)) .default).Addressable →
        CollectsAll MemoryStore.machine .default ops session turns) ∧
      (GoodRun (SqliteStore.machine J) (fun c db => db.Storable J c)
          (ops ++ turns.flatMap (·.meanwhile)) (SqliteStore.Db.empty Text epoch) →
        CollectsAll (SqliteStore.machine J) (SqliteStore.Db.empty Text epoch) ops session
          turns) := by
  have hmemory := MemoryStore.State.Keeps.default.after ops
  have hsqlite := (@SqliteStore.Db.Keeps.empty Text epoch).after (J := J) ops
  refine ⟨hmemory.orders, hsqlite.orders, hsqlite.named, ?_⟩
  intro session turns hlimits
  exact ⟨MemoryStore.collectsAll hlimits, SqliteStore.collectsAll hJ hlimits⟩

namespace Sample

def remarkDraft : Draft := { noteDraft with id := ⟨"remark", (rfl : false = false)⟩ }

/-- A session of two records. -/
def pairOps : List StoreOp := listingOps ++ [⟨.insert noteDraft⟩]

/-- Pages of one record, read while the activity gets its input and a third record comes. -/
def turns : List Turn :=
  [⟨1, [⟨.checkpoint listing 0 (activity (some path)) .opened⟩, ⟨.insert remarkDraft⟩]⟩, ⟨1, []⟩,
    ⟨1, []⟩, ⟨1, []⟩]

theorem addressable :
    (MemoryStore.machine.after (pairOps ++ turns.flatMap (·.meanwhile)) .default).Addressable := by
  intro other ids hids
  have hlookup := ((MemoryStore.State.Keeps.default.after
    (pairOps ++ turns.flatMap (·.meanwhile))).sessions other).symm.trans hids
  have hjournal : Journal.empty.after MemoryStore.machine
      (pairOps ++ turns.flatMap (·.meanwhile)) .default =
        (((Journal.empty.create session).append listingDraft).append noteDraft).append
          remarkDraft := rfl
  rw [hjournal] at hlookup
  by_cases hother : other = session
  · subst hother
    obtain rfl := Option.some.inj hlookup
    decide
  · have hnone : (Journal.empty.create session) other = none := by
      rw [Journal.create, if_neg hother]
      rfl
    rw [Journal.append_of_ne hother, Journal.append_of_ne hother, Journal.append_of_ne hother,
      hnone] at hlookup
    cases hlookup

theorem turns_storable : GoodRun (SqliteStore.machine SerdeJson.tree)
    (fun c db => db.Storable SerdeJson.tree c) (pairOps ++ turns.flatMap (·.meanwhile))
      (SqliteStore.Db.empty Json "epoch") := by
  refine ⟨trivial, fun _ _ => by decide, fun _ _ => by decide, ?_, fun _ _ => by decide, trivial⟩
  intro e row change hu hadv
  have he : some e = some ⟨Rules.created listingDraft 0, Rules.created listingDraft 0⟩ :=
    hu.read_eq.symm.trans rfl
  obtain rfl := Option.some.inj he
  exact ⟨by decide, fun _ => by decide⟩

end Sample

theorem listing_is_collected :
    CollectsAll MemoryStore.machine .default Sample.pairOps Sample.session Sample.turns ∧
    CollectsAll (SqliteStore.machine SerdeJson.tree) (SqliteStore.Db.empty Json "epoch")
      Sample.pairOps Sample.session Sample.turns :=
  have hcollects := (sessions_are_gapless_and_listed SerdeJson.tree SerdeJson.tree_lawful "epoch"
    Sample.pairOps).2.2.2 Sample.session Sample.turns (by decide)
  ⟨hcollects.1 Sample.addressable, hcollects.2 Sample.turns_storable⟩

set_option maxRecDepth 4000 in
/-- A record whose payload the parser rejects makes `list` fail for the whole session. -/
theorem deep_record_is_not_collected :
    ¬ ∀ (ops : List StoreOp) (session : SessionId) (turns : List Turn),
      (∀ turn ∈ turns, 1 ≤ turn.limit ∧ turn.limit ≤ 1000) →
        CollectsAll (SqliteStore.machine SerdeJson.tree) (SqliteStore.Db.empty Json "epoch") ops
          session turns := by
  intro hclaim
  have hcollects := hclaim [⟨.createSession Sample.session⟩, ⟨.insert Sample.deepDraft⟩]
    Sample.session [⟨10, []⟩] (by decide) [Sample.listing] rfl
  obtain ⟨-, -, records, done, hlist, -⟩ := hcollects
  have hfails : listAll (SqliteStore.machine SerdeJson.tree) Sample.session none [⟨10, []⟩]
      ((SqliteStore.machine SerdeJson.tree).after
        [⟨.createSession Sample.session⟩, ⟨.insert Sample.deepDraft⟩]
        (SqliteStore.Db.empty Json "epoch")) =
      .error (.error (.corruptData "recursion limit exceeded")) := rfl
  rw [hfails] at hlist
  cases hlist

end AgentBridge
