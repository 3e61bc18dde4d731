import AgentBridge.Records.Journal

/-! # Both stores keep the order of the journal -/

namespace AgentBridge

open Reasoning

/-! ## The in-memory store -/

namespace MemoryStore

def State.Placed (state : State) (id : RecordId) (session : SessionId) (i : Nat) : Prop :=
  ∃ entry, state.records.lookup id = some entry ∧ entry.current.record.sessionId = session ∧
    entry.current.record.sequence = i

/-- The lists of the sessions are the journal's. -/
structure State.Keeps (state : State) (journal : Journal) : Prop where
  wellFormed : state.WellFormed
  sessions : ∀ session, state.sessions.lookup session = journal session

namespace State.Keeps

variable {state : State} {journal : Journal}

theorem default : State.default.Keeps .empty :=
  ⟨.default, fun _ => rfl⟩

theorem placed_iff (h : state.WellFormed) {id : RecordId} {session : SessionId} {i : Nat} :
    state.Placed id session i ↔
      ∃ ids, state.sessions.lookup session = some ids ∧ ids[i]? = some id := by
  constructor
  · rintro ⟨entry, hentry, rfl, rfl⟩
    exact h.placed id entry hentry
  · rintro ⟨ids, hids, hi⟩
    exact h.listed session ids i id hids hi

theorem orders (h : state.Keeps journal) : journal.Orders state.Placed := by
  constructor
  · intro session ids hids
    rw [← h.sessions] at hids
    rw [List.nodup_iff_getElem?_ne_getElem?]
    intro i j hij hj heq
    -- one record would have two sequences
    have hsome : ids[j]? = some ids[j] := List.getElem?_eq_getElem hj
    obtain ⟨entry, hentry, -, hi⟩ := h.wellFormed.listed session ids i _ hids (heq.trans hsome)
    obtain ⟨entry', hentry', -, hj'⟩ := h.wellFormed.listed session ids j _ hids hsome
    rw [hentry, Option.some.injEq] at hentry'
    rw [hentry', hj'] at hi
    omega
  · intro id session i
    rw [← h.sessions]
    exact placed_iff h.wellFormed

/-- A record stored is in the list of its session. -/
theorem mem_of_lookup (h : state.Keeps journal) {id : RecordId} {entry : Entry}
    (hentry : state.records.lookup id = some entry) :
    ∃ ids, journal entry.current.record.sessionId = some ids ∧ id ∈ ids :=
  h.orders.mem ⟨entry, hentry, rfl, rfl⟩

/-- A repeated creation. -/
theorem append_of_repeats (h : state.Keeps journal) {draft : Draft} {id : RecordId} {entry : Entry}
    (hrepeats : state.Repeats draft id entry) : journal.append draft = journal := by
  have hentry := h.wellFormed.entries id entry hrepeats.found
  have hsame := hrepeats.same
  rw [hentry.1.initial_eq] at hsame
  have hid : draft.id = id := by
    rw [← hsame, ← hentry.2]
    rfl
  have hsession : draft.sessionId = entry.current.record.sessionId := by
    rw [← hsame]
    rfl
  obtain ⟨ids, hids, hmem⟩ := h.mem_of_lookup hrepeats.found
  rw [← hsession] at hids
  rw [← hid] at hmem
  exact Journal.append_of_mem hids hmem

/-- A record created. -/
theorem sessions_append (h : state.Keeps journal) {draft : Draft} {ids : List RecordId}
    (hfresh : state.records.lookup draft.id = none)
    (hids : state.sessions.lookup draft.sessionId = some ids) (session : SessionId) :
    (state.sessions.insert draft.sessionId (ids ++ [draft.id])).lookup session =
      journal.append draft session := by
  have hout : draft.id ∉ ids := by
    intro hmem
    obtain ⟨i, hi⟩ := List.mem_iff_getElem?.mp hmem
    obtain ⟨entry, hentry, -⟩ := h.wellFormed.listed _ ids i _ hids hi
    rw [hfresh] at hentry
    cases hentry
  rw [Journal.append_of_fresh ((h.sessions _).symm.trans hids) hout, ← h.sessions]
  exact HashMap.lookup_insert_eq _ _ _ _

theorem createSession (h : state.Keeps journal) (id : SessionId) :
    (createSession id state).2.Keeps (journal.create id) := by
  refine ⟨h.wellFormed.createSession id, ?_⟩
  intro session
  unfold MemoryStore.createSession
  cases hids : state.sessions.lookup id with
  | some ids =>
    rw [Journal.create_of_some ((h.sessions id).symm.trans hids)]
    exact h.sessions session
  | none =>
    rw [Journal.create_of_none ((h.sessions id).symm.trans hids), ← h.sessions]
    exact HashMap.lookup_insert_eq _ _ _ _

theorem insert (h : state.Keeps journal) (draft : Draft) :
    (insert draft state).2.Keeps
      (journal.follow (.insert draft) (MemoryStore.insert draft state).1) := by
  refine ⟨h.wellFormed.insert draft, ?_⟩
  intro session
  obtain ⟨e, he⟩ | ⟨entry, -, hrepeats, he⟩ | ⟨ids, hins, he⟩ := insert_cases draft state
  · rw [he]
    exact h.sessions session
  · rw [he]
    show state.sessions.lookup session = journal.append draft session
    rw [h.append_of_repeats hrepeats]
    exact h.sessions session
  · rw [he]
    exact h.sessions_append hins.fresh hins.prepares.session session

theorem resolve (h : state.Keeps journal) (request : RecordId) (r : Nat) (decision : Draft) :
    (resolve request r decision state).2.Keeps
      (journal.follow (.resolve request r decision)
        (MemoryStore.resolve request r decision state).1) := by
  refine ⟨h.wellFormed.resolve request r decision, ?_⟩
  intro session
  obtain ⟨e, he⟩ | ⟨response, entry, -, hrepeats, he⟩ | ⟨entry, ids, ha, he⟩ :=
    resolve_cases (fun q a hd => (h.wellFormed.decisions q a hd).2) request r decision
  · rw [he]
    exact h.sessions session
  · rw [he]
    show state.sessions.lookup session = journal.append decision session
    rw [h.append_of_repeats hrepeats]
    exact h.sessions session
  · rw [he]
    exact h.sessions_append ha.fresh ha.prepares.session session

/-- The other calls leave the lists alone. -/
theorem sessions_of_concerns {β : Type} {c : StoreCall β} (hc : Journal.concerns c = false) :
    (exec c state).2.sessions = state.sessions := by
  cases c with
  | createSession id => cases hc
  | insert draft => cases hc
  | resolve request r decision => cases hc
  | registerRun spec =>
    show (MemoryStore.registerRun spec state).2.sessions = state.sessions
    obtain ⟨e, he⟩ | ⟨-, he⟩ | ⟨-, -, -, -, he⟩ := registerRun_cases spec state
    · rw [he]
    · rw [he]
    · rw [he]
  | checkpoint id r payload next =>
    show (MemoryStore.checkpoint id r payload next state).2.sessions = state.sessions
    obtain ⟨e, he⟩ | ⟨entry, new, -, -, he⟩ := checkpoint_cases id r payload next state
    · rw [he]
    · rw [he]
      rfl
  | saveContinuation value =>
    show (MemoryStore.saveContinuation value state).2.sessions = state.sessions
    unfold MemoryStore.saveContinuation
    split
    · rfl
    · rfl
  | claimContinuation id => rfl
  | linkExecution relation =>
    show (MemoryStore.linkExecution relation state).2.sessions = state.sessions
    obtain ⟨e, he⟩ | ⟨-, he⟩ | ⟨parent, child, -, -, -, -, he⟩ :=
      linkExecution_cases relation state
    · rw [he]
    · rw [he]
    · rw [he]
  | _ => rfl

theorem exec (h : state.Keeps journal) {β : Type} (c : StoreCall β) :
    (exec c state).2.Keeps (journal.follow c (MemoryStore.exec c state).1) := by
  cases hc : Journal.concerns c with
  | false =>
    rw [Journal.follow_of_concerns hc]
    refine ⟨h.wellFormed.exec c, ?_⟩
    rw [sessions_of_concerns hc]
    exact h.sessions
  | true =>
    cases c with
    | createSession id =>
      have hok : (MemoryStore.createSession id state).1 = .ok () := by
        unfold MemoryStore.createSession
        cases state.sessions.lookup id <;> rfl
      show (MemoryStore.createSession id state).2.Keeps
        (journal.follow (.createSession id) (MemoryStore.createSession id state).1)
      rw [hok]
      exact h.createSession id
    | insert draft => exact h.insert draft
    | resolve request r decision => exact h.resolve request r decision
    | _ => cases hc

/-- After every run the store keeps the journal of the run. -/
theorem after {start : State} (h : start.Keeps journal) (ops : List StoreOp) :
    (machine.after ops start).Keeps (journal.after machine ops start) := by
  induction ops generalizing journal start with
  | nil => exact h
  | cons op ops ih => exact ih (h.exec op.call)

end State.Keeps

end MemoryStore

/-! ## The SQLite store -/

namespace SqliteStore

variable {Text : Type} {J : SerdeJson Text} {db db' : Db Text} {journal : Journal}

def Db.Placed (db : Db Text) (id : RecordId) (session : SessionId) (i : Nat) : Prop :=
  ∃ row, db.records.lookup id.asStr = some row ∧ row.session = session.asStr ∧ row.sequence = i

/-- Each session's next sequence is the length of its list, and the rows have the places of the
journal. -/
structure Db.Keeps (db : Db Text) (journal : Journal) : Prop where
  sound : db.Sound
  sessions : ∀ session, db.sessions.lookup session.asStr =
    (journal session).map fun ids => (ids.length : Int)
  bound : ∀ session ids, journal session = some ids → (ids.length : Int) ≤ i64Max
  orders : journal.Orders db.Placed
  named : ∀ name row, db.records.lookup name = some row →
    ∃ (id : RecordId) (session : SessionId) (i : Nat), name = id.asStr ∧ db.Placed id session i

namespace Db.Keeps

theorem empty (epoch : String) : (Db.empty Text epoch).Keeps .empty := by
  refine ⟨.empty epoch, fun _ => rfl, (fun _ _ h => by cases h), ?_, ?_⟩
  · apply Journal.Orders.empty
    rintro id session i ⟨row, hrow, -⟩
    cases hrow
  · intro name row hrow
    cases hrow

theorem still (h : db.Keeps journal) (hstill : db.Still db') : db'.Keeps journal where
  sound := h.sound.sameRecords hstill.toSameRecords
  sessions := by rw [hstill.sessions]; exact h.sessions
  bound := h.bound
  orders := by
    unfold Db.Placed
    rw [hstill.records]
    exact h.orders
  named := by
    unfold Db.Placed
    rw [hstill.records]
    exact h.named

theorem createSession (h : db.Keeps journal) (id : SessionId) :
    (db.insertSession id.asStr).Keeps (journal.create id) := by
  have hsession := h.sessions id
  cases hids : journal id with
  | some ids =>
    rw [hids] at hsession
    have hsame : db.insertSession id.asStr = db := by
      unfold Db.insertSession
      rw [hsession]
      rfl
    rw [hsame, Journal.create_of_some hids]
    exact h
  | none =>
    rw [hids] at hsession
    have hnew : db.insertSession id.asStr = { db with sessions := db.sessions.insert id.asStr 0 } := by
      unfold Db.insertSession
      rw [hsession]
      rfl
    rw [hnew]
    refine ⟨{ h.sound with }, ?_, ?_, h.orders.create id, h.named⟩
    · intro session
      rw [Journal.create_of_none hids]
      refine (HashMap.lookup_insert_eq _ _ _ _).trans ?_
      simp only [Identifier.asStr_inj]
      split
      · rfl
      · exact h.sessions session
    · intro session others hothers
      rw [Journal.create_of_none hids] at hothers
      split at hothers
      · obtain rfl := Option.some.inj hothers
        decide
      · exact h.bound session others hothers

/-- Another version of a record has its place. -/
theorem placed_afterUpdate {record : RecordId} {e : Entry} {row : RowData Text}
    {change : RecordChange} (hu : Updates J db record e row change) (new : Snapshot)
    (id : RecordId) (session : SessionId) (i : Nat) :
    (afterUpdate J db row change e.current new).Placed id session i ↔ db.Placed id session i := by
  unfold Db.Placed
  rw [lookup_afterUpdate, hu.named]
  by_cases hid : id.asStr = record.asStr
  · rw [if_pos hid, hid, hu.found]
    constructor
    · rintro ⟨other, hother, hplace⟩
      obtain rfl := Option.some.inj hother
      exact ⟨row, rfl, hplace⟩
    · rintro ⟨other, hother, hplace⟩
      obtain rfl := Option.some.inj hother
      exact ⟨_, rfl, hplace⟩
  · rw [if_neg hid]

theorem afterUpdate (h : db.Keeps journal) {record : RecordId} {e : Entry} {row : RowData Text}
    {change : RecordChange} (hu : Updates J db record e row change) (payload : Payload)
    (next : RecordState) :
    (afterUpdate J db row change e.current (Rules.advance e.current payload next)).Keeps
      journal where
  sound := h.sound.afterUpdate hu payload next
  sessions := h.sessions
  bound := h.bound
  orders := h.orders.congr (placed_afterUpdate hu _)
  named := by
    intro name other hother
    simp only [placed_afterUpdate hu]
    rw [lookup_afterUpdate, hu.named] at hother
    split at hother
    · next heq => exact h.named name row (heq ▸ hu.found)
    · exact h.named name other hother

/-- A new record is placed at the end of its session's list, and the others stay. -/
theorem placed_afterInsert {draft : Draft} {next : Nat} (hlt : (next : Int) < i64Max)
    (id : RecordId) (session : SessionId) (i : Nat) :
    (afterInsert J db (Rules.created draft next) next).Placed id session i ↔
      if id = draft.id then session = draft.sessionId ∧ i = next else db.Placed id session i := by
  have hsequence : asI64 next = (next : Int) := by
    apply asI64_of_lt
    unfold i64Max at hlt
    omega
  unfold Db.Placed
  rw [lookup_afterInsert]
  by_cases hid : id = draft.id
  · have hname : id.asStr = (Rules.created draft next).record.id.asStr := by rw [hid]; rfl
    rw [if_pos hname, if_pos hid]
    constructor
    · rintro ⟨row, hrow, hs, hi⟩
      obtain rfl := Option.some.inj hrow
      have hi' : asI64 next = (i : Int) := hi
      rw [hsequence] at hi'
      exact ⟨(Identifier.asStr_inj.mp hs).symm, by omega⟩
    · rintro ⟨rfl, rfl⟩
      exact ⟨_, rfl, rfl, hsequence⟩
  · have hname : id.asStr ≠ (Rules.created draft next).record.id.asStr :=
      fun heq => hid (Identifier.asStr_inj.mp heq)
    rw [if_neg hname, if_neg hid]

theorem afterInsert (h : db.Keeps journal) {draft : Draft} {next : Nat}
    (hlt : (next : Int) < i64Max) (hfresh : db.records.lookup draft.id.asStr = none)
    (hsession : db.sessions.lookup draft.sessionId.asStr = some (next : Int)) :
    (afterInsert J db (Rules.created draft next) next).Keeps (journal.append draft) := by
  obtain ⟨ids, hids, hlength⟩ : ∃ ids, journal draft.sessionId = some ids ∧ ids.length = next := by
    rw [h.sessions, Option.map_eq_some_iff] at hsession
    obtain ⟨ids, hids, hlength⟩ := hsession
    exact ⟨ids, hids, by omega⟩
  have hunplaced : ∀ session i, ¬ db.Placed draft.id session i := by
    rintro session i ⟨row, hrow, -⟩
    rw [hfresh] at hrow
    cases hrow
  have hout : draft.id ∉ ids := by
    intro hmem
    obtain ⟨i, hi⟩ := List.mem_iff_getElem?.mp hmem
    exact hunplaced _ i ((h.orders.place _ _ _).mpr ⟨ids, hids, hi⟩)
  have hplaced := @placed_afterInsert Text J db draft next hlt
  refine ⟨h.sound.afterInsert _ _, ?_, ?_, ?_, ?_⟩
  · intro session
    rw [Journal.append_of_fresh hids hout]
    refine (HashMap.lookup_insert_eq _ _ _ _).trans ?_
    have hname : session.asStr = (Rules.created draft next).record.sessionId.asStr ↔
        session = draft.sessionId := Identifier.asStr_inj
    simp only [hname]
    split
    · simp only [Option.map_some, List.length_append, List.length_singleton, hlength]
      rfl
    · exact h.sessions session
  · intro session others hothers
    rw [Journal.append_of_fresh hids hout] at hothers
    split at hothers
    · obtain rfl := Option.some.inj hothers
      rw [List.length_append, List.length_singleton, hlength]
      omega
    · exact h.bound session others hothers
  · apply h.orders.append hids hunplaced
    rw [hlength]
    exact hplaced
  · intro name row hrow
    rw [lookup_afterInsert] at hrow
    split at hrow
    · next heq =>
      refine ⟨draft.id, draft.sessionId, next, heq, (hplaced _ _ _).mpr ?_⟩
      rw [if_pos rfl]
      exact ⟨rfl, rfl⟩
    · next hne =>
      obtain ⟨id, session, i, rfl, hp⟩ := h.named name row hrow
      refine ⟨id, session, i, rfl, (hplaced _ _ _).mpr ?_⟩
      rw [if_neg (fun heq => hne (by rw [heq]; rfl))]
      exact hp

/-- A repeated creation. -/
theorem append_of_repeats (h : db.Keeps journal) {draft : Draft} {id : RecordId} {e : Entry}
    (hrepeats : Repeats J db draft id e) : journal.append draft = journal := by
  obtain ⟨row, hrow, hdecodes, hid, -⟩ := h.sound.entry_row hrepeats.found
  have hsame := hrepeats.same
  have hinitial : e.initial.record.id = e.current.record.id ∧
      e.initial.record.sessionId = e.current.record.sessionId := by
    have hcontent := hdecodes.initial
    cases hcolumn : row.initial with
    | none =>
      rw [hcolumn] at hcontent
      rw [hcontent.2]
      exact ⟨rfl, rfl⟩
    | some text =>
      rw [hcolumn] at hcontent
      obtain ⟨content, -, -, heq⟩ := hcontent
      rw [heq]
      exact ⟨rfl, rfl⟩
  have hplaced : db.Placed draft.id draft.sessionId e.current.record.sequence := by
    rw [← hsame]
    refine ⟨row, ?_, ?_, hdecodes.sequence⟩
    · show db.records.lookup e.initial.record.id.asStr = some row
      rw [hinitial.1, hid, hrow]
    · show row.session = e.initial.record.sessionId.asStr
      rw [hinitial.2, hdecodes.session]
  obtain ⟨ids, hids, hmem⟩ := h.orders.mem hplaced
  exact Journal.append_of_mem hids hmem

theorem insert (h : db.Keeps journal) (draft : Draft) :
    (write (insert J draft) db).2.Keeps
      (journal.follow (.insert draft) (orFault (write (SqliteStore.insert J draft) db).1)) := by
  obtain ⟨e, he⟩ | ⟨e, -, hrepeats, he⟩ | ⟨next, hi, he⟩ := insert_cases J draft db
  · rw [he]
    exact h
  · rw [he]
    show db.Keeps (journal.append draft)
    rw [h.append_of_repeats hrepeats]
    exact h
  · rw [he]
    exact h.afterInsert hi.bound hi.inserts.fresh hi.prepares.session

theorem resolve (h : db.Keeps journal) (request : RecordId) (r : Nat) (decision : Draft) :
    (write (resolve J request r decision) db).2.Keeps
      (journal.follow (.resolve request r decision)
        (orFault (write (SqliteStore.resolve J request r decision) db).1)) := by
  obtain ⟨e, he⟩ | ⟨response, e, -, hrepeats, he⟩ | ⟨e, row, change, next, ha, he⟩ :=
    resolve_cases h.sound request r decision
  · rw [he]
    exact h
  · rw [he]
    show db.Keeps (journal.append decision)
    rw [h.append_of_repeats hrepeats]
    exact h
  · rw [he]
    have hupdated := h.afterUpdate ha.updates e.current.record.payload .complete
    have hinserted := hupdated.afterInsert ha.bound ha.inserts.fresh ha.prepares.session
      (J := J)
    exact ⟨{ hinserted.sound with }, hinserted.sessions, hinserted.bound, hinserted.orders,
      hinserted.named⟩

theorem exec (h : db.Keeps journal) {β : Type} (c : StoreCall β) :
    (exec J c db).2.Keeps (journal.follow c (SqliteStore.exec J c db).1) := by
  cases hw : writesHistory c with
  | false =>
    cases hs : createsSession c with
    | true =>
      cases c with
      | createSession id => exact h.createSession id
      | _ => cases hs
    | false =>
      have hc : Journal.concerns c = false := by
        cases c with
        | createSession id => cases hs
        | insert draft => cases hw
        | resolve request r decision => cases hw
        | _ => rfl
      rw [Journal.follow_of_concerns hc]
      exact h.still (call_still c hw hs)
  | true =>
    cases c with
    | registerRun spec =>
      show (write (registerRun J spec) db).2.Keeps journal
      obtain ⟨e, he⟩ | ⟨-, he⟩ | ⟨-, -, -, -, he⟩ := registerRun_cases J spec db
      · rw [he]
        exact h
      · rw [he]
        exact h
      · rw [he]
        exact ⟨h.sound.sameRecords (afterRegister_sameRecords spec), h.sessions, h.bound, h.orders,
          h.named⟩
    | insert draft => exact h.insert draft
    | checkpoint record r payload next =>
      show (write (checkpoint J record r payload next) db).2.Keeps journal
      obtain ⟨e, he⟩ | ⟨e, -, -, he⟩ | ⟨e, row, change, hu, -, he⟩ :=
        checkpoint_cases h.sound record r payload next
      · rw [he]
        exact h
      · rw [he]
        exact h
      · rw [he]
        exact h.afterUpdate hu payload next
    | resolve request r decision => exact h.resolve request r decision
    | _ => cases hw

/-- After every run the store keeps the journal of the run. -/
theorem after {start : Db Text} (h : start.Keeps journal) (ops : List StoreOp) :
    ((machine J).after ops start).Keeps (journal.after (machine J) ops start) := by
  induction ops generalizing journal start with
  | nil => exact h
  | cons op ops ih => exact ih (h.exec op.call)

end Db.Keeps

end SqliteStore

end AgentBridge
