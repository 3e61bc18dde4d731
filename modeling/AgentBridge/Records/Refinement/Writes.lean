import AgentBridge.Records.Refinement.Relation

/-! # The writes of the SQLite store keep the relation -/

namespace AgentBridge

open Reasoning SqliteStore

variable {Text : Type} {J : SerdeJson Text} {state : MemoryStore.State} {db : Db Text}

namespace Refines

theorem freshPosition (h : Refines J state db) : db.FreshPosition := by
  intro name change hc heq
  have := h.positions name change hc
  omega

theorem change_isSome (h : Refines J state db) {id : RecordId} {e : Entry}
    (he : state.records.lookup id = some e) : (db.recordChanges.lookup id.asStr).isSome := by
  rw [h.changes, h.records, byName_asStr, he]
  rfl

theorem revision_lt (h : Refines J state db) (hb : Db.CountersBelowMax db) {id : RecordId} {e : Entry}
    (he : state.records.lookup id = some e) : (e.current.revision : Int) < i64Max :=
  hb.revision id.asStr (entryRow J e) (by rw [h.records, byName_asStr, he]; rfl)

theorem sequence_lt (h : Refines J state db) (hb : Db.CountersBelowMax db) {id : SessionId}
    {ids : List RecordId} (hids : state.sessions.lookup id = some ids) :
    (ids.length : Int) < i64Max :=
  hb.sequence id.asStr ids.length (by rw [h.sessions, byName_asStr, hids]; rfl)

/-- The counters of the tables are those of the state. -/
theorem countersBelowMax (h : Refines J state db)
    (hsequence : ∀ id ids, state.sessions.lookup id = some ids → (ids.length : Int) < i64Max)
    (hrevision : ∀ id e, state.records.lookup id = some e →
      (e.current.revision : Int) < i64Max) : Db.CountersBelowMax db where
  sequence name next hnext := by
    rw [h.sessions, Option.map_eq_some_iff] at hnext
    obtain ⟨ids, hids, rfl⟩ := hnext
    obtain ⟨id, -, hid⟩ := byName_eq_some.mp hids
    exact hsequence id ids hid
  revision name row hrow := by
    rw [h.records, Option.map_eq_some_iff] at hrow
    obtain ⟨e, he, rfl⟩ := hrow
    obtain ⟨id, -, hid⟩ := byName_eq_some.mp he
    exact hrevision id e hid

/-! ## Creating a record -/

theorem newRow_created {draft : Draft} {n : Nat} (hn : (n : Int) < i64Max) :
    newRow J (Rules.created draft n) =
      entryRow J ⟨Rules.created draft n, Rules.created draft n⟩ := by
  have hseq : asI64 n = n := asI64_of_lt (by unfold i64Max at hn; omega)
  simp [newRow, entryRow, Rules.created, hseq]

theorem insertsRecord (h : Refines J state db) (hpos : db.changeClock.position < i64Max)
    {draft : Draft} {ids : List RecordId} (hn : (ids.length : Int) < i64Max)
    (hp : state.Prepares draft ids) (hfresh : state.records.lookup draft.id = none) :
    db.InsertsRecord (newRow J (Rules.created draft ids.length)) := by
  rw [newRow_created hn]
  have hrecord : db.records.lookup draft.id.asStr = none := by
    rw [h.records, byName_asStr, hfresh]
    rfl
  constructor
  case fresh => exact hrecord
  case unique =>
    intro name other hother hsession hseq
    rw [h.records, Option.map_eq_some_iff] at hother
    obtain ⟨e, he, rfl⟩ := hother
    obtain ⟨id, rfl, hid⟩ := byName_eq_some.mp he
    obtain ⟨others, hothers, hi⟩ := h.wellFormed.placed id e hid
    have hs : e.current.record.sessionId = draft.sessionId := Identifier.asStr_inj.mp hsession
    rw [hs, hp.session, Option.some.injEq] at hothers
    subst hothers
    have hlt := (List.getElem?_eq_some_iff.mp hi).1
    have hseq' : (e.current.record.sequence : Int) = ids.length := hseq
    omega
  case sequence => exact Int.natCast_nonneg _
  case state => exact stateName_mem _
  case revision => exact Int.natCast_nonneg _
  case session =>
    show (db.sessions.lookup draft.sessionId.asStr).isSome
    rw [h.sessions, byName_asStr, hp.session]
    rfl
  case run =>
    show (draft.runId.map (·.asStr)).all _ = true
    cases hr : draft.runId with
    | none => rfl
    | some run =>
      obtain ⟨spec, hspec, hsession⟩ := hp.run run hr
      show ((db.runs.lookup run.asStr).any fun spec => spec.session == draft.sessionId.asStr) = true
      rw [h.runs, byName_asStr, hspec]
      simp [runRow, hsession]
  case reply =>
    intro id hid
    have hid' : draft.replyToId.map (·.asStr) = some id := hid
    obtain ⟨reply, hreply, rfl⟩ := Option.map_eq_some_iff.mp hid'
    refine .inr ?_
    rw [h.records, byName_asStr, Option.isSome_map]
    exact hp.reply reply hreply
  case position => exact hpos
  case change =>
    have hnone : (db.recordChanges.lookup draft.id.asStr).isSome = false := by
      rw [h.changes, hrecord]
      rfl
    exact Option.isSome_eq_false_iff.mp hnone |> Option.isNone_iff_eq_none.mp
  case freshPosition => exact h.freshPosition

theorem committed (h : Refines J state db) {draft : Draft} {ids : List RecordId}
    (hn : (ids.length : Int) < i64Max) (hp : state.Prepares draft ids)
    (hfresh : state.records.lookup draft.id = none) :
    Refines J (state.committed (Rules.created draft ids.length) ids)
      (afterInsert J db (Rules.created draft ids.length) ids.length) := by
  have hrow : newRow J (Rules.created draft ids.length) =
      entryRow J ⟨Rules.created draft ids.length, Rules.created draft ids.length⟩ :=
    newRow_created hn
  refine { h with
    wellFormed := h.wellFormed.committed hp.valid hfresh hp.session
    sessions := ?_, records := ?_, changes := ?_, positions := ?_
    documents := { h.documents.append (newDocs (Rules.created draft ids.length)) with entries := ?_ } }
  · intro name
    refine (HashMap.lookup_insert_eq _ _ _ _).trans ?_
    refine Eq.trans ?_ (congrArg (Option.map _) (byName_insert _ _ _ _)).symm
    show (if name = draft.sessionId.asStr then _ else db.sessions.lookup name) =
      Option.map _ (if name = draft.sessionId.asStr then _ else _)
    split
    · simp
    · exact h.sessions name
  · intro name
    refine (HashMap.lookup_insert_eq _ _ _ _).trans ?_
    refine Eq.trans ?_ (congrArg (Option.map _) (byName_insert _ _ _ _)).symm
    rw [hrow]
    show (if name = draft.id.asStr then _ else db.records.lookup name) =
      Option.map _ (if name = draft.id.asStr then _ else _)
    split
    · rfl
    · exact h.records name
  · intro name
    refine (congrArg Option.isSome (HashMap.lookup_insert_eq _ _ _ _)).trans ?_
    refine Eq.trans ?_ (congrArg Option.isSome (HashMap.lookup_insert_eq _ _ _ _)).symm
    split
    · rfl
    · exact h.changes name
  · intro name change hc
    have hc' := (HashMap.lookup_insert_eq _ _ _ _).symm.trans hc
    show change.position ≤ db.changeClock.position + 1
    split at hc'
    · obtain rfl := Option.some.inj hc'
      exact Int.le_refl _
    · have := h.positions name change hc'
      omega
  · intro id e he d hd
    have he' := (HashMap.lookup_insert_eq _ _ _ _).symm.trans he
    split at he'
    · obtain rfl := Option.some.inj he'
      have hd' : d ∈ newDocs (Rules.created draft ids.length) := by
        simpa [entryDocs, newDocs, Rules.created] using hd
      exact List.mem_append_left _ hd'
    · exact List.mem_append_right _ (h.documents.entries id e he' d hd)

/-- `insert_row` of a prepared record succeeds and keeps the relation. -/
theorem inserted (h : Refines J state db) (hpos : db.changeClock.position < i64Max) {draft : Draft}
    {ids : List RecordId} (hn : (ids.length : Int) < i64Max) (hp : state.Prepares draft ids)
    (hfresh : state.records.lookup draft.id = none) :
    insertRow J db (Rules.created draft ids.length) =
        .ok (afterInsert J db (Rules.created draft ids.length) ids.length) ∧
      Refines J (state.committed (Rules.created draft ids.length) ids)
        (afterInsert J db (Rules.created draft ids.length) ids.length) := by
  have hsession : db.sessions.lookup draft.sessionId.asStr = some (ids.length : Int) := by
    rw [h.sessions, byName_asStr, hp.session]
    rfl
  exact ⟨insertRow_eq_ok.mpr ⟨_, hsession, hn, h.insertsRecord hpos hn hp hfresh, rfl⟩,
    h.committed hn hp hfresh⟩

/-! ## Updating a record -/

theorem nextRow_advance {e : Entry} (hwf : e.WellFormed) (payload : Payload) (next : RecordState) :
    nextRow J (entryRow J e) e.current (Rules.advance e.current payload next) =
      entryRow J ⟨e.initial, Rules.advance e.current payload next⟩ := by
  have hne : (Rules.advance e.current payload next).revision ≠ 0 := Nat.succ_ne_zero _
  by_cases hrev : e.current.revision = 0
  · have hinitial := hwf.first hrev
    simp [nextRow, Db.updatedRow, entryRow, initialContent, hrev, hinitial, Rules.advance]
  · simp [nextRow, Db.updatedRow, entryRow, initialContent, hrev, Rules.advance]

/-- Storing a record's entry again changes nothing that a read could tell. -/
theorem restored (h : Refines J state db) {id : RecordId} {e : Entry}
    (he : state.records.lookup id = some e) :
    Refines J (state.withCurrent id e e.current) db := by
  have hlookup : ∀ other, (state.withCurrent id e e.current).records.lookup other =
      state.records.lookup other := by
    intro other
    refine (HashMap.lookup_insert_eq _ _ _ _).trans ?_
    split
    · next heq => rw [heq, he]
    · rfl
  have hname : ∀ name, byName (state.withCurrent id e e.current).records name =
      byName state.records name := by
    intro name
    unfold byName
    split
    · exact hlookup _
    · rfl
  refine { h with
    wellFormed := h.wellFormed.withCurrent he (h.wellFormed.entries id e he).1 rfl rfl rfl
    records := ?_, documents := { h.documents with entries := ?_ } }
  · intro name
    rw [hname]
    exact h.records name
  · intro other e' he'
    exact h.documents.entries other e' ((hlookup other).symm.trans he')

/-- `update_row` of a record's next version succeeds and keeps the relation. -/
theorem updated (h : Refines J state db) (hpos : db.changeClock.position < i64Max) {id : RecordId}
    {e : Entry} {payload : Payload} {next : RecordState} (he : state.records.lookup id = some e)
    (hrev : (e.current.revision : Int) < i64Max)
    (hvalid : Rules.validate payload next = .ok ()) :
    ∃ db', updateRow J db e.current (Rules.advance e.current payload next) = .ok db' ∧
      db'.sessions = db.sessions ∧
      db'.changeClock.position = db.changeClock.position + 1 ∧
      db'.written = updateDocs e.current (Rules.advance e.current payload next) ++ db.written ∧
      Refines J (state.withCurrent id e (Rules.advance e.current payload next)) db' := by
  obtain ⟨hwf, hid⟩ := h.wellFormed.entries id e he
  have hbound : e.current.revision < 2 ^ 63 := by
    unfold i64Max at hrev
    omega
  have hrow : db.records.lookup e.current.record.id.asStr = some (entryRow J e) := by
    rw [hid, h.records, byName_asStr, he]
    rfl
  have hsome : (db.recordChanges.lookup e.current.record.id.asStr).isSome := by
    rw [hid]
    exact h.change_isSome he
  obtain ⟨change, hchange⟩ := Option.isSome_iff_exists.mp hsome
  have hupdates : db.UpdatesRecord e.current.record.id.asStr e.current.revision (stateName next)
      (Rules.advance e.current payload next).revision (entryRow J e) change :=
    ⟨hrow, rfl, stateName_mem _, Int.natCast_nonneg _, hpos, hchange, h.freshPosition⟩
  refine ⟨_, (updateRow_eq_ok rfl hbound fun _ _ => hsome).mpr
    ⟨?_, _, change, hupdates, rfl⟩, rfl, rfl, rfl, ?_⟩
  · show ((e.current.revision + 1 : Nat) : Int) ≤ i64Max
    omega
  rw [nextRow_advance hwf]
  refine { h with
    wellFormed := h.wellFormed.withCurrent he (hwf.advance hvalid) rfl rfl rfl
    records := ?_, changes := ?_, positions := ?_
    documents := { h.documents.append
      (updateDocs e.current (Rules.advance e.current payload next)) with entries := ?_ } }
  · intro name
    refine (HashMap.lookup_insert_eq _ _ _ _).trans ?_
    refine Eq.trans ?_ (congrArg (Option.map _) (byName_insert _ _ _ _)).symm
    rw [hid]
    split
    · rfl
    · exact h.records name
  · intro name
    refine (congrArg Option.isSome (HashMap.lookup_insert_eq _ _ _ _)).trans ?_
    refine Eq.trans ?_ (congrArg Option.isSome (HashMap.lookup_insert_eq _ _ _ _)).symm
    split
    · rfl
    · exact h.changes name
  · intro name change' hc
    have hc' := (HashMap.lookup_insert_eq _ _ _ _).symm.trans hc
    show change'.position ≤ db.changeClock.position + 1
    split at hc'
    · obtain rfl := Option.some.inj hc'
      exact Int.le_refl _
    · have := h.positions name change' hc'
      omega
  · intro other e' he' d hd
    have he'' := (HashMap.lookup_insert_eq _ _ _ _).symm.trans he'
    split at he''
    · obtain rfl := Option.some.inj he''
      -- the new payload is written now, the rest of the row was written before
      have hne : (Rules.advance e.current payload next).revision ≠ 0 := Nat.succ_ne_zero _
      simp only [entryDocs, hne, ↓reduceIte, List.mem_cons, List.mem_append,
        List.not_mem_nil, or_false] at hd
      obtain rfl | hsource | rfl := hd
      · exact List.mem_append_left _ (by simp [updateDocs])
      · refine List.mem_append_right _ (h.documents.entries id e he d ?_)
        simp only [entryDocs, List.mem_cons, List.mem_append]
        exact .inr (.inl hsource)
      · by_cases hzero : e.current.revision = 0
        · refine List.mem_append_left _ ?_
          simp [updateDocs, initialContent, hzero, hwf.first hzero]
        · refine List.mem_append_right _ (h.documents.entries id e he _ ?_)
          simp [entryDocs, hzero]
    · exact List.mem_append_right _ (h.documents.entries other e' he'' d hd)

/-- `INSERT INTO agent_bridge_decisions` for a request and a new response. -/
theorem decided (h : Refines J state db) {request response : RecordId}
    (hunresolved : state.decisions.lookup request = none)
    (hrequest : (state.records.lookup request).isSome)
    (hresponse : (state.records.lookup response).isSome)
    (hnew : ∀ q, state.decisions.lookup q ≠ some response) :
    ∃ db', db.insertDecision request.asStr response.asStr = .ok db' ∧
      Refines J { state with decisions := state.decisions.insert request response } db' := by
  have hrow : ∀ id : RecordId, (state.records.lookup id).isSome →
      (db.records.lookup id.asStr).isNone = false := by
    intro id hid
    rw [h.records, byName_asStr]
    simpa using hid
  have hnone : db.decisions.lookup request.asStr = none := by
    rw [h.decisions, byName_asStr, hunresolved]
    rfl
  have hunused : db.decisions.values.contains response.asStr = false := by
    rw [Bool.eq_false_iff]
    intro hmem
    rw [List.contains_iff_mem, HashMap.mem_values_iff] at hmem
    obtain ⟨name, hname⟩ := hmem
    rw [h.decisions, Option.map_eq_some_iff] at hname
    obtain ⟨other, hother, heq⟩ := hname
    obtain ⟨q, rfl, hq⟩ := byName_eq_some.mp hother
    rw [Identifier.asStr_inj.mp heq] at hq
    exact hnew q hq
  refine ⟨{ db with decisions := db.decisions.insert request.asStr response.asStr }, ?_, ?_⟩
  · simp only [Db.insertDecision, hnone, hunused, hrow request hrequest, hrow response hresponse,
      Option.isSome_none, Bool.false_eq_true, ↓reduceIte, Bool.or_self]
  refine { h with
    wellFormed := { h.wellFormed with decisions := ?_ }
    decisions := ?_, documents := { h.documents with } }
  · intro q a hd
    have hd' := (HashMap.lookup_insert_eq _ _ _ _).symm.trans hd
    split at hd'
    · next heq =>
      obtain rfl := Option.some.inj hd'
      rw [heq]
      exact ⟨hrequest, hresponse⟩
    · exact h.wellFormed.decisions q a hd'
  · intro name
    refine (HashMap.lookup_insert_eq _ _ _ _).trans ?_
    refine Eq.trans ?_ (congrArg (Option.map _) (byName_insert _ _ _ _)).symm
    split
    · rfl
    · exact h.decisions name

end Refines

end AgentBridge
