import AgentBridge.Records.Refinement.Calls
import AgentBridge.Reasoning.Paging

/-! # The calls that only read -/

namespace AgentBridge

open Reasoning SqliteStore

variable {Text : Type} {J : SerdeJson Text} {state : MemoryStore.State} {db : Db Text}

namespace Refines

section Calls

variable (h : Refines J state db) (hread : Db.ReadsBack J db)

include h hread

theorem get (id : RecordId) : MemoryStore.get id state = orFault (SqliteStore.get J id db) := by
  unfold MemoryStore.get SqliteStore.get
  rw [h.entry hread]
  cases state.records.lookup id <;> rfl

theorem getRun (id : RunId) :
    MemoryStore.getRun id state = orFault (SqliteStore.getRun J id db) := by
  unfold MemoryStore.getRun SqliteStore.getRun
  rw [h.readRun hread]
  cases state.runs.lookup id <;> rfl

theorem getContinuation (id : ContinuationId) :
    MemoryStore.getContinuation id state = orFault (SqliteStore.getContinuation J id db) := by
  unfold MemoryStore.getContinuation Registry.get SqliteStore.getContinuation
  rw [h.readContinuation hread]
  cases state.continuations.records.lookup id <;> rfl

theorem executionParent (child : RunId) :
    MemoryStore.executionParent child state = orFault (SqliteStore.executionParent J child db) := by
  unfold MemoryStore.executionParent SqliteStore.executionParent
  rw [h.readRelation hread]
  rfl

/-! ## Records of a session, in sequence -/

omit hread in
theorem mem_records_iff {row : RowData Text} :
    row ∈ db.records.values ↔
      ∃ id e, state.records.lookup id = some e ∧ row = entryRow J e := by
  rw [HashMap.mem_values_iff]
  constructor
  · rintro ⟨name, hname⟩
    rw [h.records, Option.map_eq_some_iff] at hname
    obtain ⟨e, he, rfl⟩ := hname
    obtain ⟨id, rfl, hid⟩ := byName_eq_some.mp he
    exact ⟨id, e, hid, rfl⟩
  · rintro ⟨id, e, he, rfl⟩
    refine ⟨id.asStr, ?_⟩
    rw [h.records, byName_asStr, he]
    rfl

omit hread in
theorem nodup_records : db.records.values.Nodup := by
  apply HashMap.nodup_values
  intro k k' row hk hk'
  -- a row names its key
  have hname : ∀ name, db.records.lookup name = some row → row.id = name := by
    intro name hname
    rw [h.records, Option.map_eq_some_iff] at hname
    obtain ⟨e, he, rfl⟩ := hname
    obtain ⟨id, rfl, hid⟩ := byName_eq_some.mp he
    rw [← (h.wellFormed.entries id e hid).2]
    rfl
  rw [← hname k hk, ← hname k' hk']

/-- The rows of the entries of these records. -/
def rowsOf (J : SerdeJson Text) (state : MemoryStore.State) (ids : List RecordId) :
    List (RowData Text) :=
  ids.filterMap fun id => (state.records.lookup id).map (entryRow J)

omit hread in
theorem rowsOf_get {session : SessionId} {ids : List RecordId}
    (hids : state.sessions.lookup session = some ids) (start : Nat) :
    ∀ row, row ∈ rowsOf J state (ids.drop start) ↔
      row ∈ db.records.values ∧ row.session = session.asStr ∧ (start : Int) ≤ row.sequence := by
  intro row
  simp only [rowsOf, List.mem_filterMap, Option.map_eq_some_iff, List.mem_drop_iff_getElem,
    h.mem_records_iff]
  constructor
  · rintro ⟨id, ⟨i, hi, hid⟩, e, he, rfl⟩
    have hget : ids[start + i]? = some id := by
      rw [List.getElem?_eq_some_iff]
      exact ⟨by omega, hid⟩
    obtain ⟨e', he', hsession, hseq⟩ := h.wellFormed.listed session ids _ id hids hget
    obtain rfl : e = e' := by simpa [he] using he'
    refine ⟨⟨id, e, he, rfl⟩, by simp [entryRow, hsession], ?_⟩
    show (start : Int) ≤ (e.current.record.sequence : Int)
    omega
  · rintro ⟨⟨id, e, he, rfl⟩, hsession, hseq⟩
    obtain ⟨others, hothers, hi⟩ := h.wellFormed.placed id e he
    have hs : e.current.record.sessionId = session := Identifier.asStr_inj.mp hsession
    rw [hs, hids, Option.some.injEq] at hothers
    subst hothers
    obtain ⟨hlt, hget⟩ := List.getElem?_eq_some_iff.mp hi
    have hle : start ≤ e.current.record.sequence := Int.ofNat_le.mp hseq
    refine ⟨id, ⟨e.current.record.sequence - start, by omega, ?_⟩, e, he, rfl⟩
    rw [← hget]
    congr 1
    omega

omit hread in
theorem rowsOf_sorted {session : SessionId} {ids : List RecordId}
    (hids : state.sessions.lookup session = some ids) (start : Nat) :
    (rowsOf J state (ids.drop start)).Pairwise fun a b => a.sequence < b.sequence := by
  rw [rowsOf, List.pairwise_filterMap, List.pairwise_iff_getElem]
  intro i j hi hj hij row hrow row' hrow'
  -- the record at an index of the list has this index as its sequence
  have hsequence : ∀ (k : Nat) (hk : k < (ids.drop start).length) (row : RowData Text),
      (state.records.lookup (ids.drop start)[k]).map (entryRow J) = some row →
        row.sequence = (start + k : Nat) := by
    intro k hk row hrow
    obtain ⟨e, he, rfl⟩ := Option.map_eq_some_iff.mp hrow
    have hget : ids[start + k]? = some (ids.drop start)[k] := by
      rw [← List.getElem?_drop, List.getElem?_eq_getElem hk]
    obtain ⟨e', he', -, hseq⟩ := h.wellFormed.listed session ids _ _ hids hget
    have heq : e = e' := by simpa [he] using he'
    show (e.current.record.sequence : Int) = (start + k : Nat)
    rw [heq, hseq]
  rw [hsequence i hi row hrow, hsequence j hj row' hrow']
  omega

omit hread in
theorem selectRecords {session : SessionId} {ids : List RecordId}
    (hids : state.sessions.lookup session = some ids) (start limit : Nat) :
    db.selectRecords session.asStr ((start : Int) - 1) limit =
      (rowsOf J state (ids.drop start)).take limit := by
  unfold Db.selectRecords
  congr 1
  apply insertionSort_eq_of_mem_iff (h.nodup_records.filter _)
  · intro row
    rw [h.rowsOf_get hids, List.mem_filter]
    simp only [Bool.and_eq_true, beq_iff_eq, decide_eq_true_eq, Int.sub_one_lt_iff]
  · exact h.rowsOf_sorted hids start

theorem decodeRows : ∀ ids : List RecordId, (∀ id ∈ ids, (state.records.lookup id).isSome) →
    MemoryStore.currents state ids = orFault (SqliteStore.decodeRows J (rowsOf J state ids))
  | [], _ => rfl
  | record :: ids, hsome => by
    obtain ⟨e, he⟩ := Option.isSome_iff_exists.mp (hsome record List.mem_cons_self)
    have ih := decodeRows ids fun a ha => hsome a (List.mem_cons_of_mem _ ha)
    have hdecode : (entryRow J e).decode J = .ok e :=
      decode_eq_ok.mpr (decodesTo_entryRow (h.wellFormed.entries record e he).1
        fun d hd => hread d (h.documents.entries record e he d hd))
    have hrows : rowsOf J state (record :: ids) = entryRow J e :: rowsOf J state ids := by
      simp [rowsOf, he]
    rw [hrows]
    simp only [MemoryStore.currents, he, ih, SqliteStore.decodeRows, hdecode, ok_bind, orFault_bind]
    rfl

theorem list (hb : Db.CountersBelowMax db) (session : SessionId) (after : Option Nat) (limit : Nat) :
    MemoryStore.list session after limit state =
      orFault (SqliteStore.list J session after limit db) := by
  unfold MemoryStore.list SqliteStore.list
  by_cases hlimit : limit < 1 ∨ 1000 < limit
  · rw [if_pos hlimit, if_pos hlimit]
    rfl
  rw [if_neg hlimit, if_neg hlimit, h.sessionSequence]
  cases hids : state.sessions.lookup session with
  | none => rfl
  | some ids =>
  have hlt := h.sequence_lt hb hids
  have hlisted : ∀ id ∈ ids, (state.records.lookup id).isSome := by
    intro id hid
    obtain ⟨i, hi⟩ := List.mem_iff_getElem?.mp hid
    obtain ⟨e, he, -, -⟩ := h.wellFormed.listed session ids i id hids hi
    rw [he]
    rfl
  have hpage : ∀ start, MemoryStore.currents state ((ids.drop start).take limit) =
      orFault (SqliteStore.decodeRows J (db.selectRecords session.asStr ((start : Int) - 1) limit)) := by
    intro start
    have hdrop : ∀ id ∈ ids.drop start, (state.records.lookup id).isSome :=
      fun id hid => hlisted id (List.mem_of_mem_drop hid)
    rw [h.selectRecords hids, rowsOf, take_filterMap _ _ (by simpa using hdrop)]
    exact h.decodeRows hread _ fun id hid => hdrop id (List.mem_of_mem_take hid)
  simp only [ok_bind]
  cases after with
  | none => exact hpage 0
  | some cursor =>
    by_cases hcursor : (cursor : Int) ≤ i64Max
    · have hsucc : checkedSucc cursor = some (cursor + 1) := by
        rw [Rules.checkedSucc_eq_some]
        unfold i64Max at hcursor
        unfold u64Max
        omega
      have htry : tryI64 cursor = some (cursor : Int) := tryI64_eq_some.mpr ⟨hcursor, rfl⟩
      simp only [hsucc, htry, Option.getD_some]
      have := hpage (cursor + 1)
      rwa [show ((cursor + 1 : Nat) : Int) - 1 = cursor by omega] at this
    · -- beyond `i64::MAX` there is no record on either side
      have htry : tryI64 cursor = none := by
        unfold tryI64
        rw [if_neg hcursor]
      have hstart : ids.length ≤ (checkedSucc cursor).getD u64Max := by
        unfold checkedSucc
        split
        · simp only [Option.getD_some]
          omega
        · unfold i64Max at hlt
          simp only [Option.getD_none, u64Max]
          omega
      simp only [htry, List.drop_eq_nil_of_le hstart, List.take_nil]
      rfl

/-! ## Children of a run, by name -/

omit hread in
theorem mem_relations_iff {name : String} {row : RelationRow Text} :
    db.executionRelations.lookup name = some row ↔
      ∃ relation, state.executionRelations.lookup relation.child = some relation ∧
        relation.child.asStr = name ∧ row = relationRow J relation := by
  rw [h.relations, Option.map_eq_some_iff]
  constructor
  · rintro ⟨relation, hrelation, rfl⟩
    obtain ⟨child, rfl, hchild⟩ := byName_eq_some.mp hrelation
    obtain rfl := (h.wellFormed.relations child relation hchild).1
    exact ⟨relation, hchild, rfl, rfl⟩
  · rintro ⟨relation, hrelation, rfl, rfl⟩
    exact ⟨relation, by rw [byName_asStr, hrelation], rfl⟩

omit hread in
theorem mem_values_relations {relation : ExecutionRelation} :
    relation ∈ state.executionRelations.values ↔
      state.executionRelations.lookup relation.child = some relation := by
  rw [HashMap.mem_values_iff]
  constructor
  · rintro ⟨child, hchild⟩
    rw [(h.wellFormed.relations child relation hchild).1]
    exact hchild
  · exact fun hrelation => ⟨relation.child, hrelation⟩

/-- The relations of the children of a run, by the name of the child. -/
def childrenOf (state : MemoryStore.State) (parent : RunId) : List ExecutionRelation :=
  (state.executionRelations.values.filter fun edge => edge.parent == parent).insertionSort
    fun a b => a.child.asStr ≤ b.child.asStr

omit hread in
theorem mem_childrenOf {parent : RunId} {relation : ExecutionRelation} :
    relation ∈ childrenOf state parent ↔
      state.executionRelations.lookup relation.child = some relation ∧
        relation.parent = parent := by
  rw [childrenOf, List.mem_insertionSort, List.mem_filter, h.mem_values_relations, beq_iff_eq]

omit hread in
theorem selectChildren (parent : RunId) :
    db.selectChildren parent.asStr = (childrenOf state parent).map (·.child.asStr) := by
  have hvalues : state.executionRelations.values.Nodup := by
    apply HashMap.nodup_values
    intro k k' relation hk hk'
    rw [← (h.wellFormed.relations k relation hk).1, ← (h.wellFormed.relations k' relation hk').1]
  have hnames : ((state.executionRelations.values.filter fun edge =>
      edge.parent == parent).map (·.child.asStr)).Nodup := by
    apply List.Nodup.map_on ?_ (hvalues.filter _)
    intro a ha b hb hab
    have ha' := h.mem_values_relations.mp (List.mem_filter.mp ha).1
    have hb' := h.mem_values_relations.mp (List.mem_filter.mp hb).1
    rw [Identifier.asStr_inj.mp hab, hb', Option.some.injEq] at ha'
    exact ha'.symm
  have hrows : ((db.executionRelations.entries.filter fun e =>
      e.2.parent == parent.asStr).map (·.1)).Nodup := by
    have hkeys : (db.executionRelations.entries.map (·.1)).Nodup := db.executionRelations.nodupKeys
    exact hkeys.sublist (List.filter_sublist.map _)
  unfold Db.selectChildren childrenOf
  rw [List.map_insertionSort _ (s := (· ≤ ·)) _ _ fun a _ b _ => Iff.rfl]
  apply insertionSort_congr hrows hnames
  intro name
  simp only [List.mem_map, List.mem_filter, beq_iff_eq, h.mem_values_relations]
  constructor
  · rintro ⟨⟨name', row⟩, ⟨hmem, hparent⟩, rfl⟩
    obtain ⟨relation, hrelation, hname, rfl⟩ :=
      h.mem_relations_iff.mp ((HashMap.mem_entries_iff _ _ _).mp hmem)
    exact ⟨relation, ⟨hrelation, Identifier.asStr_inj.mp hparent⟩, hname⟩
  · rintro ⟨relation, ⟨hrelation, hparent⟩, hname⟩
    refine ⟨⟨name, relationRow J relation⟩, ⟨?_, by rw [← hparent]; rfl⟩, rfl⟩
    exact (HashMap.mem_entries_iff _ _ _).mpr
      (h.mem_relations_iff.mpr ⟨relation, hrelation, hname, rfl⟩)

theorem readChildren : ∀ relations : List ExecutionRelation,
    (∀ relation ∈ relations, state.executionRelations.lookup relation.child = some relation) →
      SqliteStore.readChildren J db (relations.map (·.child.asStr)) = .ok relations
  | [], _ => rfl
  | relation :: relations, hmem => by
    have hread' := h.readRelation hread relation.child
    rw [hmem relation List.mem_cons_self] at hread'
    have ih := readChildren relations fun a ha => hmem a (List.mem_cons_of_mem _ ha)
    have hid : SqliteStore.id relation.child.asStr = .ok relation.child := id_eq_ok.mpr rfl
    simp only [List.map_cons, SqliteStore.readChildren, hid, hread', ih, ok_bind]

theorem executionChildren (parent : RunId) :
    MemoryStore.executionChildren parent state =
      orFault (SqliteStore.executionChildren J parent db) := by
  unfold SqliteStore.executionChildren
  rw [h.selectChildren, h.readChildren hread _ fun relation hmem => (h.mem_childrenOf.mp hmem).1]
  rfl

end Calls

end Refines

end AgentBridge
