import AgentBridge.Records.Refinement.Registrations

/-!
# The two stores are observationally equal

Every call answers alike on related states, so every run from two empty stores answers alike, as
long as the documents written read back and no counter runs out.  The change clock is a counter
too: it moves with every new version of every record, and a run of `2 ^ 63` calls exhausts it while
each sequence and each revision is below `i64::MAX`.
-/

namespace AgentBridge

open Reasoning SqliteStore

variable {Text : Type} {J : SerdeJson Text} {state : MemoryStore.State} {db : Db Text}

namespace Refines

/-- A call that only reads. -/
theorem reads {β : Type} {r : Except Fault β} {q : Except StoreError β} (h : Refines J state db)
    (heq : r = orFault q) : Simulates J (r, state) (q, db) :=
  ⟨heq, h⟩

/-- Every call answers alike from related states. -/
theorem call (h : Refines J state db) (hread : Db.ReadsBack J db) (hb : Db.WithinBounds db)
    {β : Type} (c : StoreCall β) :
    Simulates J (MemoryStore.exec c state) (SqliteStore.call J c db) := by
  cases c with
  | createSession id => exact h.createSession id
  | registerRun spec => exact h.registerRun hread spec
  | insert draft => exact h.insert hread hb draft
  | checkpoint id r payload next => exact h.checkpoint hread hb id r payload next
  | resolve request r decision => exact h.resolve hread hb request r decision
  | get id => exact h.reads (h.get hread id)
  | getRun id => exact h.reads (h.getRun hread id)
  | list session after limit => exact h.reads (h.list hread hb.toCountersBelowMax session after limit)
  | saveContinuation value => exact h.saveContinuation hread value
  | getContinuation id => exact h.reads (h.getContinuation hread id)
  | claimContinuation id => exact h.claimContinuation hread id
  | linkExecution relation => exact h.linkExecution hread relation
  | executionParent child => exact h.reads (h.executionParent hread child)
  | executionChildren parent => exact h.reads (h.executionChildren hread parent)

/-- Every run from related states answers alike and ends in related states. -/
theorem run (h : Refines J state db) (ops : List StoreOp)
    (hgood : ∀ pre, pre <+: ops → Db.ReadsBack J ((SqliteStore.machine J).after pre db) ∧
      Db.WithinBounds ((SqliteStore.machine J).after pre db)) :
    MemoryStore.machine.outcomes ops state = (SqliteStore.machine J).outcomes ops db ∧
      Refines J (MemoryStore.machine.after ops state) ((SqliteStore.machine J).after ops db) := by
  have hstep : ∀ {β : Type} (c : StoreCall β) (s : MemoryStore.State) (t : Db Text),
      Refines J s t → Db.ReadsBack J t ∧ Db.WithinBounds t →
        Db.ReadsBack J ((SqliteStore.machine J).exec c t).2 ∧
          Db.WithinBounds ((SqliteStore.machine J).exec c t).2 →
        (MemoryStore.machine.exec c s).1 = ((SqliteStore.machine J).exec c t).1 ∧
          Refines J (MemoryStore.machine.exec c s).2 ((SqliteStore.machine J).exec c t).2 :=
    fun c _ _ hR hgood _ => hR.call hgood.1 hgood.2 c
  exact Machine.outcomes_eq_of_simulation _ _ hstep ops h hgood

end Refines

/-! ## A run that exhausts the change clock -/

namespace Overflow

def session : SessionId := ⟨"session", by decide⟩

def first : RecordId := ⟨"first", by decide⟩

def second : RecordId := ⟨"second", by decide⟩

/-- Two texts in turn, so that each edit changes the record. -/
def text (n : Nat) : Payload := .message .user ⟨[.text (if n % 2 = 0 then "even" else "odd")]⟩

def draft (id : RecordId) : Draft where
  id := id
  sessionId := session
  runId := none
  actor := ⟨"actor", by decide⟩
  replyToId := none
  source := none
  payload := text 0
  state := .opened

def edit (n : Nat) : StoreOp := ⟨.checkpoint first n (text (n + 1)) .opened⟩

/-- A record and its first `n` edits. -/
def history (n : Nat) : List StoreOp :=
  ⟨.createSession session⟩ :: ⟨.insert (draft first)⟩ :: (List.range n).map edit

def version (n : Nat) : Snapshot :=
  { Rules.created (draft first) 0 with
    record := { (Rules.created (draft first) 0).record with payload := text n }
    revision := n }

/-- The in-memory store after the first `n` edits. -/
def stateAt (n : Nat) : MemoryStore.State :=
  { MemoryStore.State.default with
    sessions := (∅ : HashMap SessionId (List RecordId)).insert session [first]
    records := (∅ : HashMap RecordId Entry).insert first ⟨version 0, version n⟩ }

def documents : List Document := [.payload (text 0), .payload (text 1), .initial ⟨text 0, .opened⟩]

theorem text_eq (n : Nat) : text n = text 0 ∨ text n = text 1 := by
  have hmod : n % 2 = 0 ∨ n % 2 = 1 := by omega
  rcases hmod with hmod | hmod
  · exact .inl (by simp [text, hmod])
  · exact .inr (by simp [text, hmod])

theorem payload_mem_documents (n : Nat) : .payload (text n) ∈ documents := by
  rcases text_eq n with htext | htext
  · simp [documents, htext]
  · simp [documents, htext]

theorem text_succ_ne (n : Nat) : text n ≠ text (n + 1) := by
  have hmod : n % 2 = 0 ∧ (n + 1) % 2 = 1 ∨ n % 2 = 1 ∧ (n + 1) % 2 = 0 := by omega
  rcases hmod with ⟨h0, h1⟩ | ⟨h0, h1⟩
  · simp [text, h0, h1]
  · simp [text, h0, h1]

theorem readsBack (hJ : J.Lawful) : ∀ d ∈ documents, d.ReadsBack J := by
  intro d hd
  simp only [documents, List.mem_cons, List.not_mem_nil, or_false] at hd
  rcases hd with rfl | rfl | rfl
  · exact (Codec.readsBack_payload_iff hJ _).mpr ⟨rfl, by decide⟩
  · exact (Codec.readsBack_payload_iff hJ _).mpr ⟨rfl, by decide⟩
  · exact (Codec.readsBack_initial_iff hJ _).mpr ⟨rfl, by decide⟩

/-- The database holds the state after the first `n` edits. -/
structure At (J : SerdeJson Text) (n : Nat) (db : Db Text) : Prop where
  refines : Refines J (stateAt n) db
  position : db.changeClock.position = n + 1
  written : ∀ d ∈ db.written, d ∈ documents

theorem lookup_first (n : Nat) :
    (stateAt n).records.lookup first = some ⟨version 0, version n⟩ := by
  show ((∅ : HashMap RecordId Entry).insert first _).lookup first = _
  rw [HashMap.lookup_insert_eq, if_pos rfl]

theorem withCurrent_stateAt (n : Nat) :
    (stateAt n).withCurrent first ⟨version 0, version n⟩ (version (n + 1)) = stateAt (n + 1) := by
  unfold MemoryStore.State.withCurrent stateAt
  rw [AList.insert_insert]

theorem advances_version {n : Nat} (hn : (n : Int) < i64Max) :
    Rules.Advances (version n) n (text (n + 1)) .opened where
  changed := fun h => text_succ_ne n h.1
  revision := rfl
  bound := by
    show n < u64Max
    unfold i64Max at hn
    unfold u64Max
    omega
  opened := rfl
  discriminant := rfl
  messageKind := rfl
  request := by intro h; cases h
  valid := rfl

/-- In every such database the counters other than the change clock are small. -/
theorem At.countersBelowMax {n : Nat} {db : Db Text} (h : At J n db) (hn : (n : Int) < i64Max) :
    Db.CountersBelowMax db := by
  apply h.refines.countersBelowMax
  · intro id ids hids
    have hids' := (HashMap.lookup_insert_eq _ _ _ _).symm.trans hids
    split at hids'
    · obtain rfl := Option.some.inj hids'
      decide
    · cases hids'
  · intro id e he
    have he' := (HashMap.lookup_insert_eq _ _ _ _).symm.trans he
    split at he'
    · obtain rfl := Option.some.inj he'
      exact hn
    · cases he'

theorem At.next {n : Nat} {db : Db Text} (hJ : J.Lawful) (h : At J n db)
    (hn : (n : Int) + 1 < i64Max) :
    At J (n + 1) ((SqliteStore.machine J).exec (edit n).call db).2 := by
  have hread : Db.ReadsBack J db := fun d hd => readsBack hJ d (h.written d hd)
  have hpos : db.changeClock.position < i64Max := by
    rw [h.position]
    exact hn
  obtain ⟨db', haction, hposition, hwritten, hafter⟩ :=
    h.refines.advances hread hpos (lookup_first n) (show (n : Int) < i64Max by omega)
      (advances_version (by omega))
  have hexec : ((SqliteStore.machine J).exec (edit n).call db).2 = db' := by
    show (write (SqliteStore.checkpoint J first n (text (n + 1)) .opened) db).2 = db'
    rw [write_ok haction]
  rw [hexec]
  refine ⟨?_, ?_, ?_⟩
  · rw [← withCurrent_stateAt n]
    exact hafter
  · rw [hposition, h.position]
    omega
  · intro d hd
    rw [hwritten] at hd
    rcases List.mem_append.mp hd with hd | hd
    · -- the new payload, and the creation content with the first edit
      simp only [updateDocs, initialContent, List.mem_cons] at hd
      rcases hd with rfl | hd
      · exact payload_mem_documents (n + 1)
      · split at hd
        · next hzero =>
          have hn0 : n = 0 := hzero
          subst hn0
          simp only [Option.map_some, Option.toList_some, List.mem_singleton] at hd
          rw [hd]
          simp [documents, version, Rules.created, draft]
        · cases hd
    · exact h.written d hd

/-- The database after the session is created. -/
def opened (J : SerdeJson Text) (epoch : String) : Db Text :=
  (SqliteStore.machine J).after [⟨.createSession session⟩] (Db.empty Text epoch)

theorem opened_refines (epoch : String) :
    Refines J (MemoryStore.createSession session .default).2 (opened J epoch) :=
  ((refines_empty epoch).createSession session).2

theorem opened_countersBelowMax (epoch : String) : Db.CountersBelowMax (opened J epoch) := by
  apply (opened_refines epoch).countersBelowMax
  · intro id ids hids
    have hids' := (HashMap.lookup_insert_eq _ _ _ _).symm.trans hids
    split at hids'
    · obtain rfl := Option.some.inj hids'
      decide
    · cases hids'
  · intro id e he
    cases he

theorem at_zero (epoch : String) :
    At J 0 ((SqliteStore.machine J).after (history 0) (Db.empty Text epoch)) := by
  have hread : Db.ReadsBack J (opened J epoch) := fun d hd => by cases hd
  have hinserts : (MemoryStore.createSession session .default).2.Inserts (draft first) [] :=
    { notResponse := rfl
      fresh := rfl
      requestOpen := fun h => by cases h
      prepares :=
        { valid := rfl
          session := (HashMap.lookup_insert_eq _ _ _ _).trans (if_pos rfl)
          run := fun _ h => by cases h
          reply := fun _ h => by cases h
          bound := by decide } }
  obtain ⟨haction, hafter⟩ := (opened_refines (J := J) epoch).inserts hread
    (opened_countersBelowMax epoch) (show (0 : Int) < i64Max by decide) hinserts
  have hexec : (SqliteStore.machine J).after (history 0) (Db.empty Text epoch) =
      afterInsert J (opened J epoch) (Rules.created (draft first) 0) 0 := by
    show (write (SqliteStore.insert J (draft first)) (opened J epoch)).2 = _
    rw [write_ok haction]
    rfl
  rw [hexec]
  refine ⟨?_, rfl, ?_⟩
  · have hstate : MemoryStore.State.committed (MemoryStore.createSession session .default).2
        (Rules.created (draft first) 0) [] = stateAt 0 := by
      show MemoryStore.State.mk _ _ _ _ _ _ = MemoryStore.State.mk _ _ _ _ _ _
      congr 1
    rw [← hstate]
    exact hafter
  · intro d hd
    have hd' : d ∈ [Document.payload (text 0)] := hd
    rw [List.mem_singleton.mp hd']
    exact payload_mem_documents 0

theorem at_history (hJ : J.Lawful) (epoch : String) (n : Nat) (hn : (n : Int) < i64Max) :
    At J n ((SqliteStore.machine J).after (history n) (Db.empty Text epoch)) := by
  induction n with
  | zero => exact at_zero epoch
  | succ n ih =>
    have hsplit : history (n + 1) = history n ++ [edit n] := by
      simp [history, List.range_succ]
    have hlt : (n : Int) + 1 < i64Max := by exact_mod_cast hn
    rw [hsplit, Machine.after_append]
    exact (ih (by omega)).next hJ hlt

/-- Once the change clock has reached `i64::MAX`, no record can be created, -/
theorem insert_fails {db : Db Text} (hpos : db.changeClock.position = i64Max) {draft : Draft}
    (hfresh : db.records.lookup draft.id.asStr = none) :
    ∃ e, write (SqliteStore.insert J draft) db = (.error e, db) := by
  rcases insert_cases J draft db with hfails | ⟨e, -, hrepeats, -⟩ | ⟨next, hins, -⟩
  · exact hfails
  · obtain ⟨row, hrow, -⟩ := entry_eq_some.mp hrepeats.found
    rw [hfresh] at hrow
    cases hrow
  · have hlt := hins.inserts.position
    rw [hpos] at hlt
    exact absurd hlt (Int.lt_irrefl _)

/-- while the other store goes on. -/
theorem insert_second (n : Nat) :
    (MemoryStore.insert (draft second) (stateAt n)).1 = .ok (Rules.created (draft second) 1) := by
  have hinserts : (stateAt n).Inserts (draft second) [first] :=
    { notResponse := rfl
      fresh := (HashMap.lookup_insert_eq _ _ _ _).trans (if_neg (by decide))
      requestOpen := fun h => by cases h
      prepares :=
        { valid := rfl
          session := (HashMap.lookup_insert_eq _ _ _ _).trans (if_pos rfl)
          run := fun _ h => by cases h
          reply := fun _ h => by cases h
          bound := by decide } }
  rw [MemoryStore.insert_eq hinserts]
  rfl

/-- What a run of the history passes through. -/
theorem prefix_cases {n : Nat} {pre : List StoreOp} (h : pre <+: history n) :
    pre = [] ∨ pre = [⟨.createSession session⟩] ∨ ∃ m, m ≤ n ∧ pre = history m := by
  rw [List.prefix_iff_eq_take] at h
  match hlength : pre.length with
  | 0 => exact .inl (List.length_eq_zero_iff.mp hlength)
  | 1 =>
    rw [hlength] at h
    exact .inr (.inl h)
  | m + 2 =>
    rw [hlength] at h
    have htake : pre = history (min m n) := by
      rw [h, history, List.take_succ_cons, List.take_succ_cons, ← List.map_take, List.take_range]
      rfl
    exact .inr (.inr ⟨min m n, Nat.min_le_right m n, htake⟩)

/-- All documents of the history read back, and its sequences and revisions are small. -/
theorem history_counters (hJ : J.Lawful) (epoch : String) {n : Nat} (hn : (n : Int) < i64Max)
    {pre : List StoreOp} (hpre : pre <+: history n) :
    Db.ReadsBack J ((SqliteStore.machine J).after pre (Db.empty Text epoch)) ∧
      Db.CountersBelowMax ((SqliteStore.machine J).after pre (Db.empty Text epoch)) := by
  rcases prefix_cases hpre with rfl | rfl | ⟨m, hm, rfl⟩
  · exact ⟨(fun d hd => by cases hd), (refines_empty (J := J) epoch).countersBelowMax
      (fun _ _ h => by cases h) (fun _ _ h => by cases h)⟩
  · exact ⟨(fun d hd => by cases hd), opened_countersBelowMax epoch⟩
  · have h := at_history hJ epoch m (by omega)
    exact ⟨fun d hd => readsBack hJ d (h.written d hd), h.countersBelowMax (by omega)⟩

/-- A short history stays within all bounds. -/
theorem history_good (hJ : J.Lawful) (epoch : String) {n : Nat} (hn : (n : Int) + 2 < i64Max)
    {pre : List StoreOp} (hpre : pre <+: history n) :
    Db.ReadsBack J ((SqliteStore.machine J).after pre (Db.empty Text epoch)) ∧
      Db.WithinBounds ((SqliteStore.machine J).after pre (Db.empty Text epoch)) := by
  obtain ⟨hread, hcounters⟩ := history_counters hJ epoch (by omega) hpre
  refine ⟨hread, { hcounters with position := ?_ }⟩
  rcases prefix_cases hpre with rfl | rfl | ⟨m, hm, rfl⟩
  · exact show (0 : Int) + 1 < i64Max by decide
  · exact show (0 : Int) + 1 < i64Max by decide
  · rw [(at_history hJ epoch m (by omega)).position]
    omega

theorem after_history (n : Nat) (hn : (n : Int) < i64Max) :
    MemoryStore.machine.after (history n) .default = stateAt n := by
  induction n with
  | zero =>
    show MemoryStore.State.mk _ _ _ _ _ _ = MemoryStore.State.mk _ _ _ _ _ _
    congr 1
  | succ n ih =>
    have hsplit : history (n + 1) = history n ++ [edit n] := by
      simp [history, List.range_succ]
    have hlt : (n : Int) + 1 < i64Max := by exact_mod_cast hn
    rw [hsplit, Machine.after_append, ih (by omega), ← withCurrent_stateAt]
    show (MemoryStore.checkpoint first n (text (n + 1)) .opened (stateAt n)).2 = _
    simp only [MemoryStore.checkpoint, lookup_first,
      Rules.checkpoint_advance (advances_version (show (n : Int) < i64Max by omega))]
    rfl

/-- The run that exhausts the change clock and then creates a second record. -/
theorem outcomes_ne (hJ : J.Lawful) (epoch : String) {n : Nat} (hn : (n : Int) + 1 = i64Max) :
    MemoryStore.machine.outcomes (history n ++ [⟨.insert (draft second)⟩]) .default ≠
      (SqliteStore.machine J).outcomes (history n ++ [⟨.insert (draft second)⟩])
        (Db.empty Text epoch) ∧
    ∀ pre, pre <+: history n ++ [⟨.insert (draft second)⟩] →
      Db.ReadsBack J ((SqliteStore.machine J).after pre (Db.empty Text epoch)) ∧
      Db.CountersBelowMax ((SqliteStore.machine J).after pre (Db.empty Text epoch)) := by
  have hat := at_history hJ epoch
  have hlast := hat n (by omega)
  have hfresh : ((SqliteStore.machine J).after (history n)
      (Db.empty Text epoch)).records.lookup second.asStr = none := by
    rw [hlast.refines.records, byName_asStr]
    exact congrArg _ ((HashMap.lookup_insert_eq _ _ _ _).trans (if_neg (by decide)))
  have hinsert : ∃ e, write (SqliteStore.insert J (draft second)) ((SqliteStore.machine J).after
      (history n) (Db.empty Text epoch)) = (.error e, (SqliteStore.machine J).after
        (history n) (Db.empty Text epoch)) := insert_fails (hlast.position.trans hn) hfresh
  obtain ⟨e, hfails⟩ := hinsert
  constructor
  · intro hequal
    rw [Machine.outcomes_append, Machine.outcomes_append, after_history n (by omega)] at hequal
    have hanswers := (List.append_inj' hequal rfl).2
    have hanswer : (MemoryStore.insert (draft second) (stateAt n)).1 =
        orFault (write (SqliteStore.insert J (draft second)) ((SqliteStore.machine J).after
          (history n) (Db.empty Text epoch))).1 :=
      eq_of_heq (Sigma.mk.inj (List.cons.inj hanswers).1).2
    rw [insert_second, hfails] at hanswer
    cases hanswer
  · intro pre hpre
    rcases List.prefix_concat_iff.mp hpre with rfl | hpre
    · -- the insert fails, so the database is still the one before it
      rw [Machine.after_append]
      show Db.ReadsBack J (write (SqliteStore.insert J (draft second)) _).2 ∧
        Db.CountersBelowMax (write (SqliteStore.insert J (draft second)) _).2
      rw [hfails]
      exact history_counters hJ epoch (by omega) (List.prefix_refl _)
    · exact history_counters hJ epoch (by omega) hpre

end Overflow

/-- Two empty stores answer every run alike, while every document written reads back and no
sequence, revision or change position runs out. -/
theorem stores_agree (J : SerdeJson Text) (epoch : String) (ops : List StoreOp)
    (hgood : ∀ pre, pre <+: ops →
      Db.ReadsBack J ((SqliteStore.machine J).after pre (Db.empty Text epoch)) ∧
      Db.WithinBounds ((SqliteStore.machine J).after pre (Db.empty Text epoch))) :
    MemoryStore.machine.outcomes ops .default =
      (SqliteStore.machine J).outcomes ops (Db.empty Text epoch) :=
  ((refines_empty epoch).run ops hgood).1

theorem stores_agree_history :
    MemoryStore.machine.outcomes (Overflow.history 1) .default =
      (SqliteStore.machine SerdeJson.tree).outcomes (Overflow.history 1) (Db.empty Json "epoch") :=
  stores_agree SerdeJson.tree "epoch" (Overflow.history 1) fun pre hpre =>
    Overflow.history_good SerdeJson.tree_lawful "epoch" (show ((1 : Nat) : Int) + 2 < i64Max by decide)
      hpre

/-- The bounds on sequences and revisions alone are not enough: one record, edited until the change
clock is exhausted, and a second record. -/
theorem stores_disagree :
    ¬ ∀ ops : List StoreOp,
      (∀ pre, pre <+: ops →
        Db.ReadsBack SerdeJson.tree
            ((SqliteStore.machine SerdeJson.tree).after pre (Db.empty Json "epoch")) ∧
          Db.CountersBelowMax
            ((SqliteStore.machine SerdeJson.tree).after pre (Db.empty Json "epoch"))) →
        MemoryStore.machine.outcomes ops .default =
          (SqliteStore.machine SerdeJson.tree).outcomes ops (Db.empty Json "epoch") := by
  intro hclaim
  have hn : ((2 ^ 63 - 2 : Nat) : Int) + 1 = i64Max := by decide
  obtain ⟨hne, hgood⟩ := Overflow.outcomes_ne SerdeJson.tree_lawful "epoch" hn
  exact hne (hclaim _ hgood)

end AgentBridge
