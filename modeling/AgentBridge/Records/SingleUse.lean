import AgentBridge.Records.Refinement.RegistryRows
import AgentBridge.Records.Sqlite.Soundness

/-!
# Single use of continuations in both stores

Each store holds a registry: the in-memory store in its state, the SQLite store in the rows of a
table.  What a call does to it depends on the call and on whether it succeeds only.
-/

namespace AgentBridge

open Reasoning

/-- The calls that write continuations. -/
def writesContinuations {β : Type} : StoreCall β → Bool
  | .saveContinuation _ => true
  | .claimContinuation _ => true
  | _ => false

/-- The calls that write relations between runs. -/
def writesRelations {β : Type} : StoreCall β → Bool
  | .linkExecution _ => true
  | _ => false

namespace Registry

/-- The registry after a call of a store: a call that fails leaves it alone. -/
def follow (registry : Registry) {β : Type} : StoreCall β → Except Fault β → Registry
  | .saveContinuation value, .ok _ => (registry.save value).2
  | .claimContinuation id, .ok _ => (registry.claim id).2
  | _, _ => registry

theorem save_repeated {registry : Registry} {value : Continuation} {record : ContinuationRecord}
    (h : registry.records.lookup value.id = some record) : (registry.save value).2 = registry := by
  rcases save_cases registry value with ⟨e, he⟩ | ⟨_, -, -, he⟩ | ⟨hs, -⟩
  · rw [he]
  · rw [he]
  · have hfresh := hs.fresh
    rw [h] at hfresh
    cases hfresh

theorem save_of_saves {registry : Registry} {value : Continuation} (h : registry.Saves value) :
    (registry.save value).2 = registry.saved value := by
  rcases save_cases registry value with ⟨e, he⟩ | ⟨record, hrecord, -, -⟩ | ⟨-, he⟩
  · have hsucc := h.successor
    rw [previous] at hsucc
    simp only [save, h.valid, h.fresh, hsucc, Prod.mk.injEq, reduceCtorEq, false_and] at he
  · rw [h.fresh] at hrecord
    cases hrecord
  · rw [he]

theorem claim_of_available {registry : Registry} {id : ContinuationId} {record : ContinuationRecord}
    (h : registry.records.lookup id = some record) (hfree : record.state = .available)
    (hlatest : record.latest = true) : (registry.claim id).2 = registry.claimed id record := by
  rcases claim_cases registry id with ⟨e, he⟩ | ⟨record', h', -, -, he⟩
  · simp [claim, get, h, hfree, hlatest] at he
  · rw [h, Option.some.injEq] at h'
    rw [he, h']

end Registry

/-- What stays of continuations: their descriptors, that they are claimed, that they have a
successor. -/
def ContinuationTable.Kept (table table' : ContinuationTable) : Prop :=
  ∀ id r, table id = some r → ∃ r', table' id = some r' ∧ r'.continuation = r.continuation ∧
    (r.state = .claimed → r'.state = .claimed) ∧ (r.latest = false → r'.latest = false)

theorem ContinuationTable.Kept.refl (table : ContinuationTable) : table.Kept table :=
  fun _ r h => ⟨r, h, rfl, id, id⟩

theorem ContinuationTable.Kept.trans {a b c : ContinuationTable} (h : a.Kept b) (h' : b.Kept c) :
    a.Kept c := by
  intro id r hr
  obtain ⟨r', hr', hsame, hclaimed, hlatest⟩ := h id r hr
  obtain ⟨r'', hr'', hsame', hclaimed', hlatest'⟩ := h' id r' hr'
  exact ⟨r'', hr'', hsame'.trans hsame, fun hc => hclaimed' (hclaimed hc),
    fun hl => hlatest' (hlatest hl)⟩

namespace Registry

theorem kept_saved {registry : Registry} (h : registry.WellFormed) {value : Continuation}
    (hs : registry.Saves value) :
    ContinuationTable.Kept registry.records.lookup (registry.saved value).records.lookup := by
  intro id r hfound
  have hr : registry.records.lookup id = some r := hfound
  have hne : id ≠ value.id := by
    intro heq
    rw [heq, hs.fresh] at hr
    cases hr
  have hsaved := lookup_saved_eq h value id
  rw [if_neg hne, hr] at hsaved
  refine ⟨_, hsaved, unlatch_continuation _ r, ?_, ?_⟩
  · intro hclaimed
    unfold unlatch
    split
    · exact hclaimed
    · exact hclaimed
  · intro hlatest
    unfold unlatch
    split
    · rfl
    · exact hlatest

theorem kept_claimed {registry : Registry} (h : registry.WellFormed) {id : ContinuationId}
    {record : ContinuationRecord} (hrecord : registry.records.lookup id = some record) :
    ContinuationTable.Kept registry.records.lookup (registry.claimed id record).records.lookup := by
  intro other r hfound
  have hr : registry.records.lookup other = some r := hfound
  have hclaimed := lookup_claimed_eq h hrecord other
  rw [hr] at hclaimed
  exact ⟨_, hclaimed, markClaimed_continuation id r, markClaimed_state id,
    fun hlatest => (markClaimed_latest id r).trans hlatest⟩

/-- A call keeps what stays, and the chains. -/
theorem follow_spec {registry : Registry} (h : registry.WellFormed) {β : Type} (c : StoreCall β)
    (answer : Except Fault β) :
    ContinuationTable.Kept registry.records.lookup (registry.follow c answer).records.lookup ∧
      (Chained registry.records.lookup → Chained (registry.follow c answer).records.lookup) := by
  cases answer with
  | error e => cases c <;> exact ⟨.refl _, id⟩
  | ok b =>
    cases c with
    | saveContinuation value =>
      show ContinuationTable.Kept _ (registry.save value).2.records.lookup ∧
        (_ → Chained (registry.save value).2.records.lookup)
      rcases save_cases registry value with ⟨e, he⟩ | ⟨record, -, -, he⟩ | ⟨hs, he⟩
      · rw [he]
        exact ⟨.refl _, id⟩
      · rw [he]
        exact ⟨.refl _, id⟩
      · rw [he]
        exact ⟨kept_saved h hs, fun hc => chained_saved h hc hs⟩
    | claimContinuation id =>
      show ContinuationTable.Kept _ (registry.claim id).2.records.lookup ∧
        (_ → Chained (registry.claim id).2.records.lookup)
      rcases claim_cases registry id with ⟨e, he⟩ | ⟨record, hrecord, -, -, he⟩
      · rw [he]
        exact ⟨.refl _, fun hc => hc⟩
      · rw [he]
        exact ⟨kept_claimed h hrecord, fun hc => chained_claimed h hc hrecord⟩
    | _ => exact ⟨.refl _, id⟩

end Registry

/-- A store holds a registry. -/
structure SingleUse {σ : Type} (m : StoreMachine σ) (holds : Registry → σ → Prop) : Prop where
  wellFormed : ∀ registry s, holds registry s → registry.WellFormed
  follow : ∀ {β : Type} (c : StoreCall β) registry s, holds registry s →
    holds (registry.follow c (m.exec c s).1) (m.exec c s).2
  saved : ∀ value registry s record, holds registry s →
    (m.exec (.saveContinuation value) s).1 = .ok record →
    (registry.records.lookup value.id = some record ∧ record.continuation = value ∧
      (m.exec (.saveContinuation value) s).2 = s) ∨
    (registry.Saves value ∧ record = ⟨value, .available, true⟩)
  claimed : ∀ id registry s record, holds registry s →
    (m.exec (.claimContinuation id) s).1 = .ok record →
    ∃ old, registry.records.lookup id = some old ∧ old.state = .available ∧ old.latest = true ∧
      record = { old with state := .claimed }
  failed : ∀ {β : Type} (c : StoreCall β) registry s e, holds registry s →
    writesContinuations c = true → (m.exec c s).1 = .error e → (m.exec c s).2 = s
  read : ∀ id s, (m.exec (.getContinuation id) s).2 = s

/-! ## The in-memory store -/

namespace MemoryStore

/-- The same continuations and relations between runs. -/
structure State.SameLinks (state state' : State) : Prop where
  continuations : state'.continuations = state.continuations
  relations : state'.executionRelations = state.executionRelations

theorem exec_sameLinks {state : State} (hwf : state.WellFormed) {β : Type} {c : StoreCall β}
    (h : writesHistory c = true) : state.SameLinks (exec c state).2 := by
  cases c with
  | registerRun spec =>
    show state.SameLinks (registerRun spec state).2
    rcases registerRun_cases spec state with ⟨e, he⟩ | ⟨-, he⟩ | ⟨-, -, -, -, he⟩ <;>
      rw [he] <;> exact ⟨rfl, rfl⟩
  | insert draft =>
    show state.SameLinks (insert draft state).2
    rcases insert_cases draft state with ⟨e, he⟩ | ⟨entry, -, -, he⟩ | ⟨ids, -, he⟩ <;>
      rw [he] <;> exact ⟨rfl, rfl⟩
  | checkpoint id r payload next =>
    show state.SameLinks (checkpoint id r payload next state).2
    rcases checkpoint_cases id r payload next state with ⟨e, he⟩ | ⟨entry, new, -, -, he⟩ <;>
      rw [he] <;> exact ⟨rfl, rfl⟩
  | resolve request r decision =>
    show state.SameLinks (resolve request r decision state).2
    rcases resolve_cases (fun q a hd => (hwf.decisions q a hd).2) request r decision with
      ⟨e, he⟩ | ⟨response, entry, -, -, he⟩ | ⟨entry, ids, -, he⟩ <;>
      rw [he] <;> exact ⟨rfl, rfl⟩
  | _ => cases h

theorem exec_continuations {state : State} (hwf : state.WellFormed) {β : Type} {c : StoreCall β}
    (h : writesContinuations c = false) : (exec c state).2.continuations = state.continuations := by
  cases hw : writesHistory c with
  | true => exact (exec_sameLinks hwf hw).continuations
  | false =>
    cases c with
    | createSession id =>
      show (createSession id state).2.continuations = _
      unfold createSession
      split <;> rfl
    | linkExecution relation =>
      show (linkExecution relation state).2.continuations = _
      rcases linkExecution_cases relation state with ⟨e, he⟩ | ⟨-, he⟩ | ⟨_, _, -, -, -, -, he⟩ <;>
        rw [he]
    | saveContinuation value => cases h
    | claimContinuation id => cases h
    | registerRun spec => cases hw
    | insert draft => cases hw
    | checkpoint id r payload next => cases hw
    | resolve request r decision => cases hw
    | _ => rfl

/-- The in-memory store holds its registry. -/
def HoldsRegistry (registry : Registry) (state : State) : Prop :=
  state.WellFormed ∧ state.continuations = registry

theorem saveContinuation_cases (value : Continuation) (state : State) :
    (∃ e, saveContinuation value state = (.error e, state)) ∨
      (∃ record, state.continuations.records.lookup value.id = some record ∧
        record.continuation = value ∧ saveContinuation value state = (.ok record, state)) ∨
      state.continuations.Saves value ∧ saveContinuation value state =
        (.ok ⟨value, .available, true⟩,
          { state with continuations := state.continuations.saved value }) := by
  cases hsession : state.sessions.lookup value.sessionId with
  | none => exact .inl ⟨.error .missingSession, by simp [saveContinuation, hsession]⟩
  | some ids =>
    rcases Registry.save_cases state.continuations value with
      ⟨e, he⟩ | ⟨record, hrecord, hsame, he⟩ | ⟨hs, he⟩
    · exact .inl ⟨.error e, by simp [saveContinuation, hsession, withRegistry, he]⟩
    · exact .inr (.inl ⟨record, hrecord, hsame, by
        simp [saveContinuation, hsession, withRegistry, he]⟩)
    · exact .inr (.inr ⟨hs, by simp [saveContinuation, hsession, withRegistry, he]⟩)

theorem claimContinuation_cases (id : ContinuationId) (state : State) :
    (∃ e, claimContinuation id state = (.error e, state)) ∨
      ∃ record, state.continuations.records.lookup id = some record ∧ record.state = .available ∧
        record.latest = true ∧ claimContinuation id state =
          (.ok { record with state := .claimed },
            { state with continuations := state.continuations.claimed id record }) := by
  rcases Registry.claim_cases state.continuations id with
    ⟨e, he⟩ | ⟨record, hrecord, hfree, hlatest, he⟩
  · exact .inl ⟨.error e, by simp [claimContinuation, withRegistry, he]⟩
  · exact .inr ⟨record, hrecord, hfree, hlatest, by simp [claimContinuation, withRegistry, he]⟩

theorem singleUse : SingleUse machine HoldsRegistry where
  wellFormed registry s h := h.2 ▸ h.1.registry
  follow c registry s h := by
    obtain ⟨hwf, rfl⟩ := h
    refine ⟨hwf.exec c, ?_⟩
    cases hw : writesContinuations c with
    | false =>
      have hsame : s.continuations.follow c (exec c s).1 = s.continuations := by
        cases c <;> first | rfl | cases hw
      exact (exec_continuations hwf hw).trans hsame.symm
    | true =>
      cases c with
      | saveContinuation value =>
        show (saveContinuation value s).2.continuations =
          s.continuations.follow (.saveContinuation value) (saveContinuation value s).1
        rcases saveContinuation_cases value s with ⟨e, he⟩ | ⟨record, hrecord, -, he⟩ | ⟨hs, he⟩
        · rw [he]
          rfl
        · rw [he]
          exact (Registry.save_repeated hrecord).symm
        · rw [he]
          exact (Registry.save_of_saves hs).symm
      | claimContinuation id =>
        show (claimContinuation id s).2.continuations =
          s.continuations.follow (.claimContinuation id) (claimContinuation id s).1
        rcases claimContinuation_cases id s with ⟨e, he⟩ | ⟨record, hrecord, hfree, hlatest, he⟩
        · rw [he]
          rfl
        · rw [he]
          exact (Registry.claim_of_available hrecord hfree hlatest).symm
      | _ => cases hw
  saved value registry s record h hok := by
    obtain ⟨-, rfl⟩ := h
    have hok' : (saveContinuation value s).1 = .ok record := hok
    show _ ∧ _ ∧ (saveContinuation value s).2 = s ∨ _
    rcases saveContinuation_cases value s with ⟨e, he⟩ | ⟨found, hfound, hsame, he⟩ | ⟨hs, he⟩
    · rw [he] at hok'
      cases hok'
    · rw [he] at hok' ⊢
      cases hok'
      exact .inl ⟨hfound, hsame, rfl⟩
    · rw [he] at hok'
      cases hok'
      exact .inr ⟨hs, rfl⟩
  claimed id registry s record h hok := by
    obtain ⟨-, rfl⟩ := h
    have hok' : (claimContinuation id s).1 = .ok record := hok
    rcases claimContinuation_cases id s with ⟨e, he⟩ | ⟨old, hold, hfree, hlatest, he⟩
    · rw [he] at hok'
      cases hok'
    · rw [he] at hok'
      cases hok'
      exact ⟨old, hold, hfree, hlatest, rfl⟩
  failed c registry s e h hw herror := by
    cases c with
    | saveContinuation value =>
      have herror' : (saveContinuation value s).1 = .error e := herror
      show (saveContinuation value s).2 = s
      rcases saveContinuation_cases value s with ⟨e, he⟩ | ⟨record, -, -, he⟩ | ⟨hs, he⟩
      · rw [he]
      · rw [he]
      · rw [he] at herror'
        cases herror'
    | claimContinuation id =>
      have herror' : (claimContinuation id s).1 = .error e := herror
      show (claimContinuation id s).2 = s
      rcases claimContinuation_cases id s with ⟨e, he⟩ | ⟨record, -, -, -, he⟩
      · rw [he]
      · rw [he] at herror'
        cases herror'
    | _ => cases hw
  read id s := rfl

end MemoryStore

/-! ## The SQLite store -/

namespace SqliteStore

variable {Text : Type} {J : SerdeJson Text} {db : Db Text}

/-- The same continuations and relations between runs. -/
structure Db.SameLinks (db db' : Db Text) : Prop where
  continuations : db'.continuations = db.continuations
  relations : db'.executionRelations = db.executionRelations

theorem call_sameLinks (hs : db.Sound) {β : Type} {c : StoreCall β}
    (h : writesHistory c = true) : db.SameLinks (call J c db).2 := by
  cases c with
  | registerRun spec =>
    show db.SameLinks (write (registerRun J spec) db).2
    rcases registerRun_cases J spec db with ⟨e, he⟩ | ⟨-, he⟩ | ⟨-, -, -, -, he⟩ <;>
      rw [he] <;> exact ⟨rfl, rfl⟩
  | insert draft =>
    show db.SameLinks (write (insert J draft) db).2
    rcases insert_cases J draft db with ⟨e, he⟩ | ⟨e, -, -, he⟩ | ⟨next, -, he⟩ <;>
      rw [he] <;> exact ⟨rfl, rfl⟩
  | checkpoint id r payload next =>
    show db.SameLinks (write (checkpoint J id r payload next) db).2
    rcases checkpoint_cases hs id r payload next with
      ⟨e, he⟩ | ⟨e, -, -, he⟩ | ⟨e, row, change, -, -, he⟩ <;>
      rw [he] <;> exact ⟨rfl, rfl⟩
  | resolve request r decision =>
    show db.SameLinks (write (resolve J request r decision) db).2
    rcases resolve_cases hs request r decision with
      ⟨e, he⟩ | ⟨response, e, -, -, he⟩ | ⟨e, row, change, next, -, he⟩ <;>
      rw [he] <;> exact ⟨rfl, rfl⟩
  | _ => cases h

theorem insertRelation_continuations {db' : Db Text} {child : String} {row : RelationRow Text}
    {docs : List Document} (h : db.insertRelation child row docs = .ok db') :
    db'.continuations = db.continuations := by
  unfold Db.insertRelation at h
  simp only [ite_error_eq_ok, Except.ok.injEq] at h
  obtain ⟨-, -, -, rfl⟩ := h
  rfl

theorem linkExecution_continuations {relation : ExecutionRelation}
    {result : ExecutionRelation × Db Text} (h : linkExecution J relation db = .ok result) :
    result.2.continuations = db.continuations := by
  unfold linkExecution at h
  obtain ⟨found, -, h⟩ := bind_eq_ok.mp h
  cases found with
  | some existing =>
    simp only at h
    split at h <;> cases h
    rfl
  | none =>
  obtain ⟨parent, -, h⟩ := bind_eq_ok.mp h
  cases parent with
  | none => cases h
  | some parent =>
  obtain ⟨child, -, h⟩ := bind_eq_ok.mp h
  cases child with
  | none => cases h
  | some child =>
    simp only [bind_eq_ok, ite_error_eq_ok, Except.ok.injEq] at h
    obtain ⟨_, -, _, -, -, _, -, _, -, _, -, _, -, inserted, hinsert, rfl⟩ := h
    exact insertRelation_continuations hinsert

theorem call_continuations (hs : db.Sound) {β : Type} {c : StoreCall β}
    (h : writesContinuations c = false) : (call J c db).2.continuations = db.continuations := by
  cases hw : writesHistory c with
  | true => exact (call_sameLinks hs hw).continuations
  | false =>
    cases c with
    | createSession id =>
      show (db.insertSession id.asStr).continuations = _
      unfold Db.insertSession
      split <;> rfl
    | linkExecution relation =>
      show (write (linkExecution J relation) db).2.continuations = _
      cases hlink : linkExecution J relation db with
      | error e => rw [write_error hlink]
      | ok result =>
        rw [write_ok hlink]
        exact linkExecution_continuations hlink
    | saveContinuation value => cases h
    | claimContinuation id => cases h
    | registerRun spec => cases hw
    | insert draft => cases hw
    | checkpoint id r payload next => cases hw
    | resolve request r decision => cases hw
    | _ => rfl

/-- The database holds a registry in the rows of its table. -/
def HoldsRegistry (J : SerdeJson Text) (registry : Registry) (db : Db Text) : Prop :=
  db.Sound ∧ RegistryRows J registry db

/-- The rows of the table are those of the continuations, each under its id. -/
def Db.HoldsContinuations (J : SerdeJson Text) (table : ContinuationTable) (db : Db Text) : Prop :=
  ∀ name row, db.continuations.lookup name = some row ↔
    ∃ id record, id.asStr = name ∧ table id = some record ∧ row = continuationRow J record

theorem HoldsRegistry.holdsContinuations {registry : Registry} (h : HoldsRegistry J registry db) :
    db.HoldsContinuations J registry.records.lookup := by
  intro name row
  rw [h.2.rows, Option.map_eq_some_iff]
  constructor
  · rintro ⟨record, hrecord, rfl⟩
    obtain ⟨id, hname, hid⟩ := byName_eq_some.mp hrecord
    exact ⟨id, record, hname, hid, rfl⟩
  · rintro ⟨id, record, hname, hid, rfl⟩
    exact ⟨record, byName_eq_some.mpr ⟨id, hname, hid⟩, rfl⟩

theorem singleUse (hJ : J.Lawful) : SingleUse (machine J) (HoldsRegistry J) where
  wellFormed registry s h := h.2.wellFormed
  follow c registry s h := by
    obtain ⟨hs, hrows⟩ := h
    refine ⟨hs.step (call_step hs c), ?_⟩
    cases hw : writesContinuations c with
    | false =>
      have hsame : registry.follow c (exec J c s).1 = registry := by
        cases c <;> first | rfl | cases hw
      have hcont : (call J c s).2.continuations = s.continuations := call_continuations hs hw
      show RegistryRows J (registry.follow c (exec J c s).1) (call J c s).2
      rw [hsame]
      exact ⟨hrows.wellFormed, fun name => by rw [hcont]; exact hrows.rows name⟩
    | true =>
      cases c with
      | saveContinuation value =>
        show RegistryRows J (registry.follow (.saveContinuation value)
          (orFault (write (saveContinuation J value) s).1)) (write (saveContinuation J value) s).2
        rcases hrows.save_cases hJ value with
          ⟨e, he⟩ | ⟨record, hrecord, -, he⟩ | ⟨hsaves, he, hafter⟩
        · rw [he]
          exact hrows
        · rw [he]
          have hsame := Registry.save_repeated hrecord
          show RegistryRows J (registry.save value).2 s
          rw [hsame]
          exact hrows
        · rw [he]
          show RegistryRows J (registry.save value).2 _
          rw [Registry.save_of_saves hsaves]
          exact hafter
      | claimContinuation id =>
        show RegistryRows J (registry.follow (.claimContinuation id)
          (orFault (write (claimContinuation J id) s).1)) (write (claimContinuation J id) s).2
        rcases hrows.claim_cases hJ id with ⟨e, he⟩ | ⟨record, hrecord, hfree, hlatest, he, hafter⟩
        · rw [he]
          exact hrows
        · rw [he]
          show RegistryRows J (registry.claim id).2 _
          rw [Registry.claim_of_available hrecord hfree hlatest]
          exact hafter
      | _ => cases hw
  saved value registry s record h hok := by
    have hok' : orFault (write (saveContinuation J value) s).1 = .ok record := hok
    show _ ∧ _ ∧ (write (saveContinuation J value) s).2 = s ∨ _
    rcases h.2.save_cases hJ value with ⟨e, he⟩ | ⟨found, hfound, hsame, he⟩ | ⟨hsaves, he, -⟩
    · rw [he] at hok'
      cases hok'
    · rw [he] at hok' ⊢
      cases hok'
      exact .inl ⟨hfound, hsame, rfl⟩
    · rw [he] at hok'
      cases hok'
      exact .inr ⟨hsaves, rfl⟩
  claimed id registry s record h hok := by
    have hok' : orFault (write (claimContinuation J id) s).1 = .ok record := hok
    rcases h.2.claim_cases hJ id with ⟨e, he⟩ | ⟨old, hold, hfree, hlatest, he, -⟩
    · rw [he] at hok'
      cases hok'
    · rw [he] at hok'
      cases hok'
      exact ⟨old, hold, hfree, hlatest, rfl⟩
  failed c registry s e h hw herror := by
    cases c with
    | saveContinuation value =>
      have herror' : orFault (write (saveContinuation J value) s).1 = .error e := herror
      show (write (saveContinuation J value) s).2 = s
      rcases h.2.save_cases hJ value with ⟨e, he⟩ | ⟨record, -, -, he⟩ | ⟨-, he, -⟩
      · rw [he]
      · rw [he]
      · rw [he] at herror'
        cases herror'
    | claimContinuation id =>
      have herror' : orFault (write (claimContinuation J id) s).1 = .error e := herror
      show (write (claimContinuation J id) s).2 = s
      rcases h.2.claim_cases hJ id with ⟨e, he⟩ | ⟨record, -, -, -, he, -⟩
      · rw [he]
      · rw [he] at herror'
        cases herror'
    | _ => cases hw
  read id s := rfl

end SqliteStore

/-! ## Runs -/

/-- The registry a store holds after the calls of a run. -/
def registryAfter {σ : Type} (m : StoreMachine σ) : List StoreOp → Registry → σ → Registry
  | [], registry, _ => registry
  | op :: ops, registry, s =>
      registryAfter m ops (registry.follow op.call (m.exec op.call s).1) (m.exec op.call s).2

theorem registryAfter_append {σ : Type} (m : StoreMachine σ) (ops more : List StoreOp)
    (registry : Registry) (s : σ) : registryAfter m (ops ++ more) registry s =
      registryAfter m more (registryAfter m ops registry s) (m.after ops s) := by
  induction ops generalizing registry s with
  | nil => rfl
  | cons op ops ih => exact ih _ _

/-- The continuations along the runs of a store. -/
structure ChainHistory {σ : Type} (m : StoreMachine σ) (start : σ)
    (table : List StoreOp → ContinuationTable) : Prop where
  chained : ∀ ops, Chained (table ops)
  kept : ∀ ops more, (table ops).Kept (table (ops ++ more))
  /-- A save answers the continuation; repeated, what there is of it, and nothing changes. -/
  saved : ∀ ops value record,
    (m.exec (.saveContinuation value) (m.after ops start)).1 = .ok record →
    record.continuation = value ∧
      table (ops ++ [⟨.saveContinuation value⟩]) value.id = some record
  repeated : ∀ ops value old record, table ops value.id = some old →
    (m.exec (.saveContinuation value) (m.after ops start)).1 = .ok record →
    record = old ∧ (m.exec (.saveContinuation value) (m.after ops start)).2 = m.after ops start
  claimed : ∀ ops id record,
    (m.exec (.claimContinuation id) (m.after ops start)).1 = .ok record →
    record.state = .claimed ∧ table (ops ++ [⟨.claimContinuation id⟩]) id = some record ∧
      table ops id = some { record with state := .available }
  /-- A second claim fails, however long after. -/
  once : ∀ ops mid id record,
    (m.exec (.claimContinuation id) (m.after ops start)).1 = .ok record →
    ∃ e, (m.exec (.claimContinuation id)
      (m.after (ops ++ [⟨.claimContinuation id⟩] ++ mid) start)).1 = .error e

namespace SingleUse

variable {σ : Type} {m : StoreMachine σ} {holds : Registry → σ → Prop} {registry : Registry}
  {s : σ}

theorem holds_after (h : SingleUse m holds) (hs : holds registry s) (ops : List StoreOp) :
    holds (registryAfter m ops registry s) (m.after ops s) := by
  induction ops generalizing registry s with
  | nil => exact hs
  | cons op ops ih => exact ih (h.follow op.call registry s hs)

theorem kept_after (h : SingleUse m holds) (hs : holds registry s) (ops : List StoreOp) :
    ContinuationTable.Kept registry.records.lookup
      (registryAfter m ops registry s).records.lookup := by
  induction ops generalizing registry s with
  | nil => exact .refl _
  | cons op ops ih =>
    have hstep := (Registry.follow_spec (h.wellFormed registry s hs) op.call (m.exec op.call s).1).1
    exact hstep.trans (ih (h.follow op.call registry s hs))

theorem chained_after (h : SingleUse m holds) (hs : holds registry s)
    (hc : Chained registry.records.lookup) (ops : List StoreOp) :
    Chained (registryAfter m ops registry s).records.lookup := by
  induction ops generalizing registry s with
  | nil => exact hc
  | cons op ops ih =>
    have hstep := (Registry.follow_spec (h.wellFormed registry s hs) op.call (m.exec op.call s).1).2
    exact ih (h.follow op.call registry s hs) (hstep hc)

/-- What a claim that succeeds leaves under its id. -/
theorem follow_claim (h : SingleUse m holds) (hs : holds registry s) {id : ContinuationId}
    {record : ContinuationRecord} (hok : (m.exec (.claimContinuation id) s).1 = .ok record) :
    record.state = .claimed ∧
      registry.records.lookup id = some { record with state := .available } ∧
      (registry.follow (.claimContinuation id)
        (m.exec (.claimContinuation id) s).1).records.lookup id = some record := by
  obtain ⟨old, hold, hfree, hlatest, rfl⟩ := h.claimed id registry s record hs hok
  have hsame : old = { old with state := .available } := by rw [← hfree]
  refine ⟨rfl, hold.trans (congrArg some hsame), ?_⟩
  rw [hok]
  show (registry.claim id).2.records.lookup id = _
  rw [Registry.claim_of_available hold hfree hlatest]
  exact (HashMap.lookup_insert_eq _ _ _ _).trans (if_pos rfl)

theorem follow_save (h : SingleUse m holds) (hs : holds registry s) {value : Continuation}
    {record : ContinuationRecord} (hok : (m.exec (.saveContinuation value) s).1 = .ok record) :
    record.continuation = value ∧ (registry.follow (.saveContinuation value)
        (m.exec (.saveContinuation value) s).1).records.lookup value.id = some record := by
  have hsaved := h.saved value registry s record hs hok
  rw [hok]
  show _ ∧ (registry.save value).2.records.lookup value.id = _
  rcases hsaved with ⟨hrecord, hsame, -⟩ | ⟨hsaves, rfl⟩
  · rw [Registry.save_repeated hrecord]
    exact ⟨hsame, hrecord⟩
  · rw [Registry.save_of_saves hsaves]
    exact ⟨rfl, Registry.lookup_saved_self registry value⟩

theorem claim_fails (h : SingleUse m holds) (hs : holds registry s) {id : ContinuationId}
    {r : ContinuationRecord} (hr : registry.records.lookup id = some r) (hclaimed : r.state = .claimed) :
    ∃ e, (m.exec (.claimContinuation id) s).1 = .error e := by
  cases hanswer : (m.exec (.claimContinuation id) s).1 with
  | error e => exact ⟨e, rfl⟩
  | ok record =>
    obtain ⟨old, hold, hfree, -, -⟩ := h.claimed id registry s record hs hanswer
    rw [hr, Option.some.injEq] at hold
    rw [← hold, hclaimed] at hfree
    cases hfree

/-- The registries that a store holds along its runs. -/
theorem chainHistory (h : SingleUse m holds) (hs : holds registry s)
    (hc : Chained registry.records.lookup) :
    ChainHistory m s fun ops => (registryAfter m ops registry s).records.lookup where
  chained ops := h.chained_after hs hc ops
  kept ops more := by
    rw [registryAfter_append]
    exact h.kept_after (h.holds_after hs ops) more
  saved ops value record hok := by
    obtain ⟨hsame, hlookup⟩ := h.follow_save (h.holds_after hs ops) hok
    rw [registryAfter_append]
    exact ⟨hsame, hlookup⟩
  repeated ops value old record hold hok := by
    rcases h.saved value _ _ record (h.holds_after hs ops) hok with ⟨hrecord, -, hsame⟩ | ⟨hsaves, -⟩
    · rw [hold, Option.some.injEq] at hrecord
      exact ⟨hrecord.symm, hsame⟩
    · have hfresh := hsaves.fresh
      rw [hold] at hfresh
      cases hfresh
  claimed ops id record hok := by
    obtain ⟨hstate, hbefore, hafter⟩ := h.follow_claim (h.holds_after hs ops) hok
    rw [registryAfter_append]
    exact ⟨hstate, hafter, hbefore⟩
  once ops mid id record hok := by
    obtain ⟨hstate, -, hafter⟩ := h.follow_claim (h.holds_after hs ops) hok
    have hheld := h.holds_after hs (ops ++ [⟨.claimContinuation id⟩])
    have hkept := h.kept_after hheld mid id record (by rw [registryAfter_append]; exact hafter)
    obtain ⟨r', hr', -, hclaimed, -⟩ := hkept
    rw [m.after_append]
    exact h.claim_fails (h.holds_after hheld mid) hr' (hclaimed hstate)

end SingleUse

end AgentBridge
