import AgentBridge.Reasoning.Chain
import AgentBridge.Records.Pairing
import AgentBridge.Records.Sqlite.Readable

/-!
# Checkpoint is a compare-and-swap

The versions of a record form a chain, and `checkpoint` swaps on it.  The argument is made once,
for any store that keeps the rules of `VersionedStore`; the in-memory store keeps them in every
run, the SQLite store as long as what is committed can be stored.
-/

namespace AgentBridge

open Reasoning

def snapshotNumbering : Numbering Snapshot (Payload × RecordState) where
  revision s := s.revision
  content s := (s.record.payload, s.state)

/-! ## The rule -/

namespace Rules

theorem repeats_iff {current : Snapshot} (hbound : current.revision ≤ u64Max) {r : Nat}
    {payload : Payload} {next : RecordState} :
    snapshotNumbering.Repeats current r (payload, next) ↔ Retries current r payload next := by
  have hsucc : some current.revision = checkedSucc r ↔ current.revision = r + 1 := by
    rw [eq_comm, checkedSucc_eq_some]
    omega
  constructor
  · rintro ⟨hcontent, hrevision⟩
    have hpair : (current.record.payload, current.state) = (payload, next) := hcontent
    rw [Prod.mk.injEq] at hpair
    exact ⟨hpair.1, hpair.2, (or_congr_right hsucc).mpr hrevision⟩
  · intro h
    refine ⟨?_, (or_congr_right hsucc).mp h.revision⟩
    show (current.record.payload, current.state) = (payload, next)
    rw [h.payload_eq, h.state_eq]

theorem Advances.commits {current : Snapshot} {r : Nat} {payload : Payload} {next : RecordState}
    (h : Advances current r payload next) :
    snapshotNumbering.Commits current (advance current payload next) where
  revision := rfl
  changed heq := by
    have hpair : (payload, next) = (current.record.payload, current.state) := heq
    rw [Prod.mk.injEq] at hpair
    exact h.changed ⟨hpair.1.symm, hpair.2.symm⟩

theorem Resolves.commits {original : Snapshot} {r : Nat} {decision : Draft}
    (h : Resolves original r decision) :
    snapshotNumbering.Commits original (advance original original.record.payload .complete) where
  revision := rfl
  changed heq := by
    have hpair : (original.record.payload, RecordState.complete) =
        (original.record.payload, original.state) := heq
    rw [Prod.mk.injEq, h.opened] at hpair
    cases hpair.2

theorem Retries.swaps {current : Snapshot} (hbound : current.revision ≤ u64Max) {r : Nat}
    {payload : Payload} {next : RecordState} (h : Retries current r payload next) :
    snapshotNumbering.Swaps current r (payload, next) (some current) current :=
  .repeated ((repeats_iff hbound).mpr h)

theorem Advances.swaps {current : Snapshot} {r : Nat} {payload : Payload} {next : RecordState}
    (h : Advances current r payload next) :
    snapshotNumbering.Swaps current r (payload, next) (some (advance current payload next))
      (advance current payload next) :=
  .committed h.revision h.commits rfl

theorem swaps_failed {current : Snapshot} (hbound : current.revision ≤ u64Max) {r : Nat}
    {payload : Payload} {next : RecordState} (h : ¬ Retries current r payload next) :
    snapshotNumbering.Swaps current r (payload, next) none current :=
  .failed fun hrepeats => h ((repeats_iff hbound).mp hrepeats)

end Rules

/-! ## What a store has to keep -/

/-- The call expects this revision of the record. -/
def Expects {β : Type} (id : RecordId) (revision : Nat) : StoreCall β → Prop
  | .checkpoint record expected _ _ => record = id ∧ expected = revision
  | .resolve request expected _ => request = id ∧ expected = revision
  | _ => False

/-- The current version of a record, after one call: there was none and there is none or a first
one, or it stays, or the call commits the next one at the revision it expects. -/
def VersionStep {β : Type} (id : RecordId) (c : StoreCall β) : Option Snapshot → Option Snapshot → Prop
  | none, after => ∀ b, after = some b → b.revision = 0
  | some a, after => ∃ b, after = some b ∧
      (b = a ∨ snapshotNumbering.Commits a b ∧ Expects id a.revision c)

theorem VersionStep.same {β : Type} {id : RecordId} {c : StoreCall β} {before after : Option Snapshot}
    (h : after = before) : VersionStep id c before after := by
  subst h
  cases after with
  | none => intro b hb; cases hb
  | some a => exact ⟨a, rfl, .inl rfl⟩

/-- A new record, or the next version of one, is stored. -/
theorem VersionStep.stored {β : Type} {id key : RecordId} {c : StoreCall β}
    {before after : Option Snapshot} {new : Snapshot}
    (hafter : after = if id = key then some new else before)
    (hnew : id = key → VersionStep id c before (some new)) : VersionStep id c before after := by
  by_cases hid : id = key
  · rw [hafter, if_pos hid]
    exact hnew hid
  · exact .same (hafter.trans (if_neg hid))

/-- A record is created. -/
theorem VersionStep.created {β : Type} {id key : RecordId} {c : StoreCall β}
    {before after : Option Snapshot} {new : Snapshot}
    (hafter : after = if id = key then some new else before) (hfresh : id = key → before = none)
    (hnew : new.revision = 0) : VersionStep id c before after := by
  apply VersionStep.stored hafter
  intro hid
  rw [hfresh hid]
  intro b hb
  obtain rfl := Option.some.inj hb
  exact hnew

/-- A request is completed, and its response is created. -/
theorem VersionStep.resolved {β : Type} {id request response : RecordId} {c : StoreCall β}
    {before after : Option Snapshot} {done new : Snapshot}
    (hafter : after = if id = response then some new else if id = request then some done else before)
    (hfresh : id = response → before = none) (hnew : new.revision = 0)
    (hdone : id = request → VersionStep id c before (some done)) :
    VersionStep id c before after := by
  by_cases hid : id = response
  · exact .created (hafter.trans (by rw [if_pos hid, if_pos hid])) hfresh hnew
  · exact .stored (hafter.trans (if_neg hid)) hdone

/-- A checkpoint of a record that is there swaps; of one that is not it fails. -/
def CheckpointStep (r : Nat) (payload : Payload) (next : RecordState)
    (answer : Except Fault Snapshot) : Option Snapshot → Option Snapshot → Prop
  | none, after => (∃ e, answer = .error e) ∧ after = none
  | some a, after => ∃ b, after = some b ∧
      snapshotNumbering.Swaps a r (payload, next) answer.toOption b

/-- A store of versions, as long as its calls are `good`. -/
structure VersionedStore {σ : Type} (m : StoreMachine σ)
    (version : σ → RecordId → Option Snapshot) (inv : σ → Prop)
    (good : {β : Type} → StoreCall β → σ → Prop) : Prop where
  keeps : ∀ {β : Type} (c : StoreCall β) s, inv s → good c s → inv (m.exec c s).2
  step : ∀ {β : Type} (c : StoreCall β) s, inv s → good c s → ∀ id,
    VersionStep id c (version s id) (version (m.exec c s).2 id)
  checkpoint : ∀ id r payload next s, inv s → good (.checkpoint id r payload next) s →
    CheckpointStep r payload next (m.exec (.checkpoint id r payload next) s).1 (version s id)
      (version (m.exec (.checkpoint id r payload next) s).2 id)

/-- Every call of the run is good in the state it finds. -/
def GoodRun {σ : Type} (m : StoreMachine σ) (good : {β : Type} → StoreCall β → σ → Prop) :
    List StoreOp → σ → Prop
  | [], _ => True
  | op :: ops, s => good op.call s ∧ GoodRun m good ops (m.exec op.call s).2

section Runs

variable {σ : Type} {m : StoreMachine σ} {good : {β : Type} → StoreCall β → σ → Prop}

theorem GoodRun.append {ops more : List StoreOp} {s : σ} :
    GoodRun m good (ops ++ more) s ↔
      GoodRun m good ops s ∧ GoodRun m good more (m.after ops s) := by
  induction ops generalizing s with
  | nil => simp [GoodRun, Machine.after]
  | cons op ops ih => simp only [List.cons_append, GoodRun, ih, Machine.after, and_assoc]

end Runs

namespace VersionedStore

variable {σ : Type} {m : StoreMachine σ} {version : σ → RecordId → Option Snapshot}
  {inv : σ → Prop} {good : {β : Type} → StoreCall β → σ → Prop}

theorem inv_after (h : VersionedStore m version inv good) {ops : List StoreOp} {s : σ}
    (hs : inv s) (hgood : GoodRun m good ops s) : inv (m.after ops s) := by
  induction ops generalizing s with
  | nil => exact hs
  | cons op ops ih => exact ih (h.keeps op.call s hs hgood.1) hgood.2

/-- From any version on, a run moves along the chain. -/
theorem reaches (h : VersionedStore m version inv good) {ops : List StoreOp} {s : σ} (hs : inv s)
    (hgood : GoodRun m good ops s) {id : RecordId} {a : Snapshot} (ha : version s id = some a) :
    ∃ b, version (m.after ops s) id = some b ∧ snapshotNumbering.Reaches a b := by
  induction ops generalizing s a with
  | nil => exact ⟨a, ha, .refl⟩
  | cons op ops ih =>
    have hstep := h.step op.call s hs hgood.1 id
    rw [ha] at hstep
    obtain ⟨b, hb, hab⟩ := hstep
    obtain ⟨d, hd, hbd⟩ := ih (h.keeps op.call s hs hgood.1) hgood.2 hb
    refine ⟨d, hd, Relation.ReflTransGen.head ?_ hbd⟩
    rcases hab with heq | hcommit
    · exact .inl heq
    · exact .inr hcommit.1

end VersionedStore

namespace VersionedStore

variable {σ : Type} {m : StoreMachine σ} {version : σ → RecordId → Option Snapshot}
  {inv : σ → Prop} {good : {β : Type} → StoreCall β → σ → Prop}

end VersionedStore

/-! ## The in-memory store -/

namespace MemoryStore

/-- The current version of a record. -/
def State.version (state : State) (id : RecordId) : Option Snapshot :=
  (state.record id).map (·.current)

structure State.Bounded (state : State) : Prop where
  wellFormed : state.WellFormed
  revision : ∀ id e, state.record id = some e → e.current.revision ≤ u64Max

theorem State.Bounded.default : State.default.Bounded := ⟨.default, fun _ _ h => by cases h⟩

theorem State.Bounded.stored {state state' : State} (h : state.Bounded) (hwf : state'.WellFormed)
    {key : RecordId} {new : Entry}
    (hrecords : ∀ id, state'.record id = if id = key then some new else state.record id)
    (hnew : new.current.revision ≤ u64Max) : state'.Bounded := by
  refine ⟨hwf, fun id e he => ?_⟩
  rw [hrecords] at he
  split at he
  · obtain rfl := Option.some.inj he
    exact hnew
  · exact h.revision id e he

theorem version_of_fresh {state : State} {id : RecordId} (h : state.records.lookup id = none) :
    state.version id = none := by
  unfold State.version State.record
  rw [h]
  rfl

theorem version_of_found {state : State} {id : RecordId} {entry : Entry}
    (h : state.records.lookup id = some entry) : state.version id = some entry.current := by
  unfold State.version State.record
  rw [h]
  rfl

theorem version_committed (state : State) (snapshot : Snapshot) (ids : List RecordId)
    (id : RecordId) : (state.committed snapshot ids).version id =
      if id = snapshot.record.id then some snapshot else state.version id := by
  have h := state.lookup_committed snapshot ids id
  unfold State.version State.record
  rw [h]
  split <;> rfl

theorem version_withCurrent (state : State) (key : RecordId) (entry : Entry) (new : Snapshot)
    (id : RecordId) : (state.withCurrent key entry new).version id =
      if id = key then some new else state.version id := by
  have h := state.lookup_withCurrent key entry new id
  unfold State.version State.record
  rw [h]
  split <;> rfl

theorem version_of_sameHistory {state state' : State} (h : state.SameHistory state')
    (id : RecordId) : state'.version id = state.version id := by
  unfold State.version State.record
  rw [h.records]

theorem State.Bounded.exec {state : State} (h : state.Bounded) {β : Type} (c : StoreCall β) :
    (exec c state).2.Bounded := by
  have hwf := h.wellFormed.exec c
  have hstep := exec_step h.wellFormed c
  generalize (MemoryStore.exec c state).2 = state' at hwf hstep
  cases hstep with
  | same hsame => exact ⟨hwf, fun id e he => h.revision id e ((hsame.records id).symm.trans he)⟩
  | register hfresh hcontext => exact ⟨hwf, h.revision⟩
  | @insert draft ids hi =>
    exact h.stored hwf (state.lookup_committed (Rules.created draft ids.length) ids) (Nat.zero_le _)
  | @advance id entry r payload next hentry hadv =>
    exact h.stored hwf (state.lookup_withCurrent id entry _) hadv.bound
  | @answer request r decision entry ids ha =>
    have hupdated : (state.withCurrent request entry
        (Rules.advance entry.current entry.current.record.payload .complete)).record request =
        some ⟨entry.initial, Rules.advance entry.current entry.current.record.payload .complete⟩ :=
      (state.lookup_withCurrent request entry _ request).trans (if_pos rfl)
    refine ⟨hwf, fun id e he => ?_⟩
    have he' := (State.lookup_committed _ (Rules.created decision ids.length) ids id).symm.trans he
    split at he'
    · obtain rfl := Option.some.inj he'
      exact Nat.zero_le _
    · replace he' := (state.lookup_withCurrent request entry _ id).symm.trans he'
      split at he'
      · obtain rfl := Option.some.inj he'
        exact ha.resolves.bound
      · exact h.revision id e he'

theorem version_answered (state : State) (request : RecordId) (entry : Entry) (decision : Draft)
    (ids : List RecordId) (id : RecordId) :
    (state.answered request entry decision ids).version id =
      if id = decision.id then some (Rules.created decision ids.length)
      else if id = request then
        some (Rules.advance entry.current entry.current.record.payload .complete)
      else state.version id := by
  have hcommitted := version_committed
    { state.withCurrent request entry
        (Rules.advance entry.current entry.current.record.payload .complete) with
      decisions := state.decisions.insert request decision.id }
    (Rules.created decision ids.length) ids id
  have hupdated := version_withCurrent state request entry
    (Rules.advance entry.current entry.current.record.payload .complete) id
  rw [State.answered, hcommitted]
  show (if id = decision.id then _ else _) = if id = decision.id then _ else _
  split
  · rfl
  · exact hupdated

theorem version_step {state : State} (h : state.Bounded) {β : Type} (c : StoreCall β)
    (id : RecordId) : VersionStep id c (state.version id) ((exec c state).2.version id) := by
  cases hw : writesHistory c with
  | false => exact .same (version_of_sameHistory (exec_sameHistory state hw) id)
  | true =>
    cases c with
    | registerRun spec =>
      show VersionStep id _ _ ((registerRun spec state).2.version id)
      rcases registerRun_cases spec state with ⟨e, he⟩ | ⟨-, he⟩ | ⟨-, -, -, -, he⟩ <;>
        rw [he] <;> exact .same rfl
    | insert draft =>
      show VersionStep id _ _ ((insert draft state).2.version id)
      rcases insert_cases draft state with ⟨e, he⟩ | ⟨entry, -, -, he⟩ | ⟨ids, hi, he⟩
      · rw [he]
        exact .same rfl
      · rw [he]
        exact .same rfl
      · rw [he]
        refine .created (version_committed state (Rules.created draft ids.length) ids id) ?_ rfl
        intro hid
        exact version_of_fresh (by rw [show id = draft.id from hid, hi.fresh])
    | checkpoint key r payload next =>
      show VersionStep id _ _ ((checkpoint key r payload next state).2.version id)
      rcases checkpoint_cases key r payload next state with ⟨e, he⟩ | ⟨entry, new, hentry, hrule, he⟩
      · rw [he]
        exact .same rfl
      · rw [he]
        refine .stored (version_withCurrent state key entry new id) ?_
        intro hid
        rw [version_of_found (by rw [hid, hentry])]
        refine ⟨new, rfl, ?_⟩
        rcases Rules.checkpoint_cases hrule with ⟨-, hnew⟩ | ⟨hadv, hnew⟩
        · exact .inl hnew
        · rw [hnew]
          exact .inr ⟨hadv.commits, hid.symm, hadv.revision.symm⟩
    | resolve request r decision =>
      show VersionStep id _ _ ((resolve request r decision state).2.version id)
      rcases resolve_cases (fun q a hd => (h.wellFormed.decisions q a hd).2) request r decision with
        ⟨e, he⟩ | ⟨response, entry, -, -, he⟩ | ⟨entry, ids, ha, he⟩
      · rw [he]
        exact .same rfl
      · rw [he]
        exact .same rfl
      · rw [he]
        refine .resolved (version_answered state request entry decision ids id) ?_ rfl ?_
        · intro hid
          exact version_of_fresh (by rw [hid, ha.fresh])
        · intro hid
          rw [version_of_found (by rw [hid, ha.found])]
          exact ⟨_, rfl, .inr ⟨ha.resolves.commits, hid.symm, ha.resolves.revision.symm⟩⟩
    | _ => cases hw

theorem checkpoint_step {state : State} (h : state.Bounded) (id : RecordId) (r : Nat)
    (payload : Payload) (next : RecordState) :
    CheckpointStep r payload next (checkpoint id r payload next state).1 (state.version id)
      ((checkpoint id r payload next state).2.version id) := by
  cases hentry : state.records.lookup id with
  | none =>
    rw [version_of_fresh hentry]
    exact ⟨⟨.error .missingRecord, by simp [checkpoint, hentry]⟩, by
      simp [checkpoint, hentry, version_of_fresh hentry]⟩
  | some entry =>
  have hbound := h.revision id entry hentry
  rw [version_of_found hentry]
  cases hrule : Rules.checkpoint entry.current r payload next with
  | error e =>
    have hcall : checkpoint id r payload next state = (.error (.error e), state) := by
      simp [checkpoint, hentry, hrule]
    rw [hcall]
    refine ⟨entry.current, version_of_found hentry, Rules.swaps_failed hbound ?_⟩
    intro hretries
    rw [Rules.checkpoint_retry hretries] at hrule
    cases hrule
  | ok new =>
    have hcall : checkpoint id r payload next state =
        (.ok new, state.withCurrent id entry new) := by
      simp [checkpoint, hentry, hrule, State.withCurrent]
    rw [hcall]
    refine ⟨new, (version_withCurrent state id entry new id).trans (if_pos rfl), ?_⟩
    rcases Rules.checkpoint_cases hrule with ⟨hretries, rfl⟩ | ⟨hadv, rfl⟩
    · exact hretries.swaps hbound
    · exact hadv.swaps

theorem versionedStore : VersionedStore machine State.version State.Bounded fun _ _ => True where
  keeps c _ h _ := h.exec c
  step c _ h _ := version_step h c
  checkpoint id r payload next _ h _ := checkpoint_step h id r payload next

end MemoryStore

/-! ## The SQLite store -/

namespace SqliteStore

variable {Text : Type} {J : SerdeJson Text} {db db' : Db Text}

/-- The current version of a record. -/
def Db.version (J : SerdeJson Text) (db : Db Text) (id : RecordId) : Option Snapshot :=
  (db.read J id).map (·.current)

theorem version_of_fresh {record : RecordId} (h : db.records.lookup record.asStr = none) :
    db.version J record = none := by
  unfold Db.version
  rw [Db.read_of_fresh h]
  rfl

theorem version_of_read {record : RecordId} {e : Entry} (h : db.read J record = some e) :
    db.version J record = some e.current := by
  unfold Db.version
  rw [h]
  rfl

theorem version_congr {record : RecordId}
    (h : db'.records.lookup record.asStr = db.records.lookup record.asStr) :
    db'.version J record = db.version J record := by
  unfold Db.version
  rw [Db.read_congr (entry_congr h)]

theorem version_eq_some {record : RecordId} {s : Snapshot} :
    db.version J record = some s ↔ get J record db = .ok s := by
  unfold Db.version Db.read get
  rcases entry J db record with _ | _ | _ <;> simp [Except.toOption]

/-- A row stored under a record's id, when it reads. -/
theorem version_stored {key : RecordId} {row : RowData Text} {e : Entry}
    (hrows : ∀ name, db'.records.lookup name =
      if name = key.asStr then some row else db.records.lookup name)
    (hdecodes : DecodesTo J row e) (id : RecordId) :
    db'.version J id = if id = key then some e.current else db.version J id := by
  by_cases hid : id = key
  · rw [if_pos hid]
    apply version_of_read
    apply Db.read_eq_some.mpr
    exact entry_eq_some.mpr ⟨row, by rw [hrows, if_pos (by rw [hid])], hdecodes⟩
  · rw [if_neg hid]
    exact version_congr ((hrows _).trans (if_neg fun heq => hid (Identifier.asStr_inj.mp heq)))

/-- A database whose records all read. -/
structure Db.Intact (J : SerdeJson Text) (db : Db Text) : Prop where
  sound : db.Sound
  readable : db.Readable J

theorem Db.Intact.revision (h : db.Intact J) {record : RecordId} {e : Entry}
    (hentry : entry J db record = .ok (some e)) : e.current.revision ≤ u64Max := by
  obtain ⟨row, -, -, -, hle⟩ := h.sound.entry_row hentry
  have hi64 : i64Max = 2 ^ 63 - 1 := rfl
  have hu64 : u64Max = 2 ^ 64 - 1 := rfl
  omega

section Lawful

variable (hJ : J.Lawful)

include hJ

theorem version_afterInsert {draft : Draft} {n : Nat} (hp : Prepares J db draft n)
    (hn : (n : Int) < i64Max) (hstores : draft.payload.Stores) (id : RecordId) :
    (afterInsert J db (Rules.created draft n) n).version J id =
      if id = draft.id then some (Rules.created draft n) else db.version J id :=
  version_stored (lookup_afterInsert (Rules.created draft n) n)
    (decodesTo_newRow hn hp.valid ((Codec.readsBack_payload_iff hJ draft.payload).mpr hstores)
      fun source _ => Codec.readsBack_sourceRef hJ source) id

theorem version_afterUpdate {record : RecordId} {e : Entry} {row : RowData Text}
    {change : RecordChange} (hu : Updates J db record e row change) {payload : Payload}
    {next : RecordState} (hvalid : Rules.validate payload next = .ok ()) (hstores : payload.Stores)
    (hinitial : e.current.revision = 0 → e.current.record.payload.StoresInitially)
    (id : RecordId) :
    (afterUpdate J db row change e.current (Rules.advance e.current payload next)).version J id =
      if id = record then some (Rules.advance e.current payload next) else db.version J id := by
  have hrows := @lookup_afterUpdate _ J db row change e.current
    (Rules.advance e.current payload next)
  rw [hu.named] at hrows
  exact version_stored hrows (hu.decodes_next hJ hvalid hstores hinitial) id

theorem version_afterResolve {request : RecordId} {r : Nat} {decision : Draft} {e : Entry}
    {row : RowData Text} {change : RecordChange} {next : Nat}
    (h : Answers J db request r decision e row change next) (id : RecordId) :
    (afterResolve J db e row change request decision next).version J id =
      if id = decision.id then some (Rules.created decision next)
      else if id = request then
        some (Rules.advance e.current e.current.record.payload .complete)
      else db.version J id := by
  unfold Db.version
  rw [h.read_after hJ]
  split
  · rfl
  · split <;> rfl

theorem Db.Intact.call (h : db.Intact J) {β : Type} {c : StoreCall β} (hc : db.Storable J c) :
    (call J c db).2.Intact J :=
  ⟨h.sound.step (call_step h.sound c), h.readable.call hJ h.sound hc⟩

theorem version_step (h : db.Intact J) {β : Type} {c : StoreCall β} (hc : db.Storable J c)
    (id : RecordId) : VersionStep id c (db.version J id) ((call J c db).2.version J id) := by
  cases hw : writesHistory c with
  | false => exact .same (version_congr (by rw [(call_quiet c hw).records]))
  | true =>
    cases c with
    | registerRun spec =>
      show VersionStep id _ _ ((write (registerRun J spec) db).2.version J id)
      rcases registerRun_cases J spec db with ⟨e, he⟩ | ⟨-, he⟩ | ⟨-, -, -, -, he⟩ <;>
        rw [he] <;> exact .same (version_congr rfl)
    | insert draft =>
      show VersionStep id _ _ ((write (SqliteStore.insert J draft) db).2.version J id)
      rcases insert_cases J draft db with ⟨e, he⟩ | ⟨e, -, -, he⟩ | ⟨next, hi, he⟩
      · rw [he]
        exact .same rfl
      · rw [he]
        exact .same rfl
      · rw [he]
        refine .created (version_afterInsert hJ hi.prepares hi.bound (hc next hi) id) ?_ rfl
        intro hid
        rw [hid]
        exact version_of_fresh hi.inserts.fresh
    | checkpoint record r payload next =>
      show VersionStep id _ _ ((write (checkpoint J record r payload next) db).2.version J id)
      rcases checkpoint_cases h.sound record r payload next with
        ⟨e, he⟩ | ⟨e, -, -, he⟩ | ⟨e, row, change, hu, hadv, he⟩
      · rw [he]
        exact .same rfl
      · rw [he]
        exact .same rfl
      · rw [he]
        obtain ⟨hstores, hinitial⟩ := hc e row change hu hadv
        refine .stored (version_afterUpdate hJ hu hadv.valid hstores hinitial id) ?_
        intro hid
        rw [hid, version_of_read hu.read_eq]
        exact ⟨_, rfl, .inr ⟨hadv.commits, rfl, hadv.revision.symm⟩⟩
    | resolve request r decision =>
      show VersionStep id _ _ ((write (resolve J request r decision) db).2.version J id)
      rcases resolve_cases h.sound request r decision with
        ⟨e, he⟩ | ⟨response, e, -, -, he⟩ | ⟨e, row, change, next, ha, he⟩
      · rw [he]
        exact .same rfl
      · rw [he]
        exact .same rfl
      · rw [he]
        refine .resolved (version_afterResolve hJ ha id) ?_ rfl ?_
        · intro hid
          rw [hid]
          exact version_of_fresh ha.fresh
        · intro hid
          rw [hid, version_of_read ha.updates.read_eq]
          exact ⟨_, rfl, .inr ⟨ha.resolves.commits, rfl, ha.resolves.revision.symm⟩⟩
    | _ => cases hw

omit hJ in
/-- A checkpoint that repeats the current version is answered, whatever the counters are. -/
theorem checkpoint_repeats {record : RecordId} {e : Entry} {r : Nat} {payload : Payload}
    {next : RecordState} (hentry : entry J db record = .ok (some e))
    (h : Rules.Retries e.current r payload next) :
    write (checkpoint J record r payload next) db = (.ok e.current, db) := by
  apply write_ok
  simp only [checkpoint, hentry, ok_bind, Rules.checkpoint_retry h, updateRow, ↓reduceIte]

theorem checkpoint_step (h : db.Intact J) (record : RecordId) (r : Nat) (payload : Payload)
    (next : RecordState) (hc : db.Storable J (.checkpoint record r payload next)) :
    CheckpointStep r payload next (orFault (write (checkpoint J record r payload next) db).1)
      (db.version J record) ((write (checkpoint J record r payload next) db).2.version J record) := by
  obtain ⟨found, hentry⟩ := h.readable.entry_ok record
  cases found with
  | none =>
    have hcall : write (checkpoint J record r payload next) db = (.error .missingRecord, db) := by
      apply write_error
      simp only [checkpoint, hentry, ok_bind]
    rw [hcall, version_of_fresh (entry_eq_none.mp hentry)]
    exact ⟨⟨_, rfl⟩, rfl⟩
  | some e =>
  have hbound := h.revision hentry
  have hversion : db.version J record = some e.current :=
    version_of_read (Db.read_eq_some.mpr hentry)
  rw [hversion]
  rcases checkpoint_cases h.sound record r payload next with
    ⟨error, he⟩ | ⟨e', hentry', hretries, he⟩ | ⟨e', row, change, hu, hadv, he⟩
  · rw [he]
    refine ⟨e.current, hversion, Rules.swaps_failed hbound fun hretries => ?_⟩
    rw [checkpoint_repeats hentry hretries, Prod.mk.injEq] at he
    cases he.1
  · rw [he]
    rw [hentry, Except.ok.injEq, Option.some.injEq] at hentry'
    subst hentry'
    exact ⟨e.current, hversion, hretries.swaps hbound⟩
  · rw [he]
    have hentry' := hu.read_eq
    rw [Db.read_eq_some, hentry, Except.ok.injEq, Option.some.injEq] at hentry'
    subst hentry'
    obtain ⟨hstores, hinitial⟩ := hc e row change hu hadv
    exact ⟨_, (version_afterUpdate hJ hu hadv.valid hstores hinitial record).trans (if_pos rfl),
      hadv.swaps⟩

theorem versionedStore : VersionedStore (machine J) (Db.version J) (Db.Intact J)
    fun c db => db.Storable J c where
  keeps _ _ h hc := h.call hJ hc
  step _ _ h hc := version_step hJ h hc
  checkpoint record r payload next _ h hc := checkpoint_step hJ h record r payload next hc

omit hJ in
theorem Db.Intact.empty (epoch : String) : (Db.empty Text epoch).Intact J :=
  ⟨.empty epoch, .empty epoch⟩

end Lawful

end SqliteStore

/-! ## Both stores -/

namespace Sample

def listing : RecordId := ⟨"listing", by decide⟩

/-- A tool activity with this input. -/
def activity (input : Option JsonValue) : Payload :=
  .tool ⟨"list files", .running, input, none, .empty⟩

def null : JsonValue := ⟨.null, (rfl : true = true)⟩

def path : JsonValue := ⟨.str "src", rfl⟩

def listingDraft : Draft where
  id := listing
  sessionId := session
  runId := none
  actor := ⟨"actor", (rfl : false = false)⟩
  replyToId := none
  source := none
  payload := activity none
  state := .opened

def listingOps : List StoreOp := [⟨.createSession session⟩, ⟨.insert listingDraft⟩]

/-- The activity gets its input. -/
def inputOps : List StoreOp := listingOps ++ [⟨.checkpoint listing 0 (activity (some path)) .opened⟩]

theorem inputOps_storable : GoodRun (SqliteStore.machine SerdeJson.tree)
    (fun c db => db.Storable SerdeJson.tree c) inputOps (SqliteStore.Db.empty Json "epoch") := by
  refine ⟨trivial, fun _ _ => by decide, ?_, trivial⟩
  intro e row change hu hadv
  have he : some e = some ⟨Rules.created listingDraft 0, Rules.created listingDraft 0⟩ :=
    hu.read_eq.symm.trans rfl
  obtain rfl := Option.some.inj he
  exact ⟨by decide, fun _ => by decide⟩

end Sample

end AgentBridge
