import AgentBridge.Records.Sqlite.Steps

/-! # The invariant that every call of the SQLite store keeps -/

namespace AgentBridge

open Reasoning

namespace SqliteStore

variable {Text : Type} {J : SerdeJson Text} {db : Db Text}

/-! ## Rows and changes after a mutation -/

@[simp] theorem lookup_afterInsert (snapshot : Snapshot) (n : Int) (name : String) :
    (afterInsert J db snapshot n).records.lookup name =
      if name = snapshot.record.id.asStr then some (newRow J snapshot)
      else db.records.lookup name :=
  HashMap.lookup_insert_eq _ _ _ _

@[simp] theorem change_afterInsert (snapshot : Snapshot) (n : Int) (name : String) :
    (afterInsert J db snapshot n).recordChanges.lookup name =
      if name = snapshot.record.id.asStr then
        some ⟨snapshot.record.sessionId.asStr, db.changeClock.position + 1⟩
      else db.recordChanges.lookup name :=
  HashMap.lookup_insert_eq _ _ _ _

@[simp] theorem clock_afterInsert (snapshot : Snapshot) (n : Int) :
    (afterInsert J db snapshot n).changeClock.position = db.changeClock.position + 1 := rfl

@[simp] theorem lookup_afterUpdate (row : RowData Text) (change : RecordChange)
    (old new : Snapshot) (name : String) :
    (afterUpdate J db row change old new).records.lookup name =
      if name = old.record.id.asStr then some (nextRow J row old new)
      else db.records.lookup name :=
  HashMap.lookup_insert_eq _ _ _ _

@[simp] theorem change_afterUpdate (row : RowData Text) (change : RecordChange)
    (old new : Snapshot) (name : String) :
    (afterUpdate J db row change old new).recordChanges.lookup name =
      if name = old.record.id.asStr then
        some { change with position := db.changeClock.position + 1 }
      else db.recordChanges.lookup name :=
  HashMap.lookup_insert_eq _ _ _ _

@[simp] theorem clock_afterUpdate (row : RowData Text) (change : RecordChange)
    (old new : Snapshot) :
    (afterUpdate J db row change old new).changeClock.position = db.changeClock.position + 1 := rfl

namespace Db.Sound

/-- A row stored with the next change position keeps the database sound. -/
theorem stored (hs : db.Sound) {db' : Db Text} {key : String} {row : RowData Text}
    (hrows : ∀ name, db'.records.lookup name =
      if name = key then some row else db.records.lookup name)
    (hchanges : ∀ name, db'.recordChanges.lookup name =
      if name = key then some ⟨row.session, db.changeClock.position + 1⟩
      else db.recordChanges.lookup name)
    (hclock : db'.changeClock.position = db.changeClock.position + 1)
    (hkey : row.id = key) (hrevision : 0 ≤ row.revision ∧ row.revision ≤ i64Max) : db'.Sound := by
  have hposition := hs.clock
  constructor
  case key =>
    intro name other hother
    rw [hrows] at hother
    split at hother
    · next heq =>
      obtain rfl := Option.some.inj hother
      rw [heq, hkey]
    · exact hs.key name other hother
  case revision =>
    intro name other hother
    rw [hrows] at hother
    split at hother
    · obtain rfl := Option.some.inj hother
      exact hrevision
    · exact hs.revision name other hother
  case change =>
    intro name other hother
    rw [hrows] at hother
    rw [hchanges]
    split at hother
    · next heq =>
      obtain rfl := Option.some.inj hother
      exact ⟨_, if_pos heq, rfl⟩
    · next hne =>
      rw [if_neg hne]
      exact hs.change name other hother
  case recorded =>
    intro name change hchange
    rw [hchanges] at hchange
    rw [hrows]
    split at hchange
    · next heq => rw [if_pos heq]; rfl
    · next hne =>
      rw [if_neg hne]
      exact hs.recorded name change hchange
  case position =>
    intro name change hchange
    rw [hchanges] at hchange
    rw [hclock]
    split at hchange
    · obtain rfl := Option.some.inj hchange
      simp only [Int.le_refl, and_true]
      omega
    · have := hs.position name change hchange
      omega
  case distinct =>
    intro name name' change change' hchange hchange' heq
    rw [hchanges] at hchange hchange'
    split at hchange
    · obtain rfl := Option.some.inj hchange
      split at hchange'
      · next h h' => rw [h, h']
      · -- a position given before is not the next one
        have := (hs.position name' change' hchange').2
        simp only at heq
        omega
    · split at hchange'
      · obtain rfl := Option.some.inj hchange'
        have := (hs.position name change hchange).2
        simp only at heq
        omega
      · exact hs.distinct name name' change change' hchange hchange' heq
  case clock => omega

theorem afterInsert (hs : db.Sound) (snapshot : Snapshot) (n : Int) :
    (afterInsert J db snapshot n).Sound :=
  hs.stored (lookup_afterInsert snapshot n) (change_afterInsert snapshot n) rfl rfl ⟨Int.le_refl 0, show (0 : Int) ≤ i64Max by decide⟩

theorem afterUpdate (hs : db.Sound) {record : RecordId} {e : Entry} {row : RowData Text}
    {change : RecordChange} (h : Updates J db record e row change) (payload : Payload)
    (next : RecordState) :
    (afterUpdate J db row change e.current (Rules.advance e.current payload next)).Sound := by
  obtain ⟨change', hchange', hsession⟩ := hs.change _ _ h.found
  rw [h.change, Option.some.injEq] at hchange'
  subst hchange'
  refine hs.stored (lookup_afterUpdate row change _ _) ?_ rfl ?_ ?_
  · intro name
    rw [change_afterUpdate]
    show (if _ then some (RecordChange.mk change.session _) else _) =
      if _ then some (RecordChange.mk row.session _) else _
    rw [hsession]
  · show row.id = e.current.record.id.asStr
    rw [h.decodes.id]
  · show 0 ≤ ((e.current.revision + 1 : Nat) : Int) ∧ ((e.current.revision + 1 : Nat) : Int) ≤ i64Max
    have := h.bound
    omega

theorem sameRecords {db' : Db Text} (hs : db.Sound) (h : db.SameRecords db') : db'.Sound where
  key := by rw [h.records]; exact hs.key
  revision := by rw [h.records]; exact hs.revision
  change := by rw [h.records, h.changes]; exact hs.change
  recorded := by rw [h.records, h.changes]; exact hs.recorded
  position := by rw [h.changes, h.clock]; exact hs.position
  distinct := by rw [h.changes]; exact hs.distinct
  clock := by rw [h.clock]; exact hs.clock

theorem afterResolve (hs : db.Sound) {request : RecordId} {r : Nat} {decision : Draft} {e : Entry}
    {row : RowData Text} {change : RecordChange} {next : Nat}
    (h : Answers J db request r decision e row change next) :
    (afterResolve J db e row change request decision next).Sound := by
  have hinserted := (hs.afterUpdate h.updates e.current.record.payload .complete).afterInsert
    (J := J) (Rules.created decision next) next
  exact { hinserted with }

theorem step (hs : db.Sound) {db' : Db Text} (h : db.HistoryStep J db') : db'.Sound := by
  cases h with
  | same h => exact hs.sameRecords h.toSameRecords
  | register hfresh hcontext => exact hs.sameRecords (afterRegister_sameRecords _)
  | insert h => exact hs.afterInsert _ _
  | advance h hadv => exact hs.afterUpdate h _ _
  | answer h => exact hs.afterResolve h

/-- Every database that calls can reach is sound. -/
theorem after (J : SerdeJson Text) (epoch : String) (ops : List StoreOp) :
    ((machine J).after ops (Db.empty Text epoch)).Sound :=
  (machine J).after_invariant (fun c _ hs => hs.step (call_step hs c)) ops (.empty epoch)

end Db.Sound

/-! ## The sequences of a session -/

/-- A sound database whose rows have the sequences that the check of their column and the unique
pair of session and sequence let them have. -/
structure Db.Ordered (db : Db Text) : Prop where
  sound : db.Sound
  sequence : ∀ name row, db.records.lookup name = some row →
    0 ≤ row.sequence ∧ row.sequence ≤ i64Max
  unique : ∀ name name' row row', db.records.lookup name = some row →
    db.records.lookup name' = some row' → row.session = row'.session →
      row.sequence = row'.sequence → name = name'

namespace Db.Ordered

theorem empty (epoch : String) : (Db.empty Text epoch).Ordered where
  sound := .empty epoch
  sequence _ _ h := by cases h
  unique _ _ _ _ h := by cases h

/-- A row stored under a sequence that no other row of its session has. -/
theorem stored (h : db.Ordered) {db' : Db Text} (hs : db'.Sound) {key : String}
    {row : RowData Text}
    (hrows : ∀ name, db'.records.lookup name =
      if name = key then some row else db.records.lookup name)
    (hsequence : 0 ≤ row.sequence ∧ row.sequence ≤ i64Max)
    (hunique : ∀ name other, name ≠ key → db.records.lookup name = some other →
      other.session = row.session → other.sequence ≠ row.sequence) : db'.Ordered where
  sound := hs
  sequence := by
    intro name other hother
    rw [hrows] at hother
    split at hother
    · obtain rfl := Option.some.inj hother
      exact hsequence
    · exact h.sequence name other hother
  unique := by
    intro name name' other other' hother hother' hsession heq
    rw [hrows] at hother hother'
    by_cases hname : name = key
    · rw [if_pos hname] at hother
      obtain rfl := Option.some.inj hother
      by_cases hname' : name' = key
      · rw [hname, hname']
      · rw [if_neg hname'] at hother'
        exact absurd heq.symm (hunique name' other' hname' hother' hsession.symm)
    · rw [if_neg hname] at hother
      by_cases hname' : name' = key
      · rw [if_pos hname'] at hother'
        obtain rfl := Option.some.inj hother'
        exact absurd heq (hunique name other hname hother hsession)
      · rw [if_neg hname'] at hother'
        exact h.unique name name' other other' hother hother' hsession heq

theorem afterInsert (h : db.Ordered) {draft : Draft} {next : Nat}
    (hinserts : db.InsertsRecord (newRow J (Rules.created draft next)))
    (hbound : (next : Int) < i64Max) :
    (afterInsert J db (Rules.created draft next) next).Ordered := by
  have hsequence : (newRow J (Rules.created draft next)).sequence = (next : Int) := by
    apply asI64_of_lt
    unfold i64Max at hbound
    show next < 2 ^ 63
    omega
  refine h.stored (h.sound.afterInsert _ _) (lookup_afterInsert _ _) ?_
    fun name other _ => hinserts.unique name other
  rw [hsequence]
  omega

/-- Another version of a record has its session and its sequence. -/
theorem afterUpdate (h : db.Ordered) {record : RecordId} {e : Entry} {row : RowData Text}
    {change : RecordChange} (hu : Updates J db record e row change) (payload : Payload)
    (next : RecordState) :
    (afterUpdate J db row change e.current (Rules.advance e.current payload next)).Ordered := by
  refine h.stored (h.sound.afterUpdate hu payload next) (lookup_afterUpdate row change _ _)
    (h.sequence _ row hu.found) fun name other hne hother hsession heq => hne ?_
  rw [hu.named]
  exact h.unique name record.asStr other row hother hu.found hsession heq

theorem sameRecords {db' : Db Text} (h : db.Ordered) (hsame : db.SameRecords db') :
    db'.Ordered where
  sound := h.sound.sameRecords hsame
  sequence := by rw [hsame.records]; exact h.sequence
  unique := by rw [hsame.records]; exact h.unique

theorem step (h : db.Ordered) {db' : Db Text} (hstep : db.HistoryStep J db') : db'.Ordered := by
  cases hstep with
  | same hquiet => exact h.sameRecords hquiet.toSameRecords
  | register => exact h.sameRecords (afterRegister_sameRecords _)
  | insert hi => exact h.afterInsert hi.inserts hi.bound
  | advance hu => exact h.afterUpdate hu _ _
  | answer ha =>
    have hinserted := (h.afterUpdate ha.updates _ .complete).afterInsert ha.inserts ha.bound
    exact ⟨{ hinserted.sound with }, hinserted.sequence, hinserted.unique⟩

end Db.Ordered

end SqliteStore

end AgentBridge
