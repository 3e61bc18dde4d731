import AgentBridge.Records.Payload
import AgentBridge.Reasoning.HashMap

/-! # Single-use continuations and the in-memory registry -/

namespace AgentBridge

open Reasoning

/-- An immutable handoff descriptor: a native context locator. -/
structure Continuation where
  id : ContinuationId
  sessionId : SessionId
  slotId : SlotId
  adapter : String
  scope : String
  nativeKey : String
  predecessor : Option ContinuationId
  data : JsonValue
deriving DecidableEq

inductive ContinuationState where
  | available
  | claimed
deriving DecidableEq

structure ContinuationRecord where
  continuation : Continuation
  state : ContinuationState
  latest : Bool
deriving DecidableEq

namespace Continuation

def validate (value : Continuation) : Except StoreError Unit :=
  if isBlank value.adapter || isBlank value.scope || isBlank value.nativeKey ||
      value.predecessor == some value.id then
    .error .invalidContinuation
  else .ok ()

def validateSuccessor (value : Continuation) (latest : Option ContinuationRecord) :
    Except StoreError Unit :=
  match latest, value.predecessor with
  | none, none => .ok ()
  | some previous, some id =>
      if previous.latest && previous.state == .claimed && previous.continuation.id == id &&
          previous.continuation.sessionId == value.sessionId &&
          previous.continuation.slotId == value.slotId then
        .ok ()
      else .error .continuationConflict
  | _, _ => .error .continuationConflict

/-- The native session a continuation locates. -/
def key (value : Continuation) : String × String × String :=
  (value.adapter, value.scope, value.nativeKey)

/-- A checked successor follows the latest continuation of its native session, claimed before. -/
structure Succeeds (value : Continuation) (previous : ContinuationRecord) : Prop where
  latest : previous.latest = true
  claimed : previous.state = .claimed
  predecessor : value.predecessor = some previous.continuation.id
  session : previous.continuation.sessionId = value.sessionId
  slot : previous.continuation.slotId = value.slotId

theorem validateSuccessor_none {value : Continuation} :
    validateSuccessor value none = .ok () ↔ value.predecessor = none := by
  unfold validateSuccessor
  cases value.predecessor <;> simp

theorem validateSuccessor_some {value : Continuation} {previous : ContinuationRecord} :
    validateSuccessor value (some previous) = .ok () ↔ Succeeds value previous := by
  unfold validateSuccessor
  cases hp : value.predecessor with
  | none => simp only [reduceCtorEq, false_iff]; exact fun h => by simpa [hp] using h.predecessor
  | some id =>
    simp only
    constructor
    · intro h
      split at h
      · next hc =>
        simp only [Bool.and_eq_true, beq_iff_eq] at hc
        obtain ⟨⟨⟨⟨hl, hs⟩, hid⟩, hsess⟩, hslot⟩ := hc
        exact ⟨hl, hs, by rw [hp, hid], hsess, hslot⟩
      · cases h
    · intro h
      have hid : previous.continuation.id = id := by
        have := h.predecessor
        rw [hp] at this
        simpa using this.symm
      rw [if_pos]
      simp [h.latest, h.claimed, hid, h.session, h.slot]

end Continuation

structure Registry where
  records : HashMap ContinuationId ContinuationRecord
  latest : HashMap (String × String × String) ContinuationId

namespace Registry

def empty : Registry := ⟨∅, ∅⟩

def save (registry : Registry) (value : Continuation) :
    Except StoreError ContinuationRecord × Registry :=
  match value.validate with
  | .error e => (.error e, registry)
  | .ok () =>
  match registry.records.lookup value.id with
  | some existing =>
      if existing.continuation = value then (.ok existing, registry)
      else (.error .identityConflict, registry)
  | none =>
  let previous := (registry.latest.lookup value.key).bind fun id => registry.records.lookup id
  match value.validateSuccessor previous with
  | .error e => (.error e, registry)
  | .ok () =>
      let records := match previous with
        | some previous =>
            registry.records.insert previous.continuation.id { previous with latest := false }
        | none => registry.records
      let record : ContinuationRecord := ⟨value, .available, true⟩
      (.ok record,
        { records := records.insert value.id record
          latest := registry.latest.insert value.key value.id })

def get (registry : Registry) (id : ContinuationId) : Except StoreError ContinuationRecord :=
  match registry.records.lookup id with
  | some record => .ok record
  | none => .error .missingContinuation

def claim (registry : Registry) (id : ContinuationId) :
    Except StoreError ContinuationRecord × Registry :=
  match registry.get id with
  | .error e => (.error e, registry)
  | .ok record =>
      if record.state ≠ .available ∨ record.latest = false then
        (.error .continuationClaimed, registry)
      else
        let record := { record with state := .claimed }
        (.ok record, { registry with records := registry.records.insert id record })

/-! ## What the calls do, and the invariant they keep -/

/-- A registry's index of latest continuations is that of its records, and whatever has a successor
is not the latest. -/
structure WellFormed (registry : Registry) : Prop where
  valid : ∀ id record, registry.records.lookup id = some record →
    record.continuation.id = id ∧ record.continuation.validate = .ok ()
  latest : ∀ key id, registry.latest.lookup key = some id ↔
    ∃ record, registry.records.lookup id = some record ∧ record.continuation.key = key ∧
      record.latest = true
  succeeded : ∀ id record predecessor, registry.records.lookup id = some record →
    record.continuation.predecessor = some predecessor →
    ∃ previous, registry.records.lookup predecessor = some previous ∧ previous.latest = false

theorem wellFormed_empty : empty.WellFormed := by
  refine ⟨?_, ?_, ?_⟩ <;> simp [empty]

/-- The latest continuation of a native session. -/
def previous (registry : Registry) (value : Continuation) : Option ContinuationRecord :=
  (registry.latest.lookup value.key).bind fun id => registry.records.lookup id

/-- The registry after `save` adds a continuation. -/
def saved (registry : Registry) (value : Continuation) : Registry where
  records := (match registry.previous value with
    | some previous =>
        registry.records.insert previous.continuation.id { previous with latest := false }
    | none => registry.records).insert value.id ⟨value, .available, true⟩
  latest := registry.latest.insert value.key value.id

/-- What `save` checks before it adds a continuation. -/
structure Saves (registry : Registry) (value : Continuation) : Prop where
  valid : value.validate = .ok ()
  fresh : registry.records.lookup value.id = none
  successor : value.validateSuccessor (registry.previous value) = .ok ()

theorem save_cases (registry : Registry) (value : Continuation) :
    (∃ e, registry.save value = (.error e, registry)) ∨
      (∃ record, registry.records.lookup value.id = some record ∧ record.continuation = value ∧
        registry.save value = (.ok record, registry)) ∨
      registry.Saves value ∧
        registry.save value = (.ok ⟨value, .available, true⟩, registry.saved value) := by
  cases hvalid : value.validate with
  | error e => exact .inl ⟨e, by simp [save, hvalid]⟩
  | ok u =>
  cases hfresh : registry.records.lookup value.id with
  | some record =>
    by_cases hsame : record.continuation = value
    · exact .inr (.inl ⟨record, rfl, hsame, by simp [save, hvalid, hfresh, hsame]⟩)
    · exact .inl ⟨.identityConflict, by simp [save, hvalid, hfresh, hsame]⟩
  | none =>
  cases hsucc : value.validateSuccessor (registry.previous value) with
  | error e =>
    refine .inl ⟨e, ?_⟩
    simp only [save, hvalid, hfresh]
    rw [previous] at hsucc
    simp only [hsucc]
  | ok u =>
    refine .inr (.inr ⟨⟨hvalid, hfresh, hsucc⟩, ?_⟩)
    simp only [save, hvalid, hfresh]
    rw [previous] at hsucc
    simp only [hsucc]
    rfl

theorem previous_eq_some {registry : Registry} (h : registry.WellFormed) {value : Continuation}
    {record : ContinuationRecord} :
    registry.previous value = some record ↔
      registry.records.lookup record.continuation.id = some record ∧
        record.continuation.key = value.key ∧ record.latest = true := by
  unfold previous
  rw [Option.bind_eq_some_iff]
  constructor
  · rintro ⟨id, hlatest, hrecord⟩
    obtain ⟨record', hrecord', hkey, hl⟩ := (h.latest _ _).mp hlatest
    obtain rfl : record' = record := by simpa [hrecord'] using hrecord
    rw [(h.valid id record' hrecord').1]
    exact ⟨hrecord', hkey, hl⟩
  · rintro ⟨hrecord, hkey, hl⟩
    exact ⟨_, (h.latest _ _).mpr ⟨record, hrecord, hkey, hl⟩, hrecord⟩

/-- A record of the registry after `save`, for a key other than the new one. -/
theorem lookup_saved {registry : Registry} {value : Continuation} {id : ContinuationId}
    (hid : id ≠ value.id) :
    (registry.saved value).records.lookup id =
      match registry.previous value with
      | some previous =>
          if id = previous.continuation.id then some { previous with latest := false }
          else registry.records.lookup id
      | none => registry.records.lookup id := by
  unfold saved
  simp only [HashMap.lookup_insert_eq, hid, ↓reduceIte]
  cases registry.previous value with
  | none => rfl
  | some previous => simp only [HashMap.lookup_insert_eq]

theorem lookup_saved_self (registry : Registry) (value : Continuation) :
    (registry.saved value).records.lookup value.id = some ⟨value, .available, true⟩ := by
  simp only [saved, HashMap.lookup_insert_eq, ↓reduceIte]

/-- What a record was before a save: itself, or the previous one while it was the latest. -/
theorem of_lookup_saved {registry : Registry} (h : registry.WellFormed) {value : Continuation}
    {id : ContinuationId} {record : ContinuationRecord} (hid : id ≠ value.id)
    (hrecord : (registry.saved value).records.lookup id = some record) :
    ∃ old, registry.records.lookup id = some old ∧ record.continuation = old.continuation ∧
      (record.latest = true → old.latest = true ∧ old.continuation.key ≠ value.key) := by
  rw [lookup_saved hid] at hrecord
  cases hprev : registry.previous value with
  | none =>
    simp only [hprev] at hrecord
    refine ⟨record, hrecord, rfl, fun hl => ⟨hl, fun hkey => ?_⟩⟩
    have hprev' : registry.previous value = some record := by
      rw [previous_eq_some h, (h.valid id record hrecord).1]
      exact ⟨hrecord, hkey, hl⟩
    rw [hprev] at hprev'
    cases hprev'
  | some previous =>
    simp only [hprev] at hrecord
    obtain ⟨hp, hkey, hl⟩ := (previous_eq_some h).mp hprev
    split at hrecord
    · next heq =>
      obtain rfl := Option.some.inj hrecord
      exact ⟨previous, heq ▸ hp, rfl, fun h => by cases h⟩
    · next hne =>
      refine ⟨record, hrecord, rfl, fun hl' => ⟨hl', fun hkey' => hne ?_⟩⟩
      have hprev' : registry.previous value = some record := by
        rw [previous_eq_some h, (h.valid id record hrecord).1]
        exact ⟨hrecord, hkey', hl'⟩
      rw [hprev, Option.some.injEq] at hprev'
      rw [hprev', (h.valid id record hrecord).1]

theorem WellFormed.saved {registry : Registry} (h : registry.WellFormed) {value : Continuation}
    (hs : registry.Saves value) : (registry.saved value).WellFormed where
  valid id record hrecord := by
    by_cases hid : id = value.id
    · subst hid
      obtain rfl : record = ⟨value, .available, true⟩ := by
        simpa [lookup_saved_self, eq_comm] using hrecord
      exact ⟨rfl, hs.valid⟩
    · obtain ⟨old, hold, heq, -⟩ := of_lookup_saved h hid hrecord
      rw [heq]
      exact h.valid id old hold
  latest key id := by
    have hlatest : (registry.saved value).latest.lookup key =
        if key = value.key then some value.id else registry.latest.lookup key :=
      HashMap.lookup_insert_eq _ _ _ _
    rw [hlatest]
    constructor
    · intro hkey
      split at hkey
      · next heq =>
        obtain rfl := Option.some.inj hkey
        exact ⟨_, lookup_saved_self registry value, heq.symm, rfl⟩
      · next hne =>
        obtain ⟨record, hrecord, hk, hl⟩ := (h.latest key id).mp hkey
        have hid : id ≠ value.id := by
          rintro rfl
          rw [hs.fresh] at hrecord
          cases hrecord
        refine ⟨record, ?_, hk, hl⟩
        rw [lookup_saved hid]
        cases hprev : registry.previous value with
        | none => exact hrecord
        | some previous =>
          obtain ⟨hp, hpk, -⟩ := (previous_eq_some h).mp hprev
          have hother : id ≠ previous.continuation.id := by
            rintro rfl
            rw [hp, Option.some.injEq] at hrecord
            rw [← hrecord] at hk
            exact hne (hk.symm.trans hpk)
          simp only [hother, ↓reduceIte, hrecord]
    · rintro ⟨record, hrecord, hk, hl⟩
      by_cases hid : id = value.id
      · subst hid
        obtain rfl : record = ⟨value, .available, true⟩ := by
          simpa [lookup_saved_self, eq_comm] using hrecord
        rw [if_pos hk.symm]
      · obtain ⟨old, hold, heq, hlate⟩ := of_lookup_saved h hid hrecord
        obtain ⟨hol, hokey⟩ := hlate hl
        rw [heq] at hk
        rw [if_neg (fun hkey => hokey (hk.trans hkey))]
        exact (h.latest key id).mpr ⟨old, hold, hk, hol⟩
  succeeded id record predecessor hrecord hpred := by
    -- a record that is not the latest stays so
    have hkeep : ∀ p previous, registry.records.lookup p = some previous →
        previous.latest = false →
        ∃ previous, (registry.saved value).records.lookup p = some previous ∧
          previous.latest = false := by
      intro p old hold hl
      have hp : p ≠ value.id := by
        rintro rfl
        rw [hs.fresh] at hold
        cases hold
      rw [lookup_saved hp]
      cases registry.previous value with
      | none => exact ⟨old, hold, hl⟩
      | some previous =>
        by_cases heq : p = previous.continuation.id
        · exact ⟨_, if_pos heq, rfl⟩
        · exact ⟨old, by simp only [heq, ↓reduceIte, hold], hl⟩
    by_cases hid : id = value.id
    · subst hid
      obtain rfl : record = ⟨value, .available, true⟩ := by
        simpa [lookup_saved_self, eq_comm] using hrecord
      cases hprev : registry.previous value with
      | none =>
        have hnone := hs.successor
        rw [hprev, Continuation.validateSuccessor_none] at hnone
        rw [hnone] at hpred
        cases hpred
      | some previous =>
        have hsucc := hs.successor
        rw [hprev, Continuation.validateSuccessor_some] at hsucc
        obtain ⟨hp, -, -⟩ := (previous_eq_some h).mp hprev
        obtain rfl : previous.continuation.id = predecessor := by
          rw [hsucc.predecessor] at hpred
          simpa using hpred
        have hne : previous.continuation.id ≠ value.id := by
          intro heq
          rw [heq, hs.fresh] at hp
          cases hp
        refine ⟨{ previous with latest := false }, ?_, rfl⟩
        rw [lookup_saved hne]
        simp only [hprev, ↓reduceIte]
    · obtain ⟨old, hold, heq, -⟩ := of_lookup_saved h hid hrecord
      rw [heq] at hpred
      obtain ⟨previous, hprevious, hl⟩ := h.succeeded id old predecessor hold hpred
      exact hkeep predecessor previous hprevious hl

/-- The registry after `claim` takes a continuation. -/
def claimed (registry : Registry) (id : ContinuationId) (record : ContinuationRecord) : Registry :=
  { registry with records := registry.records.insert id { record with state := .claimed } }

theorem claim_cases (registry : Registry) (id : ContinuationId) :
    (∃ e, registry.claim id = (.error e, registry)) ∨
      ∃ record, registry.records.lookup id = some record ∧ record.state = .available ∧
        record.latest = true ∧
        registry.claim id = (.ok { record with state := .claimed }, registry.claimed id record) := by
  cases hrecord : registry.records.lookup id with
  | none => exact .inl ⟨.missingContinuation, by simp [claim, get, hrecord]⟩
  | some record =>
    by_cases h : record.state ≠ .available ∨ record.latest = false
    · exact .inl ⟨.continuationClaimed, by simp [claim, get, hrecord, h]⟩
    · have h' := h
      simp only [not_or, ne_eq, not_not, Bool.not_eq_false] at h'
      exact .inr ⟨record, rfl, h'.1, h'.2, by
        simp only [claim, get, hrecord, h, ↓reduceIte, claimed]⟩

theorem WellFormed.claimed {registry : Registry} (h : registry.WellFormed) {id : ContinuationId}
    {record : ContinuationRecord} (hrecord : registry.records.lookup id = some record) :
    (registry.claimed id record).WellFormed := by
  have hlookup : ∀ other, (registry.claimed id record).records.lookup other =
      if other = id then some { record with state := .claimed }
      else registry.records.lookup other :=
    fun other => HashMap.lookup_insert_eq _ _ _ _
  -- claiming changes the state only
  have hold : ∀ other r, (registry.claimed id record).records.lookup other = some r →
      ∃ old, registry.records.lookup other = some old ∧ r.continuation = old.continuation ∧
        r.latest = old.latest := by
    intro other r hr
    rw [hlookup] at hr
    split at hr
    · next heq =>
      obtain rfl := Option.some.inj hr
      exact ⟨record, heq ▸ hrecord, rfl, rfl⟩
    · exact ⟨r, hr, rfl, rfl⟩
  have hnew : ∀ other old, registry.records.lookup other = some old →
      ∃ r, (registry.claimed id record).records.lookup other = some r ∧
        r.continuation = old.continuation ∧ r.latest = old.latest := by
    intro other old ho
    rw [hlookup]
    by_cases heq : other = id
    · subst heq
      obtain rfl : record = old := by simpa [hrecord] using ho
      exact ⟨_, if_pos rfl, rfl, rfl⟩
    · exact ⟨old, by simp only [heq, ↓reduceIte, ho], rfl, rfl⟩
  refine ⟨?_, ?_, ?_⟩
  · intro other r hr
    obtain ⟨old, ho, hc, -⟩ := hold other r hr
    rw [hc]
    exact h.valid other old ho
  · intro key other
    rw [show (registry.claimed id record).latest = registry.latest from rfl, h.latest]
    constructor
    · rintro ⟨old, ho, hk, hl⟩
      obtain ⟨r, hr, hc, hl'⟩ := hnew other old ho
      exact ⟨r, hr, by rw [hc, hk], by rw [hl', hl]⟩
    · rintro ⟨r, hr, hk, hl⟩
      obtain ⟨old, ho, hc, hl'⟩ := hold other r hr
      exact ⟨old, ho, by rw [← hc, hk], by rw [← hl', hl]⟩
  · intro other r predecessor hr hpred
    obtain ⟨old, ho, hc, -⟩ := hold other r hr
    rw [hc] at hpred
    obtain ⟨previous, hprevious, hl⟩ := h.succeeded other old predecessor ho hpred
    obtain ⟨r', hr', -, hl'⟩ := hnew predecessor previous hprevious
    exact ⟨r', hr', by rw [hl', hl]⟩

end Registry

end AgentBridge
