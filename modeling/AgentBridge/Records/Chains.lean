import AgentBridge.Records.Continuation

/-!
# Continuations form chains

The continuations of a native session are a list, newest first: each names the one below it as its
predecessor, the newest one is the latest, and all below it are claimed.  `save` adds one at the
front, `claim` marks the newest one.
-/

namespace AgentBridge

open Reasoning

/-- A table of continuations, as the memory registry or the rows of a database hold it. -/
abbrev ContinuationTable := ContinuationId → Option ContinuationRecord

/-- Each continuation follows the next one of the list; the last one has no predecessor. -/
def Linked : List ContinuationRecord → Prop
  | [] => True
  | [r] => r.continuation.predecessor = none
  | r :: p :: rest => r.continuation.predecessor = some p.continuation.id ∧ Linked (p :: rest)

/-- The newest continuation is the latest, and all before it are claimed. -/
def NewestLatest : List ContinuationRecord → Prop
  | [] => True
  | r :: rest => r.latest = true ∧ ∀ p ∈ rest, p.latest = false ∧ p.state = .claimed

/-- The continuations of a native session, newest first, all of one session and slot. -/
structure IsSuccession (table : ContinuationTable) (key : String × String × String)
    (chain : List ContinuationRecord) : Prop where
  mem : ∀ r, r ∈ chain ↔ table r.continuation.id = some r ∧ r.continuation.key = key
  nodup : (chain.map (·.continuation.id)).Nodup
  linked : Linked chain
  place : ∀ r ∈ chain, ∀ p ∈ chain, r.continuation.sessionId = p.continuation.sessionId ∧
    r.continuation.slotId = p.continuation.slotId

structure IsChain (table : ContinuationTable) (key : String × String × String)
    (chain : List ContinuationRecord) : Prop extends IsSuccession table key chain where
  newest : NewestLatest chain

def Chained (table : ContinuationTable) : Prop := ∀ key, ∃ chain, IsChain table key chain

theorem chained_empty : Chained fun _ => none := by
  intro key
  exact ⟨[], ⟨⟨by simp, List.nodup_nil, trivial, by simp⟩, trivial⟩⟩

theorem linked_map {f : ContinuationRecord → ContinuationRecord}
    (hf : ∀ r, (f r).continuation = r.continuation) : ∀ {chain : List ContinuationRecord},
    Linked chain → Linked (chain.map f)
  | [], _ => trivial
  | [r], h => by
    show (f r).continuation.predecessor = none
    rw [hf]
    exact h
  | r :: p :: rest, h => by
    refine ⟨?_, linked_map hf h.2⟩
    rw [hf, hf]
    exact h.1

namespace IsSuccession

variable {table table' : ContinuationTable} {key : String × String × String}
  {chain : List ContinuationRecord}

/-- The records change, but not their continuations. -/
theorem map (h : IsSuccession table key chain) {f : ContinuationRecord → ContinuationRecord}
    (hf : ∀ r, (f r).continuation = r.continuation) (htable : ∀ id, table' id = (table id).map f) :
    IsSuccession table' key (chain.map f) where
  mem r := by
    rw [List.mem_map, htable, Option.map_eq_some_iff]
    constructor
    · rintro ⟨old, hold, rfl⟩
      obtain ⟨hlookup, hkey⟩ := (h.mem old).mp hold
      rw [hf]
      exact ⟨⟨old, hlookup, rfl⟩, hkey⟩
    · rintro ⟨⟨old, hlookup, rfl⟩, hkey⟩
      rw [hf] at hlookup hkey
      exact ⟨old, (h.mem old).mpr ⟨hlookup, hkey⟩, rfl⟩
  nodup := by
    have hids : (chain.map f).map (·.continuation.id) = chain.map (·.continuation.id) := by
      rw [List.map_map]
      exact List.map_congr_left fun r _ => congrArg Continuation.id (hf r)
    rw [hids]
    exact h.nodup
  linked := linked_map hf h.linked
  place r hr p hp := by
    obtain ⟨r', hr', rfl⟩ := List.mem_map.mp hr
    obtain ⟨p', hp', rfl⟩ := List.mem_map.mp hp
    rw [hf, hf]
    exact h.place r' hr' p' hp'

/-- A continuation is added that follows the newest one. -/
theorem push (h : IsSuccession table key chain) {r : ContinuationRecord}
    (hfresh : table r.continuation.id = none) (hkey : r.continuation.key = key)
    (htable : ∀ id, table' id = if id = r.continuation.id then some r else table id)
    (hlinked : Linked (r :: chain))
    (hplace : ∀ p ∈ chain, r.continuation.sessionId = p.continuation.sessionId ∧
      r.continuation.slotId = p.continuation.slotId) : IsSuccession table' key (r :: chain) where
  mem other := by
    rw [List.mem_cons, htable]
    constructor
    · rintro (rfl | hother)
      · exact ⟨if_pos rfl, hkey⟩
      · obtain ⟨hlookup, hk⟩ := (h.mem other).mp hother
        rw [if_neg]
        · exact ⟨hlookup, hk⟩
        · intro heq
          rw [heq, hfresh] at hlookup
          cases hlookup
    · rintro ⟨hlookup, hk⟩
      split at hlookup
      · exact .inl (Option.some.inj hlookup).symm
      · exact .inr ((h.mem other).mpr ⟨hlookup, hk⟩)
  nodup := by
    rw [List.map_cons, List.nodup_cons]
    refine ⟨?_, h.nodup⟩
    intro hmem
    obtain ⟨other, hother, heq⟩ := List.mem_map.mp hmem
    have hlookup := ((h.mem other).mp hother).1
    rw [heq, hfresh] at hlookup
    cases hlookup
  linked := hlinked
  place other hother p hp := by
    rcases List.mem_cons.mp hother with heq | hother
    · rw [heq]
      rcases List.mem_cons.mp hp with heq' | hp
      · rw [heq']
        exact ⟨rfl, rfl⟩
      · exact hplace p hp
    · rcases List.mem_cons.mp hp with heq' | hp
      · rw [heq']
        obtain ⟨hsession, hslot⟩ := hplace other hother
        exact ⟨hsession.symm, hslot.symm⟩
      · exact h.place other hother p hp

/-- A continuation of another native session is added. -/
theorem push_other (h : IsSuccession table key chain) {r : ContinuationRecord}
    (hkey : r.continuation.key ≠ key) (hfresh : table r.continuation.id = none)
    (htable : ∀ id, table' id = if id = r.continuation.id then some r else table id) :
    IsSuccession table' key chain := by
  refine { h with mem := fun other => ?_ }
  rw [h.mem, htable]
  constructor
  · rintro ⟨hlookup, hk⟩
    rw [if_neg]
    · exact ⟨hlookup, hk⟩
    · intro heq
      rw [heq, hfresh] at hlookup
      cases hlookup
  · rintro ⟨hlookup, hk⟩
    split at hlookup
    · obtain rfl := Option.some.inj hlookup
      exact absurd hk hkey
    · exact ⟨hlookup, hk⟩

end IsSuccession

/-- The latest continuation of a native session is its newest one. -/
theorem IsChain.eq_cons_of_latest {table : ContinuationTable} {key : String × String × String}
    {chain : List ContinuationRecord} (h : IsChain table key chain) {r : ContinuationRecord}
    (hlookup : table r.continuation.id = some r) (hkey : r.continuation.key = key)
    (hlatest : r.latest = true) : ∃ rest, chain = r :: rest := by
  have hmem := (h.mem r).mpr ⟨hlookup, hkey⟩
  cases chain with
  | nil => cases hmem
  | cons newest rest =>
    rcases List.mem_cons.mp hmem with rfl | hrest
    · exact ⟨rest, rfl⟩
    · have hold := (h.newest.2 r hrest).1
      rw [hlatest] at hold
      cases hold

/-! ## The registry -/

namespace Registry

/-- What `save` does to the continuation that was the latest. -/
def unlatch (previous : Option ContinuationRecord) (r : ContinuationRecord) : ContinuationRecord :=
  if previous = some r then { r with latest := false } else r

theorem unlatch_continuation (previous : Option ContinuationRecord) (r : ContinuationRecord) :
    (unlatch previous r).continuation = r.continuation := by
  unfold unlatch
  split <;> rfl

theorem lookup_saved_eq {registry : Registry} (h : registry.WellFormed) (value : Continuation)
    (id : ContinuationId) :
    (registry.saved value).records.lookup id =
      if id = value.id then some ⟨value, .available, true⟩
      else (registry.records.lookup id).map (unlatch (registry.previous value)) := by
  by_cases hid : id = value.id
  · rw [if_pos hid, hid, lookup_saved_self]
  · rw [if_neg hid, lookup_saved hid]
    cases hprev : registry.previous value with
    | none =>
      cases registry.records.lookup id with
      | none => rfl
      | some r => simp [unlatch]
    | some previous =>
      have hprevious := ((previous_eq_some h).mp hprev).1
      by_cases heq : id = previous.continuation.id
      · rw [heq, hprevious]
        simp only [↓reduceIte, Option.map_some, unlatch]
      · cases hr : registry.records.lookup id with
        | none => simp [heq]
        | some r =>
          have hne : ¬ previous = r := by
            intro hsame
            exact heq (by rw [hsame, (h.valid id r hr).1])
          simp only [heq, ↓reduceIte, Option.map_some, unlatch, Option.some.injEq, hne]

/-- The continuations below the latest one are not changed by `save`. -/
theorem unlatch_rest {previous : ContinuationRecord}
    (hlatest : previous.latest = true) {rest : List ContinuationRecord}
    (hnewest : NewestLatest (previous :: rest)) :
    (previous :: rest).map (unlatch (some previous)) = { previous with latest := false } :: rest := by
  have hsame : ∀ p ∈ rest, unlatch (some previous) p = id p := by
    intro p hp
    unfold unlatch
    rw [if_neg]
    · rfl
    · intro heq
      have hold := (hnewest.2 p hp).1
      rw [← Option.some.inj heq, hlatest] at hold
      cases hold
  have hfirst : unlatch (some previous) previous = { previous with latest := false } := by
    unfold unlatch
    rw [if_pos rfl]
  rw [List.map_cons, hfirst, List.map_congr_left hsame, List.map_id]

theorem chained_saved {registry : Registry} (h : registry.WellFormed)
    (hc : Chained registry.records.lookup) {value : Continuation} (hs : registry.Saves value) :
    Chained (registry.saved value).records.lookup := by
  intro key
  obtain ⟨chain, hchain⟩ := hc key
  have hold : IsSuccession
      (fun id => (registry.records.lookup id).map (unlatch (registry.previous value))) key
      (chain.map (unlatch (registry.previous value))) :=
    hchain.toIsSuccession.map (unlatch_continuation _) fun _ => rfl
  have hfresh : (registry.records.lookup value.id).map (unlatch (registry.previous value)) =
      none := by
    rw [hs.fresh]
    rfl
  have hsaved := lookup_saved_eq h value
  by_cases hkey : value.key = key
  · cases hprev : registry.previous value with
    | none =>
      -- there is no continuation of the native session yet
      have hnil : chain = [] := by
        cases chain with
        | nil => rfl
        | cons r rest =>
          obtain ⟨hlookup, hk⟩ := (hchain.mem r).mp List.mem_cons_self
          have hsome := (previous_eq_some h).mpr ⟨hlookup, hk.trans hkey.symm, hchain.newest.1⟩
          rw [hprev] at hsome
          cases hsome
      have hsucc := hs.successor
      rw [hprev, Continuation.validateSuccessor_none] at hsucc
      rw [hnil] at hold
      refine ⟨_, hold.push (r := ⟨value, .available, true⟩) hfresh hkey hsaved hsucc ?_, rfl, ?_⟩
      · intro p hp
        cases hp
      · intro p hp
        cases hp
    | some previous =>
      obtain ⟨hlookup, hk, hlatest⟩ := (previous_eq_some h).mp hprev
      obtain ⟨rest, rfl⟩ := hchain.eq_cons_of_latest hlookup (hk.trans hkey) hlatest
      have hsucc := hs.successor
      rw [hprev, Continuation.validateSuccessor_some] at hsucc
      have hrest := unlatch_rest hlatest hchain.newest
      rw [← hprev] at hrest
      rw [hrest] at hold
      refine ⟨_, hold.push (r := ⟨value, .available, true⟩) hfresh hkey hsaved ?_ ?_, rfl, ?_⟩
      · refine ⟨hsucc.predecessor, ?_⟩
        rw [← hrest]
        exact linked_map (unlatch_continuation _) hchain.linked
      · intro p hp
        have hplace : p.continuation.sessionId = previous.continuation.sessionId ∧
            p.continuation.slotId = previous.continuation.slotId := by
          rcases List.mem_cons.mp hp with rfl | hp
          · exact ⟨rfl, rfl⟩
          · exact hchain.place p (List.mem_cons_of_mem _ hp) previous List.mem_cons_self
        exact ⟨hsucc.session.symm.trans hplace.1.symm, hsucc.slot.symm.trans hplace.2.symm⟩
      · intro p hp
        rcases List.mem_cons.mp hp with rfl | hp
        · exact ⟨rfl, hsucc.claimed⟩
        · exact hchain.newest.2 p hp
  · -- the continuations of another native session are not touched
    have hsame : chain.map (unlatch (registry.previous value)) = chain := by
      have hid : ∀ p ∈ chain, unlatch (registry.previous value) p = id p := by
        intro p hp
        unfold unlatch
        rw [if_neg]
        · rfl
        · intro heq
          have hpkey := ((hchain.mem p).mp hp).2
          exact hkey (((previous_eq_some h).mp heq).2.1.symm.trans hpkey)
      rw [List.map_congr_left hid, List.map_id]
    rw [hsame] at hold
    exact ⟨chain, hold.push_other (r := ⟨value, .available, true⟩) hkey hfresh hsaved, hchain.newest⟩

/-- What `claim` does to a continuation. -/
def markClaimed (id : ContinuationId) (r : ContinuationRecord) : ContinuationRecord :=
  if r.continuation.id = id then { r with state := .claimed } else r

theorem markClaimed_continuation (id : ContinuationId) (r : ContinuationRecord) :
    (markClaimed id r).continuation = r.continuation := by
  unfold markClaimed
  split <;> rfl

theorem markClaimed_latest (id : ContinuationId) (r : ContinuationRecord) :
    (markClaimed id r).latest = r.latest := by
  unfold markClaimed
  split <;> rfl

theorem markClaimed_state (id : ContinuationId) {r : ContinuationRecord} (h : r.state = .claimed) :
    (markClaimed id r).state = .claimed := by
  unfold markClaimed
  split
  · rfl
  · exact h

theorem lookup_claimed_eq {registry : Registry} (h : registry.WellFormed) {id : ContinuationId}
    {record : ContinuationRecord} (hrecord : registry.records.lookup id = some record)
    (other : ContinuationId) : (registry.claimed id record).records.lookup other =
      (registry.records.lookup other).map (markClaimed id) := by
  refine (HashMap.lookup_insert_eq _ _ _ _).trans ?_
  by_cases hother : other = id
  · rw [if_pos hother, hother, hrecord, Option.map_some, markClaimed,
      if_pos (h.valid id record hrecord).1]
  · rw [if_neg hother]
    cases hr : registry.records.lookup other with
    | none => rfl
    | some r =>
      rw [Option.map_some, markClaimed, if_neg]
      rw [(h.valid other r hr).1]
      exact hother

theorem chained_claimed {registry : Registry} (h : registry.WellFormed)
    (hc : Chained registry.records.lookup) {id : ContinuationId} {record : ContinuationRecord}
    (hrecord : registry.records.lookup id = some record) :
    Chained (registry.claimed id record).records.lookup := by
  intro key
  obtain ⟨chain, hchain⟩ := hc key
  refine ⟨chain.map (markClaimed id), hchain.toIsSuccession.map (markClaimed_continuation id)
    (lookup_claimed_eq h hrecord), ?_⟩
  cases chain with
  | nil => trivial
  | cons r rest =>
    refine ⟨(markClaimed_latest id r).trans hchain.newest.1, ?_⟩
    intro p hp
    obtain ⟨q, hq, rfl⟩ := List.mem_map.mp hp
    obtain ⟨hlate, hstate⟩ := hchain.newest.2 q hq
    exact ⟨(markClaimed_latest id q).trans hlate, markClaimed_state id hstate⟩

end Registry

end AgentBridge
