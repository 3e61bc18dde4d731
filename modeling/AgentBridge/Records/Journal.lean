import AgentBridge.Records.MemorySteps
import AgentBridge.Records.Sqlite.Soundness

/-!
# The order of a session's records

A journal follows a run of calls: a session created gets an empty list, a record created is
appended to the list of its session, and a call that fails or repeats a creation appends nothing.
In both stores the record at an index of its session's list has this index as its sequence, and no
other record does.
-/

namespace AgentBridge

open Reasoning

/-- The ids of each session's records as they were created; `none` before the session is. -/
abbrev Journal := SessionId → Option (List RecordId)

namespace Journal

def empty : Journal := fun _ => none

def create (journal : Journal) (session : SessionId) : Journal := fun other =>
  if other = session then some ((journal session).getD []) else journal other

def append (journal : Journal) (draft : Draft) : Journal := fun other =>
  if other = draft.sessionId then
    (journal other).map fun ids => if draft.id ∈ ids then ids else ids ++ [draft.id]
  else journal other

theorem append_of_ne {journal : Journal} {draft : Draft} {other : SessionId}
    (h : other ≠ draft.sessionId) : journal.append draft other = journal other := if_neg h

/-- The journal after a call, from the call and its answer alone. -/
def follow (journal : Journal) {β : Type} : StoreCall β → Except Fault β → Journal
  | .createSession id, .ok _ => journal.create id
  | .insert draft, .ok _ => journal.append draft
  | .resolve _ _ decision, .ok _ => journal.append decision
  | _, _ => journal

/-- The journal after the calls of `ops`. -/
def after {σ : Type} (m : StoreMachine σ) (journal : Journal) : List StoreOp → σ → Journal
  | [], _ => journal
  | op :: ops, s => after m (journal.follow op.call (m.exec op.call s).1) ops (m.exec op.call s).2

/-- The calls that the journal follows. -/
def concerns {β : Type} : StoreCall β → Bool
  | .createSession _ => true
  | .insert _ => true
  | .resolve _ _ _ => true
  | _ => false

variable {journal : Journal}

theorem follow_of_concerns {β : Type} {c : StoreCall β} (h : concerns c = false)
    (answer : Except Fault β) : journal.follow c answer = journal := by
  cases c with
  | createSession id => cases h
  | insert draft => cases h
  | resolve request r decision => cases h
  | _ => rfl

theorem follow_error {β : Type} (c : StoreCall β) (e : Fault) :
    journal.follow c (.error e) = journal := by
  cases c <;> rfl

theorem append_of_mem {draft : Draft} {ids : List RecordId}
    (hids : journal draft.sessionId = some ids) (hmem : draft.id ∈ ids) :
    journal.append draft = journal := by
  funext other
  by_cases hother : other = draft.sessionId
  · rw [append, if_pos hother, hother, hids, Option.map_some, if_pos hmem]
  · rw [append, if_neg hother]

theorem append_of_fresh {draft : Draft} {ids : List RecordId}
    (hids : journal draft.sessionId = some ids) (hfresh : draft.id ∉ ids) (other : SessionId) :
    journal.append draft other =
      if other = draft.sessionId then some (ids ++ [draft.id]) else journal other := by
  by_cases hother : other = draft.sessionId
  · rw [append, if_pos hother, if_pos hother, hother, hids, Option.map_some, if_neg hfresh]
  · rw [append, if_neg hother, if_neg hother]

theorem create_of_some {session : SessionId} {ids : List RecordId}
    (hids : journal session = some ids) : journal.create session = journal := by
  funext other
  by_cases hother : other = session
  · rw [create, if_pos hother, hother, hids, Option.getD_some]
  · rw [create, if_neg hother]

theorem create_of_none {session : SessionId} (hids : journal session = none) (other : SessionId) :
    journal.create session other = if other = session then some [] else journal other := by
  by_cases hother : other = session
  · rw [create, if_pos hother, if_pos hother, hids, Option.getD_none]
  · rw [create, if_neg hother, if_neg hother]

/-! ## Growth -/

/-- A later journal: sessions stay, and their lists grow at the end. -/
def Grows (journal later : Journal) : Prop :=
  ∀ session ids, journal session = some ids → ∃ ids', later session = some ids' ∧ ids <+: ids'

theorem Grows.refl (journal : Journal) : journal.Grows journal :=
  fun _ ids h => ⟨ids, h, List.prefix_refl ids⟩

theorem Grows.trans {a b c : Journal} (h : a.Grows b) (h' : b.Grows c) : a.Grows c := by
  intro session ids hids
  obtain ⟨ids', hids', hfront⟩ := h session ids hids
  obtain ⟨ids'', hids'', hfront'⟩ := h' session ids' hids'
  exact ⟨ids'', hids'', hfront.trans hfront'⟩

theorem grows_create (journal : Journal) (session : SessionId) :
    journal.Grows (journal.create session) := by
  intro other ids hids
  by_cases hother : other = session
  · rw [create, if_pos hother, ← hother, hids, Option.getD_some]
    exact ⟨ids, rfl, List.prefix_refl ids⟩
  · rw [create, if_neg hother]
    exact ⟨ids, hids, List.prefix_refl ids⟩

theorem grows_append (journal : Journal) (draft : Draft) :
    journal.Grows (journal.append draft) := by
  intro other ids hids
  by_cases hother : other = draft.sessionId
  · rw [append, if_pos hother, hids, Option.map_some]
    by_cases hmem : draft.id ∈ ids
    · exact ⟨ids, by rw [if_pos hmem], List.prefix_refl ids⟩
    · exact ⟨_, by rw [if_neg hmem], List.prefix_append ids [draft.id]⟩
  · rw [append, if_neg hother]
    exact ⟨ids, hids, List.prefix_refl ids⟩

theorem grows_follow {β : Type} (c : StoreCall β) (answer : Except Fault β) :
    journal.Grows (journal.follow c answer) := by
  cases hc : concerns c with
  | false =>
    rw [follow_of_concerns hc]
    exact .refl journal
  | true =>
    cases answer with
    | error e =>
      rw [follow_error]
      exact .refl journal
    | ok a =>
      cases c with
      | createSession id => exact journal.grows_create id
      | insert draft => exact journal.grows_append draft
      | resolve request r decision => exact journal.grows_append decision
      | _ => cases hc

variable {σ : Type} {m : StoreMachine σ}

theorem grows_after (ops : List StoreOp) (s : σ) : journal.Grows (journal.after m ops s) := by
  induction ops generalizing journal s with
  | nil => exact .refl journal
  | cons op ops ih => exact (grows_follow op.call (m.exec op.call s).1).trans (ih _)

theorem after_append (ops more : List StoreOp) (s : σ) :
    journal.after m (ops ++ more) s = (journal.after m ops s).after m more (m.after ops s) := by
  induction ops generalizing journal s with
  | nil => rfl
  | cons op ops ih => exact ih _

/-! ## The places of the records -/

/-- `placed id session i`: the record belongs to the session and has the sequence `i`.  The places
of all records are the positions of the journal. -/
structure Orders (journal : Journal) (placed : RecordId → SessionId → Nat → Prop) : Prop where
  nodup : ∀ session ids, journal session = some ids → ids.Nodup
  place : ∀ id session i, placed id session i ↔
    ∃ ids, journal session = some ids ∧ ids[i]? = some id

namespace Orders

variable {placed placed' : RecordId → SessionId → Nat → Prop}

theorem empty (h : ∀ id session i, ¬ placed id session i) : Journal.empty.Orders placed := by
  constructor
  · intro session ids hids
    cases hids
  · intro id session i
    constructor
    · exact fun hp => absurd hp (h id session i)
    · rintro ⟨ids, hids, -⟩
      cases hids

theorem congr (h : journal.Orders placed)
    (hplaced : ∀ id session i, placed' id session i ↔ placed id session i) :
    journal.Orders placed' :=
  ⟨h.nodup, fun id session i => (hplaced id session i).trans (h.place id session i)⟩

theorem create (h : journal.Orders placed) (session : SessionId) :
    (journal.create session).Orders placed := by
  cases hids : journal session with
  | some ids =>
    rw [create_of_some hids]
    exact h
  | none =>
    constructor
    · intro other others hothers
      rw [create_of_none hids] at hothers
      split at hothers
      · obtain rfl := Option.some.inj hothers
        exact List.nodup_nil
      · exact h.nodup other others hothers
    · intro id other i
      rw [h.place]
      simp only [create_of_none hids]
      by_cases hother : other = session
      · simp [hother, hids]
      · simp [hother]

/-- A record that is in no session's list is appended to one. -/
theorem append (h : journal.Orders placed) {draft : Draft} {ids : List RecordId}
    (hids : journal draft.sessionId = some ids)
    (hfresh : ∀ session i, ¬ placed draft.id session i)
    (hplaced : ∀ id session i, placed' id session i ↔
      if id = draft.id then session = draft.sessionId ∧ i = ids.length else placed id session i) :
    (journal.append draft).Orders placed' := by
  have hout : ∀ session others, journal session = some others → draft.id ∉ others := by
    intro session others hothers hmem
    obtain ⟨i, hi⟩ := List.mem_iff_getElem?.mp hmem
    exact hfresh session i ((h.place _ _ _).mpr ⟨others, hothers, hi⟩)
  have happend := append_of_fresh hids (hout _ ids hids)
  constructor
  · intro session others hothers
    rw [happend] at hothers
    split at hothers
    · obtain rfl := Option.some.inj hothers
      have hsingle : List.Disjoint ids [draft.id] := by
        simpa using hout _ ids hids
      exact List.Nodup.append (h.nodup _ ids hids) (List.nodup_singleton _) hsingle
    · exact h.nodup session others hothers
  · intro id session i
    rw [hplaced]
    simp only [happend]
    by_cases hid : id = draft.id
    · rw [if_pos hid]
      constructor
      · rintro ⟨rfl, rfl⟩
        exact ⟨_, if_pos rfl, by rw [hid, List.getElem?_concat_length]⟩
      · rintro ⟨others, hothers, hi⟩
        split at hothers
        · next hs =>
          -- the new id is nowhere among the old ones
          obtain rfl := Option.some.inj hothers
          refine ⟨hs, ?_⟩
          have hlt := (List.getElem?_eq_some_iff.mp hi).1
          rw [List.length_append, List.length_singleton] at hlt
          by_contra hne
          rw [List.getElem?_append_left (by omega), hid] at hi
          exact hout _ ids hids (List.mem_of_getElem? hi)
        · rw [hid] at hi
          exact absurd (List.mem_of_getElem? hi) (hout session others hothers)
    · rw [if_neg hid, h.place]
      by_cases hs : session = draft.sessionId
      · subst hs
        simp only [hids, Option.some.injEq, exists_eq_left', ↓reduceIte]
        by_cases hlt : i < ids.length
        · rw [List.getElem?_append_left hlt]
        · rw [List.getElem?_append_right (by omega), List.getElem?_eq_none (by omega)]
          constructor
          · exact fun hc => by cases hc
          · intro hi
            have hmem := List.mem_of_getElem? hi
            rw [List.mem_singleton] at hmem
            exact absurd hmem hid
      · simp only [hs, ↓reduceIte]

/-- A record that has a place is in its session's list. -/
theorem mem (h : journal.Orders placed) {id : RecordId} {session : SessionId} {i : Nat}
    (hplaced : placed id session i) : ∃ ids, journal session = some ids ∧ id ∈ ids := by
  obtain ⟨ids, hids, hi⟩ := (h.place id session i).mp hplaced
  exact ⟨ids, hids, List.mem_of_getElem? hi⟩

end Orders

end Journal

end AgentBridge
