import AgentBridge.Acp.Continuation
import AgentBridge.Records.SingleUse

/-!
# A saved session is resumed at most once

A continuation claimed by a call has been available before, and no other call can claim it again:
each request to resume is the only one for its continuation.  A native session is reserved on a
connection exactly while one call holds it.
-/

namespace AgentBridge

open Reasoning

namespace Acp

variable {σ : Type} {m : StoreMachine σ} {holds : Registry → σ → Prop} {w w' : World σ} {k : Nat}

/-- The native session that a call keeps reserved. -/
def Phase.native : Phase → Option String
  | .reserved _ descriptor _ => some descriptor.nativeKey
  | .refused native _ => some native
  | .claimed _ descriptor _ => some descriptor.nativeKey
  | .requested _ descriptor _ => some descriptor.nativeKey
  | .holding session => some session.native
  | .registering session _ => some session.native
  | .saving session _ => some session.native
  | .saved session => some session.native
  | .abandoned native => some native
  | _ => none

/-- The continuation that a call has claimed and not yet asked the agent to resume. -/
def Phase.pending : Phase → Option ContinuationId
  | .claimed id _ _ => some id
  | _ => none

/-- The call has claimed nothing, and holds no session handle. -/
def Phase.unclaimed : Phase → Bool
  | .idle => true
  | .called _ _ => true
  | .opened _ _ => true
  | .checked _ _ _ => true
  | .reserved _ _ _ => true
  | .refused _ _ => true
  | .failed _ => true
  | _ => false

/-- What a step of a call can do. -/
inductive CallStep (m : StoreMachine σ) (w : World σ) (k : Nat) : World σ → Prop where
  /-- The session it holds stays the same; the store changes only for a call past its claim. -/
  | keep (store : σ) (call : Call)
      (hconnection : call.connection = (w.calls k).connection ∨ (w.calls k).phase = .idle)
      (hnative : call.phase.native = (w.calls k).phase.native) (hpending : call.phase.pending = none)
      (hunclaimed : call.phase.unclaimed = true →
        (w.calls k).phase.unclaimed = true ∧ store = w.store)
      (hstore : store = w.store ∨ ∃ op : StoreOp, store = (m.exec op.call w.store).2) :
      CallStep m w k ((w.withStore store).setCall k call)
  | reserve {native : String} (call : Call)
      (hconnection : call.connection = (w.calls k).connection ∨ (w.calls k).phase = .idle)
      (hfree : native ∉ w.sessions call.connection) (hbefore : (w.calls k).phase.native = none)
      (hnative : call.phase.native = some native) (hpending : call.phase.pending = none)
      (hunclaimed : call.phase.unclaimed = true → (w.calls k).phase.unclaimed = true) :
      CallStep m w k ((w.reserve call.connection native).setCall k call)
  | release {native : String} {phase : Phase} (hbefore : (w.calls k).phase.native = some native)
      (hnative : phase.native = none) (hpending : phase.pending = none)
      (hunclaimed : phase.unclaimed = true → (w.calls k).phase.unclaimed = true) :
      CallStep m w k ((w.release (w.calls k).connection native).setPhase k phase)
  | claim {id : ContinuationId} {record : ContinuationRecord} {phase : Phase}
      (hok : (m.exec (.claimContinuation id) w.store).1 = .ok record)
      (hnative : phase.native = (w.calls k).phase.native) (hpending : phase.pending = some id)
      (hunclaimed : phase.unclaimed = false) :
      CallStep m w k ((w.withStore (m.exec (.claimContinuation id) w.store).2).setPhase k phase)
  | send {request : Request} {phase : Phase} (hrequest : request.call = k)
      (hbefore : (w.calls k).phase.pending = some request.id)
      (hnative : phase.native = (w.calls k).phase.native) (hpending : phase.pending = none)
      (hunclaimed : phase.unclaimed = false) :
      CallStep m w k ((w.send request).setPhase k phase)

/-- A step that changes the phase only. -/
theorem CallStep.phase {phase : Phase} (hnative : phase.native = (w.calls k).phase.native)
    (hpending : phase.pending = none)
    (hunclaimed : phase.unclaimed = true → (w.calls k).phase.unclaimed = true) :
    CallStep m w k (w.setPhase k phase) :=
  .keep w.store ⟨(w.calls k).connection, phase⟩ (.inl rfl) hnative hpending
    (fun h => ⟨hunclaimed h, rfl⟩) (.inl rfl)

/-- An access to the store by a call that has claimed nothing yet: its answer decides the phase, and
the store stays as it was. -/
theorem CallStep.quiet {store : σ} {phase : Phase} (hstore : store = w.store)
    (hnative : phase.native = (w.calls k).phase.native) (hpending : phase.pending = none)
    (hunclaimed : phase.unclaimed = true → (w.calls k).phase.unclaimed = true) :
    CallStep m w k ((w.withStore store).setPhase k phase) := by
  subst hstore
  exact .phase hnative hpending hunclaimed

/-- An access to the store by a call that holds a session handle. -/
theorem CallStep.access {β : Type} (c : StoreCall β) {phase : Phase}
    (hnative : phase.native = (w.calls k).phase.native) (hpending : phase.pending = none)
    (hunclaimed : phase.unclaimed = false) :
    CallStep m w k ((w.withStore (m.exec c w.store).2).setPhase k phase) := by
  refine .keep _ ⟨(w.calls k).connection, phase⟩ (.inl rfl) hnative hpending (fun h => ?_)
    (.inr ⟨⟨c⟩, rfl⟩)
  have h' : phase.unclaimed = true := h
  rw [hunclaimed] at h'
  cases h'

theorem advance_step (h : SingleUse m holds) {registry : Registry} (hs : holds registry w.store)
    (hnext : advance m w k = some w') : CallStep m w k w' := by
  unfold advance at hnext
  cases hp : (w.calls k).phase with
  | called id mcpServers =>
    simp only [hp] at hnext
    split at hnext
    · obtain rfl := Option.some.inj hnext
      exact .phase (by rw [hp]; rfl) rfl fun _ => by rw [hp]; rfl
    split at hnext
    · obtain rfl := Option.some.inj hnext
      exact .phase (by rw [hp]; rfl) rfl fun _ => by rw [hp]; rfl
    · obtain rfl := Option.some.inj hnext
      exact .phase (by rw [hp]; rfl) rfl fun _ => by rw [hp]; rfl
  | opened id mcpServers =>
    simp only [hp] at hnext
    have hread : (m.exec (.getContinuation id) w.store).2 = w.store := h.read id w.store
    split at hnext
    · obtain rfl := Option.some.inj hnext
      exact .quiet hread (by rw [hp]; rfl) rfl fun _ => by rw [hp]; rfl
    split at hnext
    · obtain rfl := Option.some.inj hnext
      exact .quiet hread (by rw [hp]; rfl) rfl fun _ => by rw [hp]; rfl
    · obtain rfl := Option.some.inj hnext
      exact .quiet hread (by rw [hp]; rfl) rfl fun _ => by rw [hp]; rfl
  | checked id descriptor data =>
    simp only [hp] at hnext
    split at hnext
    · obtain rfl := Option.some.inj hnext
      exact .phase (by rw [hp]; rfl) rfl fun _ => by rw [hp]; rfl
    · next hfree =>
      obtain rfl := Option.some.inj hnext
      exact .reserve ⟨(w.calls k).connection, .reserved id descriptor data⟩ (.inl rfl) hfree
        (by rw [hp]; rfl) rfl rfl fun _ => by rw [hp]; rfl
  | reserved id descriptor data =>
    simp only [hp] at hnext
    split at hnext
    · next e herror =>
      have hsame := h.failed (.claimContinuation id) registry w.store e hs rfl herror
      obtain rfl := Option.some.inj hnext
      exact .quiet hsame (by rw [hp]; rfl) rfl fun _ => by rw [hp]; rfl
    · next record hok =>
      obtain rfl := Option.some.inj hnext
      exact .claim hok (by rw [hp]; rfl) rfl rfl
  | refused native error =>
    simp only [hp] at hnext
    obtain rfl := Option.some.inj hnext
    exact .release (by rw [hp]; rfl) rfl rfl fun _ => by rw [hp]; rfl
  | claimed id descriptor data =>
    simp only [hp] at hnext
    obtain rfl := Option.some.inj hnext
    exact .send rfl (by rw [hp]; rfl) (by rw [hp]; rfl) rfl rfl
  | registering session value =>
    simp only [hp] at hnext
    split at hnext
    · obtain rfl := Option.some.inj hnext
      exact .access _ (by rw [hp]; rfl) rfl rfl
    · obtain rfl := Option.some.inj hnext
      exact .access _ (by rw [hp]; rfl) rfl rfl
  | saving session value =>
    simp only [hp] at hnext
    split at hnext
    · obtain rfl := Option.some.inj hnext
      exact .access _ (by rw [hp]; rfl) rfl rfl
    split at hnext
    · obtain rfl := Option.some.inj hnext
      exact .access _ (by rw [hp]; rfl) rfl rfl
    · obtain rfl := Option.some.inj hnext
      exact .access _ (by rw [hp]; rfl) rfl rfl
  | saved session =>
    simp only [hp] at hnext
    obtain rfl := Option.some.inj hnext
    exact .release (by rw [hp]; rfl) rfl rfl fun hu => by cases hu
  | _ =>
    simp only [hp] at hnext
    cases hnext

theorem busy_step {e : StoreError} (hnext : busy w k e = some w') : CallStep m w k w' := by
  unfold busy at hnext
  cases hp : (w.calls k).phase with
  | opened id mcpServers =>
    simp only [hp] at hnext
    obtain rfl := Option.some.inj hnext
    exact .phase (by rw [hp]; rfl) rfl fun _ => by rw [hp]; rfl
  | reserved id descriptor data =>
    simp only [hp] at hnext
    obtain rfl := Option.some.inj hnext
    exact .phase (by rw [hp]; rfl) rfl fun _ => by rw [hp]; rfl
  | registering session value =>
    simp only [hp] at hnext
    obtain rfl := Option.some.inj hnext
    exact .phase (by rw [hp]; rfl) rfl fun hu => by cases hu
  | saving session value =>
    simp only [hp] at hnext
    obtain rfl := Option.some.inj hnext
    exact .phase (by rw [hp]; rfl) rfl fun hu => by cases hu
  | _ =>
    simp only [hp] at hnext
    cases hnext

/-- Every event that is a step of a call. -/
theorem call_step (h : SingleUse m holds) {registry : Registry} (hs : holds registry w.store)
    {e : Event} (hnext : next m w e = some w') (hcall : e.call = some k) : CallStep m w k w' := by
  cases e with
  | store op => cases hcall
  | close c => cases hcall
  | advance j =>
    obtain rfl := Option.some.inj hcall
    exact advance_step h hs hnext
  | busy j error =>
    obtain rfl := Option.some.inj hcall
    exact busy_step hnext
  | resumeSaved j c id mcpServers =>
    obtain rfl := Option.some.inj hcall
    simp only [next] at hnext
    split at hnext
    · next hp =>
      obtain rfl := Option.some.inj hnext
      exact .keep w.store ⟨c, .called id mcpServers⟩ (.inr hp) (by rw [hp]; rfl) rfl
        (fun _ => ⟨by rw [hp]; rfl, rfl⟩) (.inl rfl)
    · cases hnext
  | sendFails j sent =>
    obtain rfl := Option.some.inj hcall
    simp only [next] at hnext
    split at hnext
    · next id descriptor data hp =>
      obtain rfl := Option.some.inj hnext
      cases sent with
      | true => exact .send rfl (by rw [hp]; rfl) (by rw [hp]; rfl) rfl rfl
      | false => exact .phase (by rw [hp]; rfl) rfl fun hu => by cases hu
    · cases hnext
  | responds j =>
    obtain rfl := Option.some.inj hcall
    simp only [next] at hnext
    split at hnext
    · next id descriptor data hp =>
      obtain rfl := Option.some.inj hnext
      exact .phase (by rw [hp]; rfl) rfl fun hu => by cases hu
    · cases hnext
  | responseFails j =>
    obtain rfl := Option.some.inj hcall
    simp only [next] at hnext
    split at hnext
    · next id descriptor data hp =>
      obtain rfl := Option.some.inj hnext
      exact .phase (by rw [hp]; rfl) rfl fun hu => by cases hu
    · cases hnext
  | newSession j c session =>
    obtain rfl := Option.some.inj hcall
    simp only [next] at hnext
    split at hnext
    · next hp =>
      split at hnext
      · obtain rfl := Option.some.inj hnext
        exact .keep w.store ⟨c, .failed .sessionUnavailable⟩ (.inr hp) (by rw [hp]; rfl) rfl
          (fun _ => ⟨by rw [hp]; rfl, rfl⟩) (.inl rfl)
      · next hfree =>
        obtain rfl := Option.some.inj hnext
        exact .reserve ⟨c, .holding { session with predecessor := none }⟩ (.inr hp) hfree
          (by rw [hp]; rfl) rfl rfl fun hu => by cases hu
    · cases hnext
  | handoff j id refusal =>
    obtain rfl := Option.some.inj hcall
    simp only [next] at hnext
    split at hnext
    · next session hp =>
      split at hnext
      · split at hnext
        · obtain rfl := Option.some.inj hnext
          exact .phase (by rw [hp]; rfl) rfl fun hu => by cases hu
        · obtain rfl := Option.some.inj hnext
          exact .phase (by rw [hp]; rfl) rfl fun hu => by cases hu
      · obtain rfl := Option.some.inj hnext
        exact .phase (by rw [hp]; rfl) rfl fun hu => by cases hu
    · cases hnext
  | drop j =>
    obtain rfl := Option.some.inj hcall
    simp only [next] at hnext
    split at hnext
    · next id descriptor data hp =>
      obtain rfl := Option.some.inj hnext
      exact .phase (by rw [hp]; rfl) rfl fun hu => by cases hu
    · next session hp =>
      obtain rfl := Option.some.inj hnext
      exact .phase (by rw [hp]; rfl) rfl fun hu => by cases hu
    · cases hnext

/-- Every other event leaves the calls and the reserved sessions alone. -/
theorem other_step {e : Event} (hnext : next m w e = some w') (hcall : e.call = none) :
    w'.calls = w.calls ∧ w'.sessions = w.sessions ∧ w'.requests = w.requests ∧
      (w'.store = w.store ∨ ∃ op : StoreOp, w'.store = (m.exec op.call w.store).2) := by
  cases e with
  | store op =>
    obtain rfl := Option.some.inj hnext
    exact ⟨rfl, rfl, rfl, .inr ⟨op, rfl⟩⟩
  | close c =>
    obtain rfl := Option.some.inj hnext
    exact ⟨rfl, rfl, rfl, .inl rfl⟩
  | _ => cases hcall

/-! ## The invariant -/

@[simp] theorem World.calls_setCall (w : World σ) (k : Nat) (call : Call) (j : Nat) :
    (w.setCall k call).calls j = if j = k then call else w.calls j :=
  Function.update_apply _ _ _ _

theorem World.mem_reserve {w : World σ} {c d : Nat} {native n : String} :
    n ∈ (w.reserve c native).sessions d ↔ (d = c ∧ n = native) ∨ n ∈ w.sessions d := by
  show n ∈ Function.update w.sessions c (native :: w.sessions c) d ↔ _
  rw [Function.update_apply]
  by_cases hd : d = c
  · simp only [hd, ↓reduceIte, List.mem_cons, true_and]
  · simp only [hd, ↓reduceIte, false_and, false_or]

theorem World.mem_release {w : World σ} {c d : Nat} {native n : String} :
    n ∈ (w.release c native).sessions d ↔ n ∈ w.sessions d ∧ ¬ (d = c ∧ n = native) := by
  show n ∈ Function.update w.sessions c ((w.sessions c).filter (· ≠ native)) d ↔ _
  rw [Function.update_apply]
  by_cases hd : d = c
  · simp only [hd, ↓reduceIte, List.mem_filter, decide_eq_true_eq, true_and]
  · simp only [hd, ↓reduceIte, false_and, not_false_eq_true, and_true]

/-- A call keeps a native session of a connection reserved. -/
def World.Holds (w : World σ) (k c : Nat) (native : String) : Prop :=
  (w.calls k).connection = c ∧ (w.calls k).phase.native = some native

/-- The reserved sessions are those that calls hold, each held by one call. -/
structure World.Reserved (w : World σ) : Prop where
  held : ∀ c native, native ∈ w.sessions c ↔ ∃ k, w.Holds k c native
  owner : ∀ k k' c native, w.Holds k c native → w.Holds k' c native → k = k'

/-- A continuation that was claimed to resume it. -/
def World.Taken (w : World σ) (id : ContinuationId) : Prop :=
  (∃ k, (w.calls k).phase.pending = some id) ∨ id ∈ w.requests.map (·.id)

def ContinuationTable.Claimed (table : ContinuationTable) (id : ContinuationId) : Prop :=
  ∃ r, table id = some r ∧ r.state = .claimed

/-- Each continuation is taken once, and the store has it claimed. -/
structure World.TakenOnce (w : World σ) (table : ContinuationTable) : Prop where
  claimed : ∀ id, w.Taken id → ContinuationTable.Claimed table id
  pending : ∀ k k' id, (w.calls k).phase.pending = some id → (w.calls k').phase.pending = some id →
    k = k'
  unsent : ∀ k id, (w.calls k).phase.pending = some id → id ∉ w.requests.map (·.id)
  once : (w.requests.map (·.id)).Nodup
  sender : ∀ r ∈ w.requests, (w.calls r.call).phase.unclaimed = false

/-- A call is replaced by one that holds the same session. -/
theorem World.Reserved.setCall (h : w.Reserved) (call : Call)
    (hconnection : call.connection = (w.calls k).connection ∨ (w.calls k).phase.native = none)
    (hnative : call.phase.native = (w.calls k).phase.native) (store : σ) :
    ((w.withStore store).setCall k call).Reserved := by
  have hsame : ∀ j c native, ((w.withStore store).setCall k call).Holds j c native ↔
      w.Holds j c native := by
    intro j c native
    unfold World.Holds
    rw [World.calls_setCall]
    by_cases hj : j = k
    · rw [if_pos hj, hj, hnative]
      rcases hconnection with heq | hnone
      · rw [heq]
      · rw [hnone]
        simp only [reduceCtorEq, and_false]
    · rw [if_neg hj]
      rfl
  constructor
  · intro c native
    simp only [hsame]
    exact h.held c native
  · intro j j' c native hj hj'
    exact h.owner j j' c native ((hsame j c native).mp hj) ((hsame j' c native).mp hj')

theorem CallStep.reserved (hstep : CallStep m w k w') (h : w.Reserved) : w'.Reserved := by
  cases hstep with
  | keep store call hconnection hnative =>
    refine h.setCall _ ?_ hnative _
    rcases hconnection with heq | hidle
    · exact .inl heq
    · exact .inr (by rw [hidle]; rfl)
  | @claim id record phase hok hnative =>
    exact h.setCall ⟨(w.calls k).connection, phase⟩ (.inl rfl) hnative _
  | @send request phase hrequest hbefore hnative =>
    have hkept := h.setCall ⟨(w.calls k).connection, phase⟩ (.inl rfl) hnative w.store
    exact ⟨hkept.held, hkept.owner⟩
  | @reserve native call hconnection hfree hbefore hnative =>
    have hholds : ∀ j c n, ((w.reserve call.connection native).setCall k call).Holds j c n ↔
        (j = k ∧ c = call.connection ∧ n = native) ∨ (j ≠ k ∧ w.Holds j c n) := by
      intro j c n
      unfold World.Holds
      rw [World.calls_setCall]
      by_cases hj : j = k
      · simp only [hj, ↓reduceIte, hnative, Option.some.injEq, true_and, ne_eq, not_true_eq_false,
          false_and, or_false]
        exact and_congr eq_comm eq_comm
      · simp only [hj, ↓reduceIte, false_and, ne_eq, not_false_eq_true, true_and, false_or]
        rfl
    have hnone : ∀ c n, ¬ w.Holds k c n := by
      intro c n hk
      have hk' := hk.2
      rw [hbefore] at hk'
      cases hk'
    constructor
    · intro c n
      show n ∈ (w.reserve call.connection native).sessions c ↔ _
      rw [World.mem_reserve, h.held]
      simp only [hholds]
      constructor
      · rintro (⟨hc, hn⟩ | ⟨j, hj⟩)
        · exact ⟨k, .inl ⟨rfl, hc, hn⟩⟩
        · exact ⟨j, .inr ⟨fun heq => hnone c n (heq ▸ hj), hj⟩⟩
      · rintro ⟨j, ⟨-, hc, hn⟩ | ⟨-, hj⟩⟩
        · exact .inl ⟨hc, hn⟩
        · exact .inr ⟨j, hj⟩
    · intro j j' c n hj hj'
      rw [hholds] at hj hj'
      -- the session reserved was free, so no other call holds it
      have hother : ∀ i, w.Holds i call.connection native → False := fun i hi =>
        hfree ((h.held _ _).mpr ⟨i, hi⟩)
      rcases hj with ⟨hjk, hc, hn⟩ | ⟨hjk, hj⟩
      · rcases hj' with ⟨hjk', -, -⟩ | ⟨-, hj'⟩
        · rw [hjk, hjk']
        · rw [hc, hn] at hj'
          exact (hother _ hj').elim
      · rcases hj' with ⟨-, hc, hn⟩ | ⟨-, hj'⟩
        · rw [hc, hn] at hj
          exact (hother _ hj).elim
        · exact h.owner j j' c n hj hj'
  | @release native phase hbefore hnative =>
    have hholds : ∀ j c n,
        ((w.release (w.calls k).connection native).setPhase k phase).Holds j c n ↔
          j ≠ k ∧ w.Holds j c n := by
      intro j c n
      show World.Holds (World.setCall _ _ _) _ _ _ ↔ _
      unfold World.Holds
      rw [World.calls_setCall]
      by_cases hj : j = k
      · simp only [hj, ↓reduceIte, hnative, reduceCtorEq, and_false, ne_eq, not_true_eq_false,
          false_and]
      · simp only [hj, ↓reduceIte, ne_eq, not_false_eq_true, true_and]
        rfl
    constructor
    · intro c n
      show n ∈ (w.release (w.calls k).connection native).sessions c ↔ _
      rw [World.mem_release, h.held]
      simp only [hholds]
      constructor
      · rintro ⟨⟨j, hj⟩, hne⟩
        refine ⟨j, ?_, hj⟩
        intro heq
        rw [heq] at hj
        have hn := hj.2
        rw [hbefore, Option.some.injEq] at hn
        exact hne ⟨hj.1.symm, hn.symm⟩
      · rintro ⟨j, hjk, hj⟩
        refine ⟨⟨j, hj⟩, ?_⟩
        rintro ⟨hc, hn⟩
        rw [hc, hn] at hj
        exact hjk (h.owner j k _ _ hj ⟨rfl, hbefore⟩)
    · intro j j' c n hj hj'
      exact h.owner j j' c n ((hholds j c n).mp hj).2 ((hholds j' c n).mp hj').2

namespace World.TakenOnce

variable {table table' : ContinuationTable}

theorem kept (h : w.TakenOnce table) (hkept : table.Kept table') : w.TakenOnce table' := by
  refine { h with claimed := fun id hid => ?_ }
  obtain ⟨r, hr, hclaimed⟩ := h.claimed id hid
  obtain ⟨r', hr', -, hstays, -⟩ := hkept id r hr
  exact ⟨r', hr', hstays hclaimed⟩

theorem congr (h : w.TakenOnce table) (hcalls : w'.calls = w.calls)
    (hrequests : w'.requests = w.requests) : w'.TakenOnce table := by
  constructor
  · intro id hid
    unfold World.Taken at hid
    rw [hcalls, hrequests] at hid
    exact h.claimed id hid
  · rw [hcalls]
    exact h.pending
  · rw [hcalls, hrequests]
    exact h.unsent
  · rw [hrequests]
    exact h.once
  · rw [hcalls, hrequests]
    exact h.sender

/-- A call moves on with nothing newly claimed. -/
theorem quiet (h : w.TakenOnce table) {call : Call}
    (hcalls : ∀ j, w'.calls j = if j = k then call else w.calls j)
    (hrequests : w'.requests = w.requests) (hpending : call.phase.pending = none)
    (hunclaimed : call.phase.unclaimed = true → (w.calls k).phase.unclaimed = true) :
    w'.TakenOnce table := by
  have hpend : ∀ j id, (w'.calls j).phase.pending = some id → (w.calls j).phase.pending = some id := by
    intro j id hj
    rw [hcalls] at hj
    split at hj
    · rw [hpending] at hj
      cases hj
    · exact hj
  constructor
  case claimed =>
    intro id hid
    apply h.claimed
    rcases hid with ⟨j, hj⟩ | hsent
    · exact .inl ⟨j, hpend j id hj⟩
    · exact .inr (hrequests ▸ hsent)
  case pending => exact fun j j' id hj hj' => h.pending j j' id (hpend j id hj) (hpend j' id hj')
  case unsent => exact fun j id hj => hrequests ▸ h.unsent j id (hpend j id hj)
  case once => exact hrequests ▸ h.once
  case sender =>
    intro r hr
    rw [hrequests] at hr
    have hsender := h.sender r hr
    rw [hcalls]
    split
    · next heq =>
      rw [heq] at hsender
      cases hu : call.phase.unclaimed with
      | false => rfl
      | true => exact absurd (hunclaimed hu) (by rw [hsender]; exact Bool.false_ne_true)
    · exact hsender

/-- A call claims a continuation that nobody has taken. -/
theorem claim (h : w.TakenOnce table) {id : ContinuationId} {call : Call}
    (hcalls : ∀ j, w'.calls j = if j = k then call else w.calls j)
    (hrequests : w'.requests = w.requests) (hpending : call.phase.pending = some id)
    (hunclaimed : call.phase.unclaimed = false) (hfree : ¬ w.Taken id)
    (hclaimed : ContinuationTable.Claimed table id) : w'.TakenOnce table := by
  have hpend : ∀ j other, (w'.calls j).phase.pending = some other →
      (j = k ∧ other = id) ∨ (j ≠ k ∧ (w.calls j).phase.pending = some other) := by
    intro j other hj
    rw [hcalls] at hj
    split at hj
    · next heq =>
      rw [hpending, Option.some.injEq] at hj
      exact .inl ⟨heq, hj.symm⟩
    · next hne => exact .inr ⟨hne, hj⟩
  constructor
  case claimed =>
    rintro other (⟨j, hj⟩ | hsent)
    · rcases hpend j other hj with ⟨-, heq⟩ | ⟨-, hold⟩
      · rw [heq]
        exact hclaimed
      · exact h.claimed other (.inl ⟨j, hold⟩)
    · exact h.claimed other (.inr (hrequests ▸ hsent))
  case pending =>
    intro j j' other hj hj'
    rcases hpend j other hj with ⟨hjk, heq⟩ | ⟨-, hold⟩
    · rcases hpend j' other hj' with ⟨hjk', -⟩ | ⟨-, hold'⟩
      · rw [hjk, hjk']
      · exact (hfree (.inl ⟨j', heq ▸ hold'⟩)).elim
    · rcases hpend j' other hj' with ⟨-, heq⟩ | ⟨-, hold'⟩
      · exact (hfree (.inl ⟨j, heq ▸ hold⟩)).elim
      · exact h.pending j j' other hold hold'
  case unsent =>
    intro j other hj
    rw [hrequests]
    rcases hpend j other hj with ⟨-, heq⟩ | ⟨-, hold⟩
    · rw [heq]
      exact fun hsent => hfree (.inr hsent)
    · exact h.unsent j other hold
  case once => exact hrequests ▸ h.once
  case sender =>
    intro r hr
    rw [hrequests] at hr
    rw [hcalls]
    split
    · exact hunclaimed
    · exact h.sender r hr

/-- A call asks the agent to resume what it has claimed. -/
theorem send (h : w.TakenOnce table) {request : Request} {call : Call}
    (hcalls : ∀ j, w'.calls j = if j = k then call else w.calls j)
    (hrequests : w'.requests = request :: w.requests) (hrequest : request.call = k)
    (hbefore : (w.calls k).phase.pending = some request.id) (hpending : call.phase.pending = none)
    (hunclaimed : call.phase.unclaimed = false) : w'.TakenOnce table := by
  have hpend : ∀ j id, (w'.calls j).phase.pending = some id →
      j ≠ k ∧ (w.calls j).phase.pending = some id := by
    intro j id hj
    rw [hcalls] at hj
    split at hj
    · rw [hpending] at hj
      cases hj
    · next hne => exact ⟨hne, hj⟩
  constructor
  case claimed =>
    rintro id (⟨j, hj⟩ | hsent)
    · exact h.claimed id (.inl ⟨j, (hpend j id hj).2⟩)
    · rw [hrequests, List.map_cons, List.mem_cons] at hsent
      rcases hsent with heq | hold
      · exact h.claimed id (.inl ⟨k, by rw [heq]; exact hbefore⟩)
      · exact h.claimed id (.inr hold)
  case pending => exact fun j j' id hj hj' => h.pending j j' id (hpend j id hj).2 (hpend j' id hj').2
  case unsent =>
    intro j id hj
    obtain ⟨hne, hold⟩ := hpend j id hj
    rw [hrequests, List.map_cons, List.mem_cons, not_or]
    refine ⟨?_, h.unsent j id hold⟩
    intro heq
    exact hne (h.pending j k id hold (by rw [heq]; exact hbefore))
  case once =>
    rw [hrequests, List.map_cons, List.nodup_cons]
    exact ⟨h.unsent k request.id hbefore, h.once⟩
  case sender =>
    intro r hr
    rw [hrequests] at hr
    rw [hcalls]
    split
    · exact hunclaimed
    · next hne =>
      rcases List.mem_cons.mp hr with heq | hold
      · exact absurd (by rw [heq, hrequest]) hne
      · exact h.sender r hold

end World.TakenOnce

/-- What holds of every world that connections over one store can reach. -/
structure World.Sound (holds : Registry → σ → Prop) (w : World σ) (registry : Registry) : Prop where
  holds : holds registry w.store
  reserved : w.Reserved
  taken : w.TakenOnce registry.records.lookup

/-- The registry after any call of the store, or none. -/
theorem registry_after (h : SingleUse m holds) {registry : Registry} {s s' : σ}
    (hs : holds registry s) (hstore : s' = s ∨ ∃ op : StoreOp, s' = (m.exec op.call s).2) :
    ∃ registry', holds registry' s' ∧
      ContinuationTable.Kept registry.records.lookup registry'.records.lookup := by
  rcases hstore with rfl | ⟨op, rfl⟩
  · exact ⟨registry, hs, .refl _⟩
  · exact ⟨_, h.follow op.call registry s hs,
      (Registry.follow_spec (h.wellFormed registry s hs) op.call (m.exec op.call s).1).1⟩

theorem World.Reserved.congr (h : w.Reserved) (hcalls : w'.calls = w.calls)
    (hsessions : w'.sessions = w.sessions) : w'.Reserved := by
  have hsame : ∀ k c native, w'.Holds k c native ↔ w.Holds k c native := by
    intro k c native
    unfold World.Holds
    rw [hcalls]
  constructor
  · intro c native
    rw [hsessions]
    simp only [hsame]
    exact h.held c native
  · intro k k' c native hk hk'
    exact h.owner k k' c native ((hsame k c native).mp hk) ((hsame k' c native).mp hk')

/-- What a call has taken, after a step of it. -/
theorem CallStep.taken (h : SingleUse m holds) {registry : Registry}
    (hw : w.Sound holds registry) (hstep : CallStep m w k w') :
    ∃ registry', holds registry' w'.store ∧ w'.TakenOnce registry'.records.lookup := by
  cases hstep with
  | keep store call hconnection hnative hpending hunclaimed hstore =>
    obtain ⟨registry', hs', hkept⟩ := registry_after h hw.holds hstore
    exact ⟨registry', hs', (hw.taken.kept hkept).quiet (World.calls_setCall _ k call) rfl hpending
      fun hu => (hunclaimed hu).1⟩
  | reserve call hconnection hfree hbefore hnative hpending hunclaimed =>
    exact ⟨registry, hw.holds,
      hw.taken.quiet (World.calls_setCall _ k call) rfl hpending hunclaimed⟩
  | release hbefore hnative hpending hunclaimed =>
    exact ⟨registry, hw.holds,
      hw.taken.quiet (World.calls_setCall _ k _) rfl hpending hunclaimed⟩
  | @claim id record phase hok hnative hpending hunclaimed =>
    -- the store had the continuation available, so nobody has taken it
    obtain ⟨hstate, hbefore, hafter⟩ := h.follow_claim hw.holds hok
    have hkept := (Registry.follow_spec (h.wellFormed _ _ hw.holds) (.claimContinuation id)
      (m.exec (.claimContinuation id) w.store).1).1
    have hfree : ¬ w.Taken id := by
      intro htaken
      obtain ⟨r, hr, hclaimed⟩ := hw.taken.claimed id htaken
      have hsame : some r = some { record with state := .available } := hr.symm.trans hbefore
      rw [Option.some.injEq] at hsame
      rw [hsame] at hclaimed
      cases hclaimed
    exact ⟨_, h.follow (.claimContinuation id) registry w.store hw.holds,
      (hw.taken.kept hkept).claim (World.calls_setCall _ k ⟨(w.calls k).connection, phase⟩) rfl
        hpending hunclaimed hfree ⟨record, hafter, hstate⟩⟩
  | @send request phase hrequest hbefore hnative hpending hunclaimed =>
    exact ⟨registry, hw.holds,
      hw.taken.send (World.calls_setCall _ k ⟨(w.calls k).connection, phase⟩) rfl hrequest hbefore
        hpending hunclaimed⟩

theorem World.Sound.step (h : SingleUse m holds) {registry : Registry}
    (hw : w.Sound holds registry) {e : Event} (hnext : next m w e = some w') :
    ∃ registry', w'.Sound holds registry' := by
  cases hcall : e.call with
  | none =>
    obtain ⟨hcalls, hsessions, hrequests, hstore⟩ := other_step hnext hcall
    obtain ⟨registry', hs', hkept⟩ := registry_after h hw.holds hstore
    exact ⟨registry', hs', hw.reserved.congr hcalls hsessions,
      (hw.taken.kept hkept).congr hcalls hrequests⟩
  | some k =>
    have hstep := call_step h hw.holds hnext hcall
    obtain ⟨registry', hs', htaken⟩ := hstep.taken h hw
    exact ⟨registry', hs', hstep.reserved hw.reserved, htaken⟩

theorem World.Sound.start {registry : Registry} {s : σ} (hs : holds registry s)
    (connections : Nat → AcpConnection) : (World.start s connections).Sound holds registry := by
  refine ⟨hs, ⟨?_, ?_⟩, ?_⟩
  · intro c native
    constructor
    · intro h
      cases h
    · rintro ⟨k, -, h⟩
      cases h
  · rintro k k' c native ⟨-, h⟩
    cases h
  · constructor
    · rintro id (⟨k, h⟩ | h)
      · cases h
      · cases h
    · intro k k' id h
      cases h
    · intro k id h
      cases h
    · exact List.nodup_nil
    · intro r h
      cases h

theorem World.Sound.run (h : SingleUse m holds) {es : List Event} {registry : Registry}
    (hw : w.Sound holds registry) (hrun : Next.run (next m) es w = some w') :
    ∃ registry', w'.Sound holds registry' :=
  Next.run_invariant (P := fun w => ∃ registry, World.Sound holds w registry)
    (fun _ _ _ ⟨_, hw⟩ hnext => hw.step h hnext) ⟨registry, hw⟩ hrun

/-! ## Calls that fail before the claim -/

/-- A step of a call that has still claimed nothing after it leaves the store as it was. -/
theorem CallStep.unclaimed (hstep : CallStep m w k w')
    (hafter : (w'.calls k).phase.unclaimed = true) :
    (w.calls k).phase.unclaimed = true ∧ w'.store = w.store := by
  cases hstep with
  | keep store call hconnection hnative hpending hunclaimed =>
    rw [World.calls_setCall, if_pos rfl] at hafter
    exact hunclaimed hafter
  | reserve call hconnection hfree hbefore hnative hpending hunclaimed =>
    rw [World.calls_setCall, if_pos rfl] at hafter
    exact ⟨hunclaimed hafter, rfl⟩
  | release hbefore hnative hpending hunclaimed =>
    rw [World.setPhase, World.calls_setCall, if_pos rfl] at hafter
    exact ⟨hunclaimed hafter, rfl⟩
  | claim hok hnative hpending hunclaimed =>
    rw [World.setPhase, World.calls_setCall, if_pos rfl, hunclaimed] at hafter
    cases hafter
  | send hrequest hbefore hnative hpending hunclaimed =>
    rw [World.setPhase, World.calls_setCall, if_pos rfl, hunclaimed] at hafter
    cases hafter

/-- A call takes no step of another one. -/
theorem CallStep.other (hstep : CallStep m w k w') {j : Nat} (hj : j ≠ k) :
    w'.calls j = w.calls j := by
  cases hstep <;> exact (World.calls_setCall _ _ _ j).trans (if_neg hj)

/-- A call that has claimed nothing at the end of a run had claimed nothing before. -/
theorem unclaimed_before (h : SingleUse m holds) {es : List Event} {registry : Registry}
    (hw : w.Sound holds registry) (hrun : Next.run (next m) es w = some w')
    (hafter : (w'.calls k).phase.unclaimed = true) : (w.calls k).phase.unclaimed = true := by
  induction es generalizing w registry with
  | nil =>
    obtain rfl := Option.some.inj hrun
    exact hafter
  | cons e es ih =>
    obtain ⟨mid, hmid, hrest⟩ := Next.run_cons.mp hrun
    obtain ⟨registry', hw'⟩ := hw.step h hmid
    have hunclaimed := ih hw' hrest
    cases hcall : e.call with
    | none =>
      rw [(other_step hmid hcall).1] at hunclaimed
      exact hunclaimed
    | some j =>
      have hstep := call_step h hw.holds hmid hcall
      by_cases hj : k = j
      · subst hj
        exact (hstep.unclaimed hunclaimed).1
      · rw [hstep.other hj] at hunclaimed
        exact hunclaimed

/-- Resuming over one store, by any number of connections. -/
structure ResumesOnce (m : StoreMachine σ) (start : σ) : Prop where
  /-- At most one request to resume is sent for a continuation. -/
  once : ∀ connections es w, Next.run (next m) es (World.start start connections) = some w →
    (w.requests.map (·.id)).Nodup
  /-- A native session is reserved on a connection exactly while one call holds it. -/
  reserved : ∀ connections es w, Next.run (next m) es (World.start start connections) = some w →
    ∀ c native, native ∈ w.sessions c ↔ ∃! k, w.Holds k c native
  /-- A call that fails before the claim sends no request, and no step of it changes the store. -/
  failed : ∀ connections es e more w w' w'' k error,
    Next.run (next m) es (World.start start connections) = some w → next m w e = some w' →
    Next.run (next m) more w' = some w'' → e.call = some k →
    (w''.calls k).phase = .failed error →
    w'.store = w.store ∧ (∀ c native, ¬ w''.Holds k c native) ∧ ∀ r ∈ w''.requests, r.call ≠ k

theorem resumesOnce (h : SingleUse m holds) {registry : Registry} {start : σ}
    (hs : holds registry start) : ResumesOnce m start := by
  have hsound : ∀ connections es w,
      Next.run (next m) es (World.start start connections) = some w →
      ∃ registry, w.Sound holds registry := fun connections es w hrun =>
    (World.Sound.start hs connections).run h hrun
  constructor
  case once =>
    intro connections es w hrun
    obtain ⟨registry, hw⟩ := hsound connections es w hrun
    exact hw.taken.once
  case reserved =>
    intro connections es w hrun c native
    obtain ⟨registry, hw⟩ := hsound connections es w hrun
    rw [hw.reserved.held]
    constructor
    · rintro ⟨k, hk⟩
      exact ⟨k, hk, fun k' hk' => hw.reserved.owner k' k c native hk' hk⟩
    · rintro ⟨k, hk, -⟩
      exact ⟨k, hk⟩
  case failed =>
    intro connections es e more w w' w'' k error hrun hnext hmore hcall hfailed
    obtain ⟨registry, hw⟩ := hsound connections es w hrun
    obtain ⟨registry', hw'⟩ := hw.step h hnext
    obtain ⟨registry'', hw''⟩ := hw'.run h hmore
    have hend : (w''.calls k).phase.unclaimed = true := by
      rw [hfailed]
      rfl
    have hafter := unclaimed_before h hw' hmore hend
    refine ⟨((call_step h hw.holds hnext hcall).unclaimed hafter).2, ?_, ?_⟩
    · rintro c native ⟨-, hnative⟩
      rw [hfailed] at hnative
      cases hnative
    · intro r hr heq
      have hsender := hw''.taken.sender r hr
      rw [heq, hend] at hsender
      cases hsender

end Acp

/-! ## Both stores -/

theorem MemoryStore.holdsRegistry_default :
    MemoryStore.HoldsRegistry .empty MemoryStore.State.default := ⟨.default, rfl⟩

theorem SqliteStore.holdsRegistry_empty {Text : Type} (J : SerdeJson Text) (epoch : String) :
    SqliteStore.HoldsRegistry J .empty (SqliteStore.Db.empty Text epoch) :=
  ⟨.empty epoch, Registry.wellFormed_empty, fun name => by
    cases hname : byName Registry.empty.records name with
    | none => rfl
    | some record =>
      obtain ⟨id, -, hid⟩ := byName_eq_some.mp hname
      cases hid⟩

theorem continuations_are_single_use :
    (ChainHistory MemoryStore.machine .default (fun ops =>
        (MemoryStore.machine.after ops .default).continuations.records.lookup) ∧
      Acp.ResumesOnce MemoryStore.machine .default) ∧
    ∀ {Text : Type} (J : SerdeJson Text) (epoch : String), J.Lawful →
      (∃ table, ChainHistory (SqliteStore.machine J) (SqliteStore.Db.empty Text epoch) table ∧
        ∀ ops, ((SqliteStore.machine J).after ops (SqliteStore.Db.empty Text epoch)).HoldsContinuations J
          (table ops)) ∧
      Acp.ResumesOnce (SqliteStore.machine J) (SqliteStore.Db.empty Text epoch) := by
  constructor
  · have hstart := MemoryStore.holdsRegistry_default
    have hhistory := MemoryStore.singleUse.chainHistory hstart chained_empty
    have htable : (fun ops => (registryAfter MemoryStore.machine ops .empty .default).records.lookup) =
        fun ops : List StoreOp => (fun id : ContinuationId =>
          (MemoryStore.machine.after ops .default).continuations.records.lookup id) := by
      funext ops
      rw [(MemoryStore.singleUse.holds_after hstart ops).2]
    rw [htable] at hhistory
    exact ⟨hhistory, Acp.resumesOnce MemoryStore.singleUse hstart⟩
  · intro Text J epoch hJ
    have hstore := SqliteStore.singleUse hJ
    have hstart := SqliteStore.holdsRegistry_empty J epoch
    refine ⟨⟨_, hstore.chainHistory hstart chained_empty, fun ops => ?_⟩,
      Acp.resumesOnce hstore hstart⟩
    exact (hstore.holds_after hstart ops).holdsContinuations

namespace Sample

def resumed : ContinuationId := ⟨"continuation", by decide⟩

def handoff : Continuation where
  id := resumed
  sessionId := ⟨"session", (rfl : false = false)⟩
  slotId := ⟨"slot", (rfl : false = false)⟩
  adapter := Acp.adapter
  scope := "account"
  nativeKey := "native"
  predecessor := none
  data := ⟨.null, (rfl : true = true)⟩

def handoffOps : List StoreOp :=
  [⟨.createSession handoff.sessionId⟩, ⟨.saveContinuation handoff⟩]

end Sample

theorem second_claim_fails :
    ((SqliteStore.machine SerdeJson.tree).exec (.claimContinuation Sample.resumed)
      ((SqliteStore.machine SerdeJson.tree).after Sample.handoffOps
        (SqliteStore.Db.empty Json "epoch"))).1 = .ok ⟨Sample.handoff, .claimed, true⟩ ∧
    ∃ e, ((SqliteStore.machine SerdeJson.tree).exec (.claimContinuation Sample.resumed)
      ((SqliteStore.machine SerdeJson.tree).after
        (Sample.handoffOps ++ [⟨.claimContinuation Sample.resumed⟩] ++ [])
        (SqliteStore.Db.empty Json "epoch"))).1 = .error e := by
  obtain ⟨⟨table, hhistory, -⟩, -⟩ :=
    continuations_are_single_use.2 SerdeJson.tree "epoch" SerdeJson.tree_lawful
  exact ⟨rfl, hhistory.once Sample.handoffOps [] Sample.resumed _ rfl⟩

end AgentBridge
