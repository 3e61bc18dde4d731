import AgentBridge.Host.Bindings

/-!
# Receipts of tool invocations

The receipts of a call and what it tells the application and the provider.  A call whose `returned`
receipt failed inserts `unknown` instead: either nothing of the first one is there, or the storage
thread of its binding refuses the second.
-/

namespace AgentBridge

open Reasoning

namespace Host

namespace Tools

variable {ν : Type}

/-- The receipt before the application is asked. -/
def dispatchReceipt (k : Nat) (call : Invocation ν) : Receipt ν :=
  ⟨k, .dispatchAttempted, .obj [("input", call.input)]⟩

/-- The receipt of the application's answer. -/
def returnedReceipt (k : Nat) (outcome : JsonTree ν) : Receipt ν :=
  ⟨k, .returned, .obj [("outcome", outcome)]⟩

/-- The first receipt of the call is persisted. -/
@[simp] def Phase.isDispatched : Phase ν → Bool
  | .dispatched => true
  | .prepared => true
  | .registered => true
  | .waiting => true
  | .received _ => true
  | .recording _ _ => true
  | .settled _ => true
  | _ => false

/-- The call has not yet inserted a `returned` receipt. -/
@[simp] def Phase.isUnanswered : Phase ν → Bool
  | .admitted => true
  | .dispatching _ => true
  | .dispatched => true
  | .prepared => true
  | .registered => true
  | .waiting => true
  | .received _ => true
  | _ => false

/-- The call may have inserted an `unknown` receipt. -/
@[simp] def Phase.isReported : Phase ν → Bool
  | .confirming _ _ => true
  | .releasing _ => true
  | .released _ => true
  | .returned _ => true
  | _ => false

/-- What the provider gets, once it is decided. -/
@[simp] def Phase.result : Phase ν → Option (ToolResult ν)
  | .closing result => some result
  | .unsettled result => some result
  | .retired result => some result
  | .retiring result => some result
  | .ended result => some result
  | .reporting result => some result
  | .confirming _ result => some result
  | .releasing result => some result
  | .released result => some result
  | .returned result => some result
  | _ => none

/-- An answer of the application. -/
@[simp] def ToolResult.isApplication : ToolResult ν → Bool
  | .value _ => true
  | .failed _ => true
  | _ => false

section CallEvidence

variable (storage : Storage.System Unit) (receipts : Nat → Option (Receipt ν)) (k : Nat)

/-- The receipt is in the store. -/
def Persisted (receipt : Receipt ν) : Prop :=
  ∃ c, receipts c = some receipt ∧ storage.Stored c

/-- `c` inserts a receipt of the call. -/
def Inserts (c : Nat) (state : ReceiptState) : Prop :=
  ∃ receipt, receipts c = some receipt ∧ receipt.call = k ∧ receipt.state = state

/-- The receipts of one call. -/
structure CallEvidence (call : Invocation ν) : Prop where
  unguarded : call.guard = none → ∀ c state, ¬Inserts receipts k c state
  dispatching : ∀ c, call.phase = .dispatching c → receipts c = some (dispatchReceipt k call)
  dispatched : call.phase.isDispatched = true → Persisted storage receipts (dispatchReceipt k call)
  unanswered : call.phase.isUnanswered = true → ∀ c, ¬Inserts receipts k c .returned
  recording : ∀ outcome c, call.phase = .recording outcome c →
    receipts c = some (returnedReceipt k outcome) ∧
      ∀ d, Inserts receipts k d .returned → d = c
  acknowledged : ∀ outcome, call.phase = .settled outcome → call.guard = some true
  settled : call.guard = some true → ∃ outcome,
    Persisted storage receipts (returnedReceipt k outcome) ∧
      (call.phase = .settled outcome ∨ call.phase.result = some (answer outcome))
  unsettled : call.guard = some false → (∀ outcome c, call.phase ≠ .recording outcome c) →
    ∀ c, Inserts receipts k c .returned → storage.HasFailed c
  unreported : call.guard = some true ∨ call.phase.isReported = false →
    ∀ c, ¬Inserts receipts k c .unknown
  results : ∀ result, call.phase.result = some result → result.isApplication = true →
    call.guard = some true
  once : ∀ c d state, state ≠ .dispatchAttempted → Inserts receipts k c state →
    Inserts receipts k d state → c = d
  exclusive : ∀ c d, Inserts receipts k c .returned → Inserts receipts k d .unknown →
    storage.Void c ∨ storage.Late d

end CallEvidence

/-- The receipts and the storage calls that insert them. -/
structure Hub.Recorded (h : Hub ν) : Prop where
  storage : h.storage.Sound
  begun : ∀ c receipt, h.receipts c = some receipt → (h.storage.calls c).phase ≠ .idle
  worker : ∀ c receipt bound, h.receipts c = some receipt →
    h.bindings (h.calls receipt.call).binding = some bound →
      (h.storage.calls c).worker = bound.worker
  calls : ∀ k, CallEvidence h.storage h.receipts k (h.calls k)
  emitted : ∀ k, .toolCall k ∈ h.emitted →
    (h.calls k).guard ≠ none ∧ Persisted h.storage h.receipts (dispatchReceipt k (h.calls k))

section Grow

variable {storage storage' : Storage.System Unit} {receipts receipts' : Nat → Option (Receipt ν)}
  {k : Nat} {call : Invocation ν}

/-- Storage moves on, and new receipts come from other calls. -/
structure Grows (storage storage' : Storage.System Unit)
    (receipts receipts' : Nat → Option (Receipt ν)) (other : Nat → Prop) : Prop where
  onward : storage.Onward storage'
  begun : ∀ c receipt, receipts c = some receipt → (storage.calls c).phase ≠ .idle
  kept : ∀ c receipt, receipts c = some receipt → receipts' c = some receipt
  added : ∀ c receipt, receipts' c = some receipt → other receipt.call →
    receipts c = some receipt

variable {other : Nat → Prop}

theorem Grows.persisted (hg : Grows storage storage' receipts receipts' other)
    {receipt : Receipt ν} (h : Persisted storage receipts receipt) :
    Persisted storage' receipts' receipt := by
  obtain ⟨c, hc, hstored⟩ := h
  exact ⟨c, hg.kept c receipt hc, hg.onward.stored (hg.begun c receipt hc) hstored⟩

theorem Grows.inserts (hg : Grows storage storage' receipts receipts' other) (hk : other k)
    {c : Nat} {state : ReceiptState} (h : Inserts receipts' k c state) :
    Inserts receipts k c state := by
  obtain ⟨receipt, hc, rfl, hstate⟩ := h
  exact ⟨receipt, hg.added c receipt hc hk, rfl, hstate⟩

theorem CallEvidence.grow (h : CallEvidence storage receipts k call)
    (hg : Grows storage storage' receipts receipts' other) (hk : other k) :
    CallEvidence storage' receipts' k call where
  unguarded := fun hguard c state hc => h.unguarded hguard c state (hg.inserts hk hc)
  dispatching := fun c hphase => hg.kept c _ (h.dispatching c hphase)
  dispatched := fun hphase => hg.persisted (h.dispatched hphase)
  unanswered := fun hphase c hc => h.unanswered hphase c (hg.inserts hk hc)
  recording := by
    intro outcome c hphase
    obtain ⟨hc, hunique⟩ := h.recording outcome c hphase
    exact ⟨hg.kept c _ hc, fun d hd => hunique d (hg.inserts hk hd)⟩
  acknowledged := h.acknowledged
  settled := by
    intro hguard
    obtain ⟨outcome, hpersisted, hphase⟩ := h.settled hguard
    exact ⟨outcome, hg.persisted hpersisted, hphase⟩
  unsettled := fun hguard hphase c hc =>
    hg.onward.hasFailed (h.unsettled hguard hphase c (hg.inserts hk hc))
  unreported := fun hphase c hc => h.unreported hphase c (hg.inserts hk hc)
  results := h.results
  once := fun c d state hstate hc hd =>
    h.once c d state hstate (hg.inserts hk hc) (hg.inserts hk hd)
  exclusive := by
    intro c d hc hd
    have hc' := hg.inserts hk hc
    obtain ⟨receipt, hreceipt, -, -⟩ := hc'
    rcases h.exclusive c d (hg.inserts hk hc) (hg.inserts hk hd) with hvoid | hlate
    · exact .inl (hg.onward.void (hg.begun c receipt hreceipt) hvoid)
    · exact .inr (hg.onward.late d hlate)

end Grow

/-! ## Steps of one call -/

section Moves

variable {storage : Storage.System Unit} {receipts : Nat → Option (Receipt ν)} {k : Nat}
  {call call' : Invocation ν}

/-- A call without receipts. -/
theorem CallEvidence.of_none (hnone : ∀ c state, ¬Inserts receipts k c state)
    (hguard : call.guard ≠ some true) (hdispatching : ∀ c, call.phase ≠ .dispatching c)
    (hdispatched : call.phase.isDispatched = false)
    (hresult : ∀ result, call.phase.result = some result → result.isApplication = false) :
    CallEvidence storage receipts k call where
  unguarded := fun _ => hnone
  dispatching := fun c hphase => absurd hphase (hdispatching c)
  dispatched := fun h => by rw [hdispatched] at h; cases h
  unanswered := fun _ c => hnone c .returned
  recording := fun _ _ hphase => by rw [hphase] at hdispatched; cases hdispatched
  acknowledged := fun _ hphase => by rw [hphase] at hdispatched; cases hdispatched
  settled := fun h => absurd h hguard
  unsettled := fun _ _ c hc => absurd hc (hnone c .returned)
  unreported := fun _ c => hnone c .unknown
  results := fun result h happlication => by
    rw [hresult result h] at happlication
    cases happlication
  once := fun c _ state _ hc _ => absurd hc (hnone c state)
  exclusive := fun c _ hc _ => absurd hc (hnone c .returned)

/-- A call that moves on without a storage call. -/
theorem CallEvidence.move (h : CallEvidence storage receipts k call)
    (hguard : call'.guard = call.guard) (hinput : call'.input = call.input)
    (hdispatching : ∀ c, call'.phase ≠ .dispatching c)
    (hdispatched : call'.phase.isDispatched = true → call.phase.isDispatched = true)
    (hunanswered : call'.phase.isUnanswered = true → call.phase.isUnanswered = true)
    (hrecording : ∀ outcome c, call'.phase ≠ .recording outcome c)
    (hacknowledged : ∀ outcome, call'.phase ≠ .settled outcome)
    (hsettled : call.guard = some true → (∀ outcome, call.phase ≠ .settled outcome) ∧
      call'.phase.result = call.phase.result)
    (hunsettled : (∀ outcome c, call.phase ≠ .recording outcome c))
    (hreported : call'.phase.isReported = false → call.phase.isReported = false)
    (hresults : ∀ result, call'.phase.result = some result → result.isApplication = true →
      call.guard = some true) : CallEvidence storage receipts k call' where
  unguarded := by
    rw [hguard]
    exact h.unguarded
  dispatching := fun c hphase => absurd hphase (hdispatching c)
  dispatched := by
    intro hphase
    have hpersisted := h.dispatched (hdispatched hphase)
    unfold dispatchReceipt at hpersisted ⊢
    rw [hinput]
    exact hpersisted
  unanswered := fun hphase => h.unanswered (hunanswered hphase)
  recording := fun outcome c hphase => absurd hphase (hrecording outcome c)
  acknowledged := fun outcome hphase => absurd hphase (hacknowledged outcome)
  settled := by
    intro h'
    rw [hguard] at h'
    obtain ⟨hphase, hresult⟩ := hsettled h'
    obtain ⟨outcome, hpersisted, hwas⟩ := h.settled h'
    refine ⟨outcome, hpersisted, .inr ?_⟩
    rw [hresult]
    exact hwas.resolve_left (hphase outcome)
  unsettled := by
    intro h' _
    rw [hguard] at h'
    exact h.unsettled h' hunsettled
  unreported := by
    intro h'
    rw [hguard] at h'
    exact h.unreported (h'.imp id hreported)
  results := by
    intro result hresult happlication
    rw [hguard]
    exact hresults result hresult happlication
  once := h.once
  exclusive := h.exclusive

end Moves

/-! ## Steps of the hub -/

section Hub

variable {numbers : Numbers ν} {h h' : Hub ν} {k storageCall : Nat} {bound : Bound}

theorem Hub.start_recorded (limit : Nat) : (Hub.start limit : Hub ν).Recorded where
  storage := Storage.System.start_sound limit
  begun := fun _ _ h => by cases h
  worker := fun _ _ _ h => by cases h
  calls := fun _ => .of_none (fun _ _ h => by obtain ⟨_, h, -⟩ := h; cases h) (fun h => by cases h)
    (fun _ h => by cases h) rfl (fun _ h => by cases h)
  emitted := fun _ h => by cases h

/-- The binding of a call with a receipt. -/
theorem Hub.Recorded.guard (hr : h.Recorded) {c : Nat} {receipt : Receipt ν}
    (hc : h.receipts c = some receipt) : (h.calls receipt.call).guard ≠ none :=
  fun hguard => (hr.calls receipt.call).unguarded hguard c receipt.state ⟨receipt, hc, rfl, rfl⟩

/-- One call moves, and with it perhaps the storage and the receipts of the call. -/
theorem Hub.Recorded.step (hr : h.Recorded) (hh : h.Consistent) (hf : h.Follows h')
    (hsound : h'.storage.Sound)
    (hgrows : Grows h.storage h'.storage h.receipts h'.receipts (· ≠ k))
    (hnew : ∀ c receipt, h'.receipts c = some receipt → h.receipts c = none →
      receipt.call = k ∧ (h'.storage.calls c).phase ≠ .idle ∧
        ∀ bound, h.bindings (h.calls k).binding = some bound →
          (h'.storage.calls c).worker = bound.worker)
    (hothers : ∀ j, j ≠ k → h'.calls j = h.calls j)
    (hkept : (h.calls k).guard ≠ none → (h'.calls k).binding = (h.calls k).binding ∧
      (h'.calls k).input = (h.calls k).input ∧ (h'.calls k).guard ≠ none)
    (hguarded : ∀ c receipt, h'.receipts c = some receipt → h.receipts c = none →
      (h.calls k).guard ≠ none)
    (hk : CallEvidence h'.storage h'.receipts k (h'.calls k))
    (hemitted : ∀ j, .toolCall j ∈ h'.emitted → .toolCall j ∈ h.emitted ∨
      j = k ∧ (h.calls k).guard ≠ none ∧
        Persisted h'.storage h'.receipts (dispatchReceipt k (h.calls k))) : h'.Recorded := by
  have hsame : ∀ j, (h.calls j).guard ≠ none → (h'.calls j).binding = (h.calls j).binding ∧
      (h'.calls j).input = (h.calls j).input ∧ (h'.calls j).guard ≠ none := by
    intro j hguard
    by_cases hjk : j = k
    · subst hjk
      exact hkept hguard
    · rw [hothers j hjk]
      exact ⟨rfl, rfl, hguard⟩
  -- the worker of a binding never changes
  have hworker : ∀ j bound', (h.calls j).guard ≠ none →
      h'.bindings (h'.calls j).binding = some bound' →
        ∃ bound, h.bindings (h.calls j).binding = some bound ∧ bound'.worker = bound.worker := by
    intro j bound' hguard hb'
    obtain ⟨bound, hb⟩ := Option.isSome_iff_exists.mp (hh.known j (.inr hguard))
    obtain ⟨bound'', hb'', hlater⟩ := hf.later _ bound hb
    rw [(hsame j hguard).1, hb''] at hb'
    obtain rfl := Option.some.inj hb'
    exact ⟨bound, hb, hlater.worker⟩
  exact {
    storage := hsound
    begun := by
      intro c receipt hc
      cases hold : h.receipts c with
      | none => exact (hnew c receipt hc hold).2.1
      | some old => exact (hgrows.onward.begun c (hr.begun c old hold)).2
    worker := by
      intro c receipt bound' hc hb'
      cases hold : h.receipts c with
      | none =>
        obtain ⟨hcall, -, hnewWorker⟩ := hnew c receipt hc hold
        have hguard := hguarded c receipt hc hold
        rw [hcall] at hb'
        obtain ⟨bound, hb, hsameWorker⟩ := hworker k bound' hguard hb'
        rw [hsameWorker]
        exact hnewWorker bound hb
      | some old =>
        have hkeptReceipt := hgrows.kept c old hold
        obtain rfl : receipt = old := Option.some.inj (hc.symm.trans hkeptReceipt)
        obtain ⟨bound, hb, hsameWorker⟩ := hworker receipt.call bound' (hr.guard hold) hb'
        rw [hsameWorker, (hgrows.onward.begun c (hr.begun c receipt hold)).1]
        exact hr.worker c receipt bound hold hb
    calls := by
      intro j
      by_cases hjk : j = k
      · subst hjk
        exact hk
      · rw [hothers j hjk]
        exact (hr.calls j).grow hgrows hjk
    emitted := by
      intro j hj
      rcases hemitted j hj with hold | ⟨rfl, hguard, hpersisted⟩
      · obtain ⟨hguard, hpersisted⟩ := hr.emitted j hold
        obtain ⟨-, hinput, hguard'⟩ := hsame j hguard
        have hpersisted' := hgrows.persisted hpersisted
        unfold dispatchReceipt at hpersisted' ⊢
        rw [hinput]
        exact ⟨hguard', hpersisted'⟩
      · obtain ⟨-, hinput, hguard'⟩ := hsame j hguard
        unfold dispatchReceipt at hpersisted ⊢
        rw [hinput]
        exact ⟨hguard', hpersisted⟩ }

theorem Grows.refl (hr : h.Recorded) (other : Nat → Prop) :
    Grows h.storage h.storage h.receipts h.receipts other where
  onward := .refl h.storage
  begun := hr.begun
  kept := fun _ _ hc => hc
  added := fun _ _ hc _ => hc

/-- One call moves, without a storage call. -/
theorem Hub.Recorded.setCall (hr : h.Recorded) (hh : h.Consistent) (hf : h.Follows h')
    {call : Invocation ν} (hstorage : h'.storage = h.storage) (hreceipts : h'.receipts = h.receipts)
    (hcalls : h'.calls = Function.update h.calls k call)
    (hkept : (h.calls k).guard ≠ none → call.binding = (h.calls k).binding ∧
      call.input = (h.calls k).input ∧ call.guard ≠ none)
    (hk : CallEvidence h.storage h.receipts k call)
    (hemitted : ∀ j, .toolCall j ∈ h'.emitted → .toolCall j ∈ h.emitted ∨
      j = k ∧ (h.calls k).guard ≠ none ∧
        Persisted h.storage h.receipts (dispatchReceipt k (h.calls k))) : h'.Recorded := by
  have hnone : ∀ c receipt, h'.receipts c = some receipt → h.receipts c ≠ none := by
    intro c receipt hc
    rw [hreceipts] at hc
    rw [hc]
    simp
  have hself : h'.calls k = call := by rw [hcalls, Function.update_self]
  refine hr.step (k := k) hh hf (hstorage ▸ hr.storage) ?_ ?_ ?_ ?_ ?_ ?_ ?_
  · rw [hstorage, hreceipts]
    exact .refl hr _
  · exact fun c receipt hc hold => absurd hold (hnone c receipt hc)
  · intro j hjk
    rw [hcalls, Function.update_of_ne hjk]
  · rw [hself]
    exact hkept
  · exact fun c receipt hc hold => absurd hold (hnone c receipt hc)
  · rw [hstorage, hreceipts, hself]
    exact hk
  · rw [hstorage, hreceipts]
    exact hemitted

/-- A call without a guard moves. -/
theorem Hub.Recorded.early (hr : h.Recorded) (hh : h.Consistent) (hf : h.Follows h')
    (hguard : (h.calls k).guard = none) {call : Invocation ν} (hstorage : h'.storage = h.storage)
    (hreceipts : h'.receipts = h.receipts) (hcalls : h'.calls = Function.update h.calls k call)
    (hemitted : h'.emitted = h.emitted) (hsettled : call.guard ≠ some true)
    (hdispatching : ∀ c, call.phase ≠ .dispatching c)
    (hdispatched : call.phase.isDispatched = false)
    (hresult : ∀ result, call.phase.result = some result → result.isApplication = false) :
    h'.Recorded := by
  apply hr.setCall hh hf hstorage hreceipts hcalls
  · exact fun h' => absurd hguard h'
  · exact .of_none ((hr.calls k).unguarded hguard) hsettled hdispatching hdispatched hresult
  · intro j hj
    rw [hemitted] at hj
    exact .inl hj

theorem lookup_recorded (hr : h.Recorded) (hh : h.Consistent)
    (hnext : lookup numbers h k (h.calls k) = some h') : h'.Recorded := by
  have hf := lookup_follows hh hnext
  unfold lookup at hnext
  split at hnext
  · next hphase =>
    have hguard := (hh.calls k).early (by rw [hphase]; rfl)
    have hunsettled : (h.calls k).guard ≠ some true := by rw [hguard]; simp
    split at hnext
    · obtain rfl := Option.some.inj hnext
      apply hr.early hh hf hguard rfl rfl rfl rfl hunsettled <;> simp
    · split at hnext
      · obtain rfl := Option.some.inj hnext
        apply hr.early hh hf hguard rfl rfl rfl rfl hunsettled <;> simp
      · obtain rfl := Option.some.inj hnext
        apply hr.early hh hf hguard rfl rfl rfl rfl hunsettled <;> simp
  · cases hnext

theorem admit_recorded (hr : h.Recorded) (hh : h.Consistent)
    (hb : h.bindings (h.calls k).binding = some bound)
    (hnext : admitCall h k (h.calls k) bound = some h') : h'.Recorded := by
  have hf := admit_follows hh hb hnext
  unfold admitCall at hnext
  split at hnext
  · next hphase =>
    have hguard := (hh.calls k).early (by rw [hphase]; rfl)
    have hunsettled : (h.calls k).guard ≠ some true := by rw [hguard]; simp
    split at hnext
    · split at hnext
      · obtain rfl := Option.some.inj hnext
        apply hr.early hh hf hguard rfl rfl rfl rfl hunsettled <;> simp
      · obtain rfl := Option.some.inj hnext
        apply hr.early hh hf hguard rfl rfl rfl rfl hunsettled <;> simp
    · cases hnext
  · next hphase =>
    have hguard := (hh.calls k).early (by rw [hphase]; rfl)
    have hunsettled : (h.calls k).guard ≠ some true := by rw [hguard]; simp
    split at hnext
    · obtain rfl := Option.some.inj hnext
      apply hr.early hh hf hguard rfl rfl rfl rfl hunsettled <;> simp
    · obtain rfl := Option.some.inj hnext
      apply hr.early hh hf hguard rfl rfl rfl rfl hunsettled <;> simp
  · next hphase =>
    have hguard := (hh.calls k).early (by rw [hphase]; rfl)
    have hunsettled : (h.calls k).guard ≠ some true := by rw [hguard]; simp
    split at hnext
    · obtain rfl := Option.some.inj hnext
      apply hr.early hh hf hguard rfl rfl rfl rfl hunsettled <;> simp
    · obtain rfl := Option.some.inj hnext
      apply hr.early hh hf hguard rfl rfl rfl rfl hunsettled <;> simp
  · next hphase =>
    have hguard := (hh.calls k).early (by rw [hphase]; rfl)
    have hunsettled : (h.calls k).guard ≠ some true := by rw [hguard]; simp
    split at hnext
    · obtain rfl := Option.some.inj hnext
      apply hr.early hh hf hguard rfl rfl rfl rfl <;> simp
    · obtain rfl := Option.some.inj hnext
      apply hr.early hh hf hguard rfl rfl rfl rfl hunsettled <;> simp
  · cases hnext

/-- The insert of a receipt by a call. -/
theorem Hub.Recorded.insert (hr : h.Recorded) (hh : h.Consistent) (hf : h.Follows h')
    (hb : h.bindings (h.calls k).binding = some bound) (hguard : (h.calls k).guard ≠ none)
    {storage : Storage.System Unit} {receipt : Receipt ν} {phase : Phase ν}
    (hnone : h.receipts storageCall = none)
    (hstorage : Storage.next h.storage (.call storageCall bound.worker) = some storage)
    (hcall : receipt.call = k)
    (hh' : h' = { h with
      storage
      receipts := Function.update h.receipts storageCall (some receipt)
      calls := Function.update h.calls k { h.calls k with phase } })
    (hk : CallEvidence storage (Function.update h.receipts storageCall (some receipt)) k
      { h.calls k with phase }) : h'.Recorded := by
  obtain ⟨-, hcalled, hworker⟩ := Storage.call_begun hstorage
  have hnew : ∀ c r, Function.update h.receipts storageCall (some receipt) c = some r →
      h.receipts c = none → c = storageCall ∧ r = receipt := by
    intro c r hc hold
    by_cases hcs : c = storageCall
    · subst hcs
      rw [Function.update_self] at hc
      exact ⟨rfl, (Option.some.inj hc).symm⟩
    · rw [Function.update_of_ne hcs, hold] at hc
      cases hc
  subst hh'
  refine hr.step (k := k) hh hf (Storage.next_follows hr.storage hstorage).sound ?_ ?_ ?_ ?_ ?_ ?_ ?_
  · exact {
      onward := Storage.next_onward hr.storage hstorage
      begun := hr.begun
      kept := by
        intro c r hc
        have hcs : c ≠ storageCall := by
          rintro rfl
          rw [hnone] at hc
          cases hc
        simp only [Function.update_of_ne hcs]
        exact hc
      added := by
        intro c r hc hother
        by_cases hcs : c = storageCall
        · subst hcs
          simp only [Function.update_self] at hc
          obtain rfl := Option.some.inj hc
          exact absurd hcall hother
        · simp only [Function.update_of_ne hcs] at hc
          exact hc }
  · intro c r hc hold
    obtain ⟨rfl, rfl⟩ := hnew c r hc hold
    refine ⟨hcall, by rw [hcalled]; simp, ?_⟩
    intro other hother
    obtain rfl : bound = other := Option.some.inj (hb.symm.trans hother)
    exact hworker
  · intro j hjk
    exact Function.update_of_ne hjk _ _
  · intro _
    simp only [Function.update_self]
    exact ⟨trivial, trivial, hguard⟩
  · exact fun _ _ _ _ => hguard
  · simp only [Function.update_self]
    exact hk
  · exact fun j hj => .inl hj

theorem Hub.Recorded.inserted_ok (hr : h.Recorded) {c : Nat}
    (hc : h.inserted c = some (.ok ())) : h.storage.Stored c := by
  unfold Hub.inserted at hc
  split at hc
  · next outcome hreturned => exact hr.storage.stored hreturned (Option.some.inj hc)
  · cases hc

theorem inserted_error {c : Nat} {e : StoreError} (hc : h.inserted c = some (.error e)) :
    h.storage.HasFailed c := by
  unfold Hub.inserted at hc
  split at hc
  · next outcome hreturned => exact ⟨outcome, e, hreturned, Option.some.inj hc⟩
  · cases hc

theorem inserts_update {receipt : Receipt ν} {c : Nat} {state : ReceiptState}
    (hc : Inserts (Function.update h.receipts storageCall (some receipt)) k c state) :
    (c = storageCall ∧ receipt.state = state) ∨ Inserts h.receipts k c state := by
  obtain ⟨r, hr, hcall, hstate⟩ := hc
  by_cases hcs : c = storageCall
  · subst hcs
    rw [Function.update_self] at hr
    obtain rfl := Option.some.inj hr
    exact .inl ⟨rfl, hstate⟩
  · rw [Function.update_of_ne hcs] at hr
    exact .inr ⟨r, hr, hcall, hstate⟩

/-- A call in service has a guard that is not settled. -/
theorem Hub.Recorded.serving (hr : h.Recorded) (hh : h.Consistent)
    (hholds : (h.calls k).phase.holds = true) (hresult : (h.calls k).phase.result = none)
    (hsettled : ∀ outcome, (h.calls k).phase ≠ .settled outcome) :
    (h.calls k).guard = some false := by
  cases hguard : (h.calls k).guard with
  | none => exact absurd hguard ((hh.calls k).guarded hholds)
  | some settled =>
    cases settled with
    | false => rfl
    | true =>
      obtain ⟨outcome, -, hphase⟩ := (hr.calls k).settled hguard
      rcases hphase with hphase | hphase
      · exact absurd hphase (hsettled outcome)
      · rw [hresult] at hphase
        cases hphase

/-- The first receipt is inserted. -/
theorem dispatch_evidence (hr : h.Recorded) (hh : h.Consistent)
    {storage : Storage.System Unit} (hphase : (h.calls k).phase = .admitted) :
    CallEvidence storage
      (Function.update h.receipts storageCall (some (dispatchReceipt k (h.calls k)))) k
      { h.calls k with phase := .dispatching storageCall } := by
  have hold := hr.calls k
  have hguard := hr.serving hh (by rw [hphase]; rfl) (by rw [hphase]; rfl) (by rw [hphase]; simp)
  have hreturned : ∀ c, ¬Inserts (Function.update h.receipts storageCall
      (some (dispatchReceipt k (h.calls k)))) k c .returned := by
    intro c hc
    rcases inserts_update hc with ⟨-, hstate⟩ | hc
    · cases hstate
    · exact hold.unanswered (by rw [hphase]; rfl) c hc
  exact {
    unguarded := by
      intro hnone
      rw [hguard] at hnone
      cases hnone
    dispatching := by
      intro c hc
      obtain rfl := Phase.dispatching.inj hc
      exact Function.update_self _ _ _
    dispatched := fun h' => by cases h'
    unanswered := fun _ => hreturned
    recording := fun _ _ h' => by cases h'
    acknowledged := fun _ h' => by cases h'
    settled := by
      intro h'
      rw [hguard] at h'
      cases h'
    unsettled := fun _ _ c hc => absurd hc (hreturned c)
    unreported := by
      intro _ c hc
      rcases inserts_update hc with ⟨-, hstate⟩ | hc
      · cases hstate
      · exact hold.unreported (.inr (by rw [hphase]; rfl)) c hc
    results := fun _ h' => by cases h'
    once := by
      intro c d state hother hc hd
      rcases inserts_update hc with ⟨-, hstate⟩ | hc
      · exact absurd hstate.symm hother
      · rcases inserts_update hd with ⟨-, hstate⟩ | hd
        · exact absurd hstate.symm hother
        · exact hold.once c d state hother hc hd
    exclusive := fun c _ hc _ => absurd hc (hreturned c) }

/-- The answer of the application is inserted. -/
theorem record_evidence (hr : h.Recorded) (hh : h.Consistent) {storage : Storage.System Unit}
    {outcome : JsonTree ν} (hphase : (h.calls k).phase = .received outcome)
    (hpersisted : Persisted storage
      (Function.update h.receipts storageCall (some (returnedReceipt k outcome)))
      (dispatchReceipt k (h.calls k))) :
    CallEvidence storage
      (Function.update h.receipts storageCall (some (returnedReceipt k outcome))) k
      { h.calls k with phase := .recording outcome storageCall } := by
  have hold := hr.calls k
  have hguard := hr.serving hh (by rw [hphase]; rfl) (by rw [hphase]; rfl) (by rw [hphase]; simp)
  have hunknown : ∀ c, ¬Inserts (Function.update h.receipts storageCall
      (some (returnedReceipt k outcome))) k c .unknown := by
    intro c hc
    rcases inserts_update hc with ⟨-, hstate⟩ | hc
    · cases hstate
    · exact hold.unreported (.inr (by rw [hphase]; rfl)) c hc
  have honly : ∀ c, Inserts (Function.update h.receipts storageCall
      (some (returnedReceipt k outcome))) k c .returned → c = storageCall := by
    intro c hc
    rcases inserts_update hc with ⟨rfl, -⟩ | hc
    · rfl
    · exact absurd hc (hold.unanswered (by rw [hphase]; rfl) c)
  exact {
    unguarded := by
      intro hnone
      rw [hguard] at hnone
      cases hnone
    dispatching := fun _ h' => by cases h'
    dispatched := fun _ => hpersisted
    unanswered := fun h' => by cases h'
    recording := by
      intro o c h'
      obtain ⟨rfl, rfl⟩ := Phase.recording.inj h'
      exact ⟨Function.update_self _ _ _, honly⟩
    acknowledged := fun _ h' => by cases h'
    settled := by
      intro h'
      rw [hguard] at h'
      cases h'
    unsettled := fun _ h' => absurd rfl (h' outcome storageCall)
    unreported := fun _ => hunknown
    results := fun _ h' => by cases h'
    once := by
      intro c d state hother hc hd
      cases state with
      | dispatchAttempted => exact absurd rfl hother
      | returned => rw [honly c hc, honly d hd]
      | unknown => exact absurd hc (hunknown c)
    exclusive := fun _ d _ hd => absurd hd (hunknown d) }

/-- `unknown` is inserted after all: what failed before left nothing, or its storage thread refuses
this receipt. -/
theorem report_evidence (hr : h.Recorded) (hh : h.Consistent)
    (hb : h.bindings (h.calls k).binding = some bound) {storage : Storage.System Unit}
    {result : ToolResult ν} {receipt : Receipt ν} (hphase : (h.calls k).phase = .reporting result)
    (hstorage : Storage.next h.storage (.call storageCall bound.worker) = some storage)
    (hstate : receipt.state = .unknown) :
    CallEvidence storage (Function.update h.receipts storageCall (some receipt)) k
      { h.calls k with phase := .confirming storageCall result } := by
  have hold := hr.calls k
  have honward := Storage.next_onward hr.storage hstorage
  have hguard := (hh.calls k).unsettled (by rw [hphase]; rfl)
  have hreturned : ∀ {c}, Inserts (Function.update h.receipts storageCall (some receipt)) k c
      .returned → Inserts h.receipts k c .returned := by
    intro c hc
    rcases inserts_update hc with ⟨-, h'⟩ | hc
    · rw [hstate] at h'
      cases h'
    · exact hc
  have hfailed : ∀ c, Inserts h.receipts k c .returned → h.storage.HasFailed c :=
    hold.unsettled hguard (by rw [hphase]; simp)
  have honly : ∀ d, Inserts (Function.update h.receipts storageCall (some receipt)) k d .unknown →
      d = storageCall := by
    intro d hd
    rcases inserts_update hd with ⟨rfl, -⟩ | hd
    · rfl
    · exact absurd hd (hold.unreported (.inr (by rw [hphase]; rfl)) d)
  exact {
    unguarded := by
      intro hnone
      rw [hguard] at hnone
      cases hnone
    dispatching := fun _ h' => by cases h'
    dispatched := fun h' => by cases h'
    unanswered := fun h' => by cases h'
    recording := fun _ _ h' => by cases h'
    acknowledged := fun _ h' => by cases h'
    settled := by
      intro h'
      rw [hguard] at h'
      cases h'
    unsettled := fun _ _ c hc => honward.hasFailed (hfailed c (hreturned hc))
    unreported := by
      intro h'
      rw [hguard] at h'
      rcases h' with h' | h'
      · cases h'
      · cases h'
    results := fun r hr' => hold.results r (by rw [hphase]; exact hr')
    once := by
      intro c d state hother hc hd
      cases state with
      | dispatchAttempted => exact absurd rfl hother
      | returned => exact hold.once c d .returned hother (hreturned hc) (hreturned hd)
      | unknown => rw [honly c hc, honly d hd]
    exclusive := by
      intro c d hc hd
      have hwas := hreturned hc
      have hreceipt := hwas
      obtain ⟨returned, hreceipt, hcall, -⟩ := hreceipt
      obtain rfl := honly d hd
      rcases (hfailed c hwas).void_or_broken hr.storage with hvoid | ⟨w, hw, hbroken⟩
      · exact .inl (honward.void (hr.begun c returned hreceipt) hvoid)
      · have hworker := hr.worker c returned bound hreceipt (by rw [hcall]; exact hb)
        rw [hworker] at hw
        exact .inr (Storage.call_late hw hbroken hstorage) }

/-- A call in service moves on without a storage call. -/
theorem Hub.Recorded.serveMove (hr : h.Recorded) (hh : h.Consistent) (hf : h.Follows h')
    (hholds : (h.calls k).phase.holds = true) (hnone : (h.calls k).phase.result = none)
    (hunsettled : ∀ outcome, (h.calls k).phase ≠ .settled outcome)
    (hunrecorded : ∀ outcome c, (h.calls k).phase ≠ .recording outcome c)
    (hunreported : (h.calls k).phase.isReported = false)
    {call : Invocation ν} (hstorage : h'.storage = h.storage) (hreceipts : h'.receipts = h.receipts)
    (hcalls : h'.calls = Function.update h.calls k call)
    (hbinding : call.binding = (h.calls k).binding) (hinput : call.input = (h.calls k).input)
    (hguard : call.guard = (h.calls k).guard) (hdispatching : ∀ c, call.phase ≠ .dispatching c)
    (hdispatched : call.phase.isDispatched = true → (h.calls k).phase.isDispatched = true)
    (hunanswered : call.phase.isUnanswered = true → (h.calls k).phase.isUnanswered = true)
    (hrecording : ∀ outcome c, call.phase ≠ .recording outcome c)
    (hacknowledged : ∀ outcome, call.phase ≠ .settled outcome)
    (hresults : ∀ result, call.phase.result = some result → result.isApplication = false)
    (hemitted : ∀ j, .toolCall j ∈ h'.emitted → .toolCall j ∈ h.emitted ∨
      j = k ∧ (h.calls k).guard ≠ none ∧
        Persisted h.storage h.receipts (dispatchReceipt k (h.calls k))) : h'.Recorded := by
  have hfalse := hr.serving hh hholds hnone hunsettled
  apply hr.setCall hh hf hstorage hreceipts hcalls _ _ hemitted
  · intro hsome
    exact ⟨hbinding, hinput, by rw [hguard]; exact hsome⟩
  · apply (hr.calls k).move hguard hinput hdispatching hdispatched hunanswered hrecording
      hacknowledged
    · intro htrue
      rw [hfalse] at htrue
      cases htrue
    · exact hunrecorded
    · exact fun _ => hunreported
    · intro result hresult happlication
      rw [hresults result hresult] at happlication
      cases happlication

theorem serve_recorded (hr : h.Recorded) (hh : h.Consistent)
    (hb : h.bindings (h.calls k).binding = some bound)
    (hnext : serve h k storageCall (h.calls k) bound = some h') : h'.Recorded := by
  have hf := serve_follows hh hnext
  have hold := hr.calls k
  have hquiet : ∀ j, .toolCall j ∈ h.emitted → .toolCall j ∈ h.emitted ∨
      j = k ∧ (h.calls k).guard ≠ none ∧
        Persisted h.storage h.receipts (dispatchReceipt k (h.calls k)) := fun j hj => .inl hj
  unfold serve at hnext
  split at hnext
  · next hphase =>
    have hguard := hr.serving hh (by rw [hphase]; rfl) (by rw [hphase]; rfl) (by rw [hphase]; simp)
    obtain ⟨mid, hmid, hnext⟩ := Option.bind_eq_some_iff.mp hnext
    obtain ⟨hnone, storage, hstorage, rfl⟩ := insertReceipt_eq hmid
    obtain rfl := Option.some.inj hnext
    exact hr.insert hh hf hb (by rw [hguard]; simp) hnone hstorage rfl rfl
      (dispatch_evidence hr hh hphase)
  · next receipt hphase =>
    have hguard := hr.serving hh (by rw [hphase]; rfl) (by rw [hphase]; rfl) (by rw [hphase]; simp)
    split at hnext
    · cases hnext
    · obtain rfl := Option.some.inj hnext
      apply hr.serveMove hh hf (by rw [hphase]; rfl) (by rw [hphase]; rfl) (by rw [hphase]; simp)
        (by rw [hphase]; simp) (by rw [hphase]; rfl) rfl rfl rfl rfl rfl rfl <;> simp
      exact hquiet
    · next hinserted =>
      obtain rfl := Option.some.inj hnext
      apply hr.setCall hh hf rfl rfl rfl (fun hsome => ⟨rfl, rfl, hsome⟩) _ hquiet
      have hunanswered := hold.unanswered (by rw [hphase]; rfl)
      exact { hold with
        dispatching := fun _ h' => by cases h'
        dispatched := fun _ => ⟨receipt, hold.dispatching receipt hphase, hr.inserted_ok hinserted⟩
        unanswered := fun _ => hunanswered
        recording := fun _ _ h' => by cases h'
        acknowledged := fun _ h' => by cases h'
        settled := by
          intro h'
          simp only [hguard] at h'
          cases h'
        unsettled := fun _ _ c hc => absurd hc (hunanswered c)
        unreported := fun _ => hold.unreported (.inr (by rw [hphase]; rfl))
        results := fun _ h' => by cases h' }
  · next hphase =>
    split at hnext
    · obtain rfl := Option.some.inj hnext
      apply hr.serveMove hh hf (by rw [hphase]; rfl) (by rw [hphase]; rfl) (by rw [hphase]; simp)
        (by rw [hphase]; simp) (by rw [hphase]; rfl) rfl rfl rfl rfl rfl rfl <;> simp
      exact hquiet
    · obtain rfl := Option.some.inj hnext
      apply hr.serveMove hh hf (by rw [hphase]; rfl) (by rw [hphase]; rfl) (by rw [hphase]; simp)
        (by rw [hphase]; simp) (by rw [hphase]; rfl) rfl rfl rfl rfl rfl rfl <;> simp [hphase]
      exact hquiet
  · next hphase =>
    obtain rfl := Option.some.inj hnext
    apply hr.serveMove hh hf (by rw [hphase]; rfl) (by rw [hphase]; rfl) (by rw [hphase]; simp)
      (by rw [hphase]; simp) (by rw [hphase]; rfl) rfl rfl rfl rfl rfl rfl <;> simp [hphase]
    exact hquiet
  · next hphase =>
    have hguard := hr.serving hh (by rw [hphase]; rfl) (by rw [hphase]; rfl) (by rw [hphase]; simp)
    have hpersisted := hold.dispatched (by rw [hphase]; rfl)
    obtain rfl := Option.some.inj hnext
    apply hr.serveMove hh hf (by rw [hphase]; rfl) (by rw [hphase]; rfl) (by rw [hphase]; simp)
      (by rw [hphase]; simp) (by rw [hphase]; rfl) rfl rfl rfl rfl rfl rfl <;> simp [hphase]
    intro j hj
    rcases List.mem_append.mp hj with hj | hj
    · exact .inl hj
    · obtain rfl := Emitted.toolCall.inj (List.mem_singleton.mp hj)
      exact .inr ⟨rfl, by rw [hguard]; simp, hpersisted⟩
  · next hphase =>
    split at hnext
    · obtain rfl := Option.some.inj hnext
      apply hr.serveMove hh hf (by rw [hphase]; rfl) (by rw [hphase]; rfl) (by rw [hphase]; simp)
        (by rw [hphase]; simp) (by rw [hphase]; rfl) rfl rfl rfl rfl rfl rfl <;> simp
      exact hquiet
    · split at hnext
      · obtain rfl := Option.some.inj hnext
        apply hr.serveMove hh hf (by rw [hphase]; rfl) (by rw [hphase]; rfl) (by rw [hphase]; simp)
          (by rw [hphase]; simp) (by rw [hphase]; rfl) rfl rfl rfl rfl rfl rfl <;> simp [hphase]
        exact hquiet
      · cases hnext
  · next outcome hphase =>
    have hguard := hr.serving hh (by rw [hphase]; rfl) (by rw [hphase]; rfl) (by rw [hphase]; simp)
    obtain ⟨mid, hmid, hnext⟩ := Option.bind_eq_some_iff.mp hnext
    obtain ⟨hnone, storage, hstorage, rfl⟩ := insertReceipt_eq hmid
    obtain rfl := Option.some.inj hnext
    apply hr.insert hh hf hb (by rw [hguard]; simp) hnone hstorage rfl rfl
    apply record_evidence hr hh hphase
    obtain ⟨c, hc, hstored⟩ := hold.dispatched (by rw [hphase]; rfl)
    have hcs : c ≠ storageCall := by
      rintro rfl
      rw [hnone] at hc
      cases hc
    exact ⟨c, by rw [Function.update_of_ne hcs]; exact hc,
      (Storage.next_onward hr.storage hstorage).stored (hr.begun c _ hc) hstored⟩
  · next outcome receipt hphase =>
    have hguard := hr.serving hh (by rw [hphase]; rfl) (by rw [hphase]; rfl) (by rw [hphase]; simp)
    obtain ⟨hreceipt, hunique⟩ := hold.recording outcome receipt hphase
    have hunknown := hold.unreported (.inr (by rw [hphase]; rfl))
    split at hnext
    · cases hnext
    · next hinserted =>
      obtain rfl := Option.some.inj hnext
      apply hr.setCall hh hf rfl rfl rfl (fun hsome => ⟨rfl, rfl, hsome⟩) _ hquiet
      exact { hold with
        dispatching := fun _ h' => by cases h'
        dispatched := fun h' => by cases h'
        unanswered := fun h' => by cases h'
        recording := fun _ _ h' => by cases h'
        acknowledged := fun _ h' => by cases h'
        settled := by
          intro h'
          simp only [hguard] at h'
          cases h'
        unsettled := by
          intro _ _ c hc
          rw [hunique c hc]
          exact inserted_error hinserted
        unreported := fun _ => hunknown
        results := by
          intro result hresult happlication
          obtain rfl := Option.some.inj hresult
          cases happlication }
    · next hinserted =>
      obtain rfl := Option.some.inj hnext
      apply hr.setCall hh hf rfl rfl rfl (fun _ => ⟨rfl, rfl, by simp⟩) _ hquiet
      exact { hold with
        unguarded := fun h' => by cases h'
        dispatching := fun _ h' => by cases h'
        dispatched := fun _ => hold.dispatched (by rw [hphase]; rfl)
        unanswered := fun h' => by cases h'
        recording := fun _ _ h' => by cases h'
        acknowledged := fun _ _ => rfl
        settled := fun _ => ⟨outcome, ⟨receipt, hreceipt, hr.inserted_ok hinserted⟩, .inl rfl⟩
        unsettled := fun h' => by cases h'
        unreported := fun _ => hunknown
        results := fun _ h' => by cases h' }
  · next outcome hphase =>
    obtain rfl := Option.some.inj hnext
    apply hr.setCall hh hf rfl rfl rfl (fun hsome => ⟨rfl, rfl, hsome⟩) _ hquiet
    have hguard := hold.acknowledged outcome hphase
    exact { hold with
      dispatching := fun _ h' => by cases h'
      dispatched := fun h' => by cases h'
      unanswered := fun h' => by cases h'
      recording := fun _ _ h' => by cases h'
      acknowledged := fun _ h' => by cases h'
      settled := by
        intro _
        obtain ⟨recorded, hpersisted, hwas⟩ := hold.settled hguard
        rw [hphase] at hwas
        rcases hwas with hwas | hwas
        · obtain rfl := Phase.settled.inj hwas
          exact ⟨outcome, hpersisted, .inr rfl⟩
        · cases hwas
      unsettled := by
        intro h'
        simp only [hguard] at h'
        cases h'
      unreported := fun _ => hold.unreported (.inl hguard)
      results := fun _ _ _ => hguard }
  · cases hnext

/-- The drop of a guard goes on with the same result. -/
theorem Hub.Recorded.closeMove (hr : h.Recorded) (hh : h.Consistent) (hf : h.Follows h')
    {phase : Phase ν} (hstorage : h'.storage = h.storage) (hreceipts : h'.receipts = h.receipts)
    (hcalls : h'.calls = Function.update h.calls k { h.calls k with phase })
    (hemitted : ∀ j, .toolCall j ∈ h'.emitted → .toolCall j ∈ h.emitted)
    (hresult : phase.result = (h.calls k).phase.result)
    (hwas : (h.calls k).phase.result ≠ none) (hreported : phase.isReported = false →
      (h.calls k).phase.isReported = false) : h'.Recorded := by
  have hold := hr.calls k
  have hother : ∀ {phase' : Phase ν}, phase'.result ≠ none →
      (∀ outcome c, phase' ≠ .recording outcome c) ∧ (∀ outcome, phase' ≠ .settled outcome) ∧
        (∀ c, phase' ≠ .dispatching c) ∧ phase'.isDispatched = false ∧
          phase'.isUnanswered = false := by
    intro phase' hsome
    cases phase' <;> simp_all
  obtain ⟨hrecording, hsettled, -, -, -⟩ := hother hwas
  obtain ⟨hrecording', hsettled', hdispatching', hdispatched', hunanswered'⟩ :=
    hother (hresult ▸ hwas)
  have hk : CallEvidence h.storage h.receipts k { h.calls k with phase } := by
    refine hold.move rfl rfl hdispatching' ?_ ?_ hrecording' hsettled' (fun _ => ⟨hsettled, hresult⟩)
      hrecording hreported ?_
    · intro h'
      simp only [hdispatched'] at h'
      cases h'
    · intro h'
      simp only [hunanswered'] at h'
      cases h'
    · intro result hr' happlication
      exact hold.results result (hresult ▸ hr') happlication
  exact hr.setCall hh hf hstorage hreceipts hcalls (fun hsome => ⟨rfl, rfl, hsome⟩) hk
    fun j hj => .inl (hemitted j hj)

theorem close_recorded (hr : h.Recorded) (hh : h.Consistent)
    (hb : h.bindings (h.calls k).binding = some bound)
    (hnext : close h k storageCall (h.calls k) bound = some h') : h'.Recorded := by
  have hf := close_follows hh hb hnext
  unfold close at hnext
  split at hnext
  · next result hphase =>
    split at hnext
    · obtain rfl := Option.some.inj hnext
      apply hr.closeMove hh hf rfl rfl rfl (fun _ hj => hj) <;> simp [hphase]
    · obtain rfl := Option.some.inj hnext
      apply hr.closeMove hh hf rfl rfl rfl (fun _ hj => hj) <;> simp [hphase]
  · next result hphase =>
    obtain rfl := Option.some.inj hnext
    apply hr.closeMove hh hf rfl rfl rfl (fun _ hj => hj) <;> simp [hphase]
  · next result hphase =>
    obtain rfl := Option.some.inj hnext
    apply hr.closeMove hh hf rfl rfl rfl (fun _ hj => hj) <;> simp [hphase]
  · next result hphase =>
    split at hnext
    · split at hnext
      · obtain rfl := Option.some.inj hnext
        apply hr.closeMove hh hf rfl rfl rfl (fun _ hj => hj) <;> simp [hphase]
      · obtain rfl := Option.some.inj hnext
        apply hr.closeMove hh hf rfl rfl rfl (fun _ hj => hj) <;> simp [hphase]
    · cases hnext
  · next result hphase =>
    obtain rfl := Option.some.inj hnext
    apply hr.closeMove hh hf rfl rfl rfl _ <;> simp [hphase, Hub.emit, Hub.setPhase, Hub.setCall]
  · next result hphase =>
    have hguard := (hh.calls k).unsettled (by rw [hphase]; rfl)
    obtain ⟨mid, hmid, hnext⟩ := Option.bind_eq_some_iff.mp hnext
    obtain ⟨hnone, storage, hstorage, rfl⟩ := insertReceipt_eq hmid
    obtain rfl := Option.some.inj hnext
    exact hr.insert hh hf hb (by rw [hguard]; simp) hnone hstorage rfl rfl
      (report_evidence hr hh hb hphase hstorage rfl)
  · next receipt result hphase =>
    split at hnext
    · cases hnext
    · obtain rfl := Option.some.inj hnext
      apply hr.closeMove hh hf rfl rfl rfl (fun _ hj => hj) <;> simp [hphase]
  · next result hphase =>
    obtain rfl := Option.some.inj hnext
    apply hr.closeMove hh hf rfl rfl rfl (fun _ hj => hj) <;> simp [hphase]
  · next result hphase =>
    obtain rfl := Option.some.inj hnext
    apply hr.closeMove hh hf rfl rfl rfl (fun _ hj => hj) <;> simp [hphase]
  · cases hnext

/-- A call changes in what its receipts do not depend on. -/
theorem CallEvidence.data {storage : Storage.System Unit} {receipts : Nat → Option (Receipt ν)}
    {call call' : Invocation ν} (hold : CallEvidence storage receipts k call)
    (hphase : call'.phase = call.phase) (hinput : call'.input = call.input)
    (hguard : call'.guard = call.guard) : CallEvidence storage receipts k call' := by
  have hreceipt : dispatchReceipt k call' = dispatchReceipt k call := by
    unfold dispatchReceipt
    rw [hinput]
  exact {
    unguarded := by rw [hguard]; exact hold.unguarded
    dispatching := by rw [hphase, hreceipt]; exact hold.dispatching
    dispatched := by rw [hphase, hreceipt]; exact hold.dispatched
    unanswered := by rw [hphase]; exact hold.unanswered
    recording := by rw [hphase]; exact hold.recording
    acknowledged := by rw [hphase, hguard]; exact hold.acknowledged
    settled := by rw [hphase, hguard]; exact hold.settled
    unsettled := by rw [hphase, hguard]; exact hold.unsettled
    unreported := by rw [hphase, hguard]; exact hold.unreported
    results := by rw [hphase, hguard]; exact hold.results
    once := hold.once
    exclusive := hold.exclusive }

/-- The calls, their receipts and the storage stay. -/
theorem Hub.Recorded.keep (hr : h.Recorded) (hh : h.Consistent) (hf : h.Follows h')
    (hstorage : h'.storage = h.storage) (hreceipts : h'.receipts = h.receipts)
    (hcalls : h'.calls = h.calls) (hemitted : h'.emitted = h.emitted) : h'.Recorded := by
  have hcalls' : h'.calls = Function.update h.calls 0 (h.calls 0) := by
    rw [hcalls, Function.update_eq_self]
  apply hr.setCall hh hf hstorage hreceipts hcalls' (fun hsome => ⟨rfl, rfl, hsome⟩) (hr.calls 0)
  intro j hj
  rw [hemitted] at hj
  exact .inl hj

/-- A call changes in what its receipts do not depend on. -/
theorem Hub.Recorded.setData (hr : h.Recorded) (hh : h.Consistent) (hf : h.Follows h')
    {call : Invocation ν} (hstorage : h'.storage = h.storage) (hreceipts : h'.receipts = h.receipts)
    (hcalls : h'.calls = Function.update h.calls k call) (hemitted : h'.emitted = h.emitted)
    (hbinding : call.binding = (h.calls k).binding) (hphase : call.phase = (h.calls k).phase)
    (hinput : call.input = (h.calls k).input) (hguard : call.guard = (h.calls k).guard) :
    h'.Recorded := by
  apply hr.setCall hh hf hstorage hreceipts hcalls _ ((hr.calls k).data hphase hinput hguard)
  · intro j hj
    rw [hemitted] at hj
    exact .inl hj
  · intro hsome
    exact ⟨hbinding, hinput, hguard ▸ hsome⟩

theorem storage_recorded (hr : h.Recorded) (hh : h.Consistent) {e : Storage.Event Unit}
    {storage : Storage.System Unit} (hstorage : Storage.next h.storage e = some storage) :
    ({ h with storage } : Hub ν).Recorded := by
  have hgrows : ∀ other, Grows h.storage storage h.receipts h.receipts other := fun other =>
    { onward := Storage.next_onward hr.storage hstorage
      begun := hr.begun
      kept := fun _ _ hc => hc
      added := fun _ _ hc _ => hc }
  have hsound := (Storage.next_follows hr.storage hstorage).sound
  have hf : h.Follows { h with storage } := .refl hh
  have hnone : ∀ c receipt, h.receipts c = some receipt → h.receipts c ≠ none := by
    intro c receipt hc
    rw [hc]
    simp
  refine hr.step (k := 0) hh hf hsound (hgrows _) ?_ (fun _ _ => rfl) (fun hsome => ⟨rfl, rfl, hsome⟩)
    ?_ ?_ (fun _ hj => .inl hj)
  · exact fun c receipt hc hold => absurd hold (hnone c receipt hc)
  · exact fun c receipt hc hold => absurd hold (hnone c receipt hc)
  · exact (hr.calls 0).grow (hgrows fun _ => True) trivial

/-- A reply names the binding, the session and the slot of the pending call. -/
def Pending.Matches (entry : Pending) (params : JsonTree ν) : Prop :=
  (params.index "binding_id").asStr = some entry.binding ∧
    (params.index "session_id").asStr = some entry.session ∧
    (params.index "slot_id").asStr = some entry.slot

/-- The reply goes to its call. -/
def Hub.accept (h : Hub ν) (id : String) (k : Nat) (outcome : JsonTree ν) : Hub ν :=
  { (h.removePending id).setCall k { h.calls k with response := .sent outcome } with
    accepted := h.accepted ++ [(k, outcome)] }

/-- A reply leaves the hub as it was, or it is the one that its pending call gets. -/
theorem reply_cases (numbers : Numbers ν) (h : Hub ν) (params : JsonTree ν) :
    (∃ e, reply numbers h params = (.error e, h)) ∨
    ∃ id entry, stringParam params "call_id" = .ok id ∧ h.pending id = some entry ∧
      entry.Matches params ∧ validOutcome numbers (params.index "outcome") = true ∧
      ((h.calls entry.call).response = .opened ∧
          reply numbers h params = (.ok (), h.accept id entry.call (params.index "outcome")) ∨
        (h.calls entry.call).response ≠ .opened ∧
          reply numbers h params = (.error "tool call already ended", h.removePending id)) := by
  cases hid : stringParam params "call_id" with
  | error e =>
    left
    exact ⟨e, by simp only [reply, hid]⟩
  | ok id =>
    cases hpending : h.pending id with
    | none =>
      left
      exact ⟨"tool call is not pending", by simp only [reply, hid, hpending]⟩
    | some entry =>
      by_cases hother : (params.index "binding_id").asStr ≠ some entry.binding ∨
          (params.index "session_id").asStr ≠ some entry.session ∨
          (params.index "slot_id").asStr ≠ some entry.slot
      · left
        refine ⟨"tool result belongs to another binding or scope", ?_⟩
        simp only [reply, hid, hpending, if_pos hother]
      · cases hvalid : validOutcome numbers (params.index "outcome") with
        | false =>
          left
          refine ⟨"invalid tool result", ?_⟩
          simp only [reply, hid, hpending, if_neg hother, hvalid, if_true]
        | true =>
          have hmatches : entry.Matches params := by
            simp only [not_or, not_not] at hother
            exact hother
          refine .inr ⟨id, entry, rfl, hpending, hmatches, rfl, ?_⟩
          cases hresponse : (h.calls entry.call).response with
          | opened =>
            left
            refine ⟨rfl, ?_⟩
            simp [reply, hid, hpending, if_neg hother, hvalid, Hub.removePending, hresponse, Hub.accept]
          | closed =>
            right
            refine ⟨by simp, ?_⟩
            simp [reply, hid, hpending, if_neg hother, hvalid, Hub.removePending, hresponse]
          | sent outcome =>
            right
            refine ⟨by simp, ?_⟩
            simp [reply, hid, hpending, if_neg hother, hvalid, Hub.removePending, hresponse]

theorem reply_recorded (hr : h.Recorded) (hh : h.Consistent) (params : JsonTree ν) :
    (reply numbers h params).2.Recorded := by
  have hf : h.Follows (reply numbers h params).2 := reply_follows hh params
  rcases reply_cases numbers h params with ⟨e, hreply⟩ | ⟨id, entry, -, -, -, -, hreply⟩
  · rw [hreply]
    exact hr
  · rcases hreply with ⟨-, hreply⟩ | ⟨-, hreply⟩
    · rw [hreply] at hf ⊢
      exact hr.setData hh hf rfl rfl rfl rfl rfl rfl rfl rfl
    · rw [hreply] at hf ⊢
      exact hr.keep hh hf rfl rfl rfl rfl

theorem advance_recorded (hr : h.Recorded) (hh : h.Consistent)
    (hnext : advance numbers h k storageCall = some h') : h'.Recorded := by
  unfold advance at hnext
  cases hstage : (h.calls k).phase.stage with
  | outside =>
    simp only [hstage] at hnext
    exact lookup_recorded hr hh hnext
  | admission =>
    simp only [hstage] at hnext
    obtain ⟨bound, hb, hnext⟩ := Option.bind_eq_some_iff.mp hnext
    exact admit_recorded hr hh hb hnext
  | service =>
    simp only [hstage] at hnext
    obtain ⟨bound, hb, hnext⟩ := Option.bind_eq_some_iff.mp hnext
    exact serve_recorded hr hh hb hnext
  | closure =>
    simp only [hstage] at hnext
    obtain ⟨bound, hb, hnext⟩ := Option.bind_eq_some_iff.mp hnext
    exact close_recorded hr hh hb hnext

/-- Only the sessions move. -/
structure Hub.SameCalls (h h' : Hub ν) : Prop where
  storage : h'.storage = h.storage
  receipts : h'.receipts = h.receipts
  calls : h'.calls = h.calls
  emitted : h'.emitted = h.emitted
  accepted : h'.accepted = h.accepted
  pending : h'.pending = h.pending

theorem endActivity_sameCalls {b : Nat} {after : Owner}
    (hnext : endActivity h b bound after = some h') : h.SameCalls h' := by
  unfold endActivity at hnext
  split at hnext
  · split at hnext
    · obtain rfl := Option.some.inj hnext
      exact ⟨rfl, rfl, rfl, rfl, rfl, rfl⟩
    · obtain rfl := Option.some.inj hnext
      exact ⟨rfl, rfl, rfl, rfl, rfl, rfl⟩
  · cases hnext

theorem sessionStep_sameCalls {b : Nat} (hnext : sessionStep h b bound = some h') :
    h.SameCalls h' := by
  unfold sessionStep at hnext
  repeat' split at hnext
  all_goals first
    | exact Option.some.inj hnext ▸ ⟨rfl, rfl, rfl, rfl, rfl, rfl⟩
    | cases hnext

theorem next_recorded (hr : h.Recorded) (hh : h.Consistent) {e : Event ν}
    (hnext : next numbers h e = some h') : h'.Recorded := by
  have hf := next_follows hh hnext
  have hkeep : h.SameCalls h' → h'.Recorded := fun hsame =>
    hr.keep hh hf hsame.storage hsame.receipts hsame.calls hsame.emitted
  cases e with
  | storage e =>
    obtain ⟨storage, hstorage, hnext⟩ := Option.bind_eq_some_iff.mp hnext
    obtain rfl := Option.some.inj hnext
    exact storage_recorded hr hh hstorage
  | bind b worker id session slot =>
    simp only [next] at hnext
    split at hnext
    · split at hnext
      · cases hnext
      · obtain rfl := Option.some.inj hnext
        exact hkeep ⟨rfl, rfl, rfl, rfl, rfl, rfl⟩
    · cases hnext
  | begin b =>
    obtain ⟨bound, hb, hnext⟩ := Option.bind_eq_some_iff.mp hnext
    split at hnext
    · exact hkeep (endActivity_sameCalls hnext)
    · cases hnext
  | finish b =>
    obtain ⟨bound, hb, hnext⟩ := Option.bind_eq_some_iff.mp hnext
    split at hnext
    · exact hkeep (endActivity_sameCalls hnext)
    · cases hnext
  | drop b =>
    obtain ⟨bound, hb, hnext⟩ := Option.bind_eq_some_iff.mp hnext
    split at hnext
    · exact hkeep (endActivity_sameCalls hnext)
    · cases hnext
  | session b =>
    obtain ⟨bound, hb, hnext⟩ := Option.bind_eq_some_iff.mp hnext
    exact hkeep (sessionStep_sameCalls hnext)
  | stop =>
    obtain rfl := Option.some.inj hnext
    exact hkeep ⟨rfl, rfl, rfl, rfl, rfl, rfl⟩
  | invoke k id session slot input =>
    simp only [next] at hnext
    split at hnext
    · next hidle =>
      split at hnext
      · cases hnext
      · obtain rfl := Option.some.inj hnext
        have hguard := (hh.calls k).early (by rw [hidle]; rfl)
        apply hr.early hh hf hguard rfl rfl rfl rfl <;> simp
    · cases hnext
  | cancel k =>
    obtain rfl := Option.some.inj hnext
    exact hr.setData hh hf rfl rfl rfl rfl rfl rfl rfl rfl
  | advance k storageCall => exact advance_recorded hr hh hnext
  | timesOut k =>
    obtain ⟨bound, hb, hnext⟩ := Option.bind_eq_some_iff.mp hnext
    split at hnext
    · next hphase _ =>
      split at hnext
      · cases hnext
      · obtain rfl := Option.some.inj hnext
        apply hr.serveMove hh hf (by rw [hphase]; rfl) (by rw [hphase]; rfl) (by rw [hphase]; simp)
          (by rw [hphase]; simp) (by rw [hphase]; rfl) rfl rfl rfl rfl rfl rfl <;> simp
        exact fun j hj => .inl hj
    · cases hnext
  | abandon k =>
    simp only [next] at hnext
    split at hnext
    · next hphase =>
      obtain rfl := Option.some.inj hnext
      apply hr.serveMove hh hf (by rw [hphase]; rfl) (by rw [hphase]; rfl) (by rw [hphase]; simp)
        (by rw [hphase]; simp) (by rw [hphase]; rfl) rfl rfl rfl rfl rfl rfl <;> simp
      exact fun j hj => .inl hj
    · cases hnext
  | reply params =>
    obtain rfl := Option.some.inj hnext
    exact reply_recorded hr hh params

theorem run_recorded {es : List (Event ν)} (hr : h.Recorded) (hh : h.Consistent)
    (hrun : Next.run (next numbers) es h = some h') : h'.Recorded ∧ h'.Consistent :=
  Next.run_invariant (P := fun h => h.Recorded ∧ h.Consistent)
    (fun _ _ _ hp hnext => ⟨next_recorded hp.1 hp.2 hnext, (next_follows hp.2 hnext).consistent⟩)
    ⟨hr, hh⟩ hrun

end Hub

end Tools

end Host

end AgentBridge
