import AgentBridge.Host.Evidence

/-!
# Replies of the application

A call has one reply at most, and gets it while it is pending.  What the application answered is what
the `returned` receipt of the call holds and what the provider gets.
-/

namespace AgentBridge

open Reasoning

namespace Host

namespace Tools

variable {ν : Type}

/-- The application was not asked yet. -/
@[simp] def Phase.isUnasked : Phase ν → Bool
  | .idle => true
  | .called => true
  | .found => true
  | .admitting => true
  | .checked => true
  | .reserved => true
  | .admitted => true
  | .dispatching _ => true
  | .dispatched => true
  | .prepared => true
  | _ => false

/-- The call waits for the application. -/
@[simp] def Phase.isAsked : Phase ν → Bool
  | .registered => true
  | .waiting => true
  | _ => false

/-- What the application answered. -/
@[simp] def Phase.outcome : Phase ν → Option (JsonTree ν)
  | .received outcome => some outcome
  | .recording outcome _ => some outcome
  | .settled outcome => some outcome
  | _ => none

/-- The reply to one call. -/
structure CallReply (accepted : List (Nat × JsonTree ν)) (k : Nat) (call : Invocation ν) : Prop where
  opened : call.response = .opened → call.phase.isAsked = true ∧ k ∉ accepted.map Prod.fst
  unasked : call.phase.isUnasked = true → k ∉ accepted.map Prod.fst
  sent : ∀ outcome, call.response = .sent outcome → (k, outcome) ∈ accepted
  received : ∀ outcome, call.phase.outcome = some outcome → (k, outcome) ∈ accepted

/-- An entry of the table of pending calls names a call and its binding. -/
structure Pending.Names (entry : Pending) (id : String) (bindings : Nat → Option Bound)
    (call : Invocation ν) : Prop where
  id : call.id = id
  guard : call.guard ≠ none
  bound : ∃ bound, bindings call.binding = some bound ∧ entry.binding = bound.id ∧
    entry.session = bound.session ∧ entry.slot = bound.slot

structure Hub.Replied (h : Hub ν) : Prop where
  once : (h.accepted.map Prod.fst).Nodup
  calls : ∀ k, CallReply h.accepted k (h.calls k)
  pending : ∀ id entry, h.pending id = some entry →
    entry.Names id h.bindings (h.calls entry.call)
  recorded : ∀ c k outcome, h.receipts c = some (returnedReceipt k outcome) →
    (k, outcome) ∈ h.accepted

section Call

variable {accepted : List (Nat × JsonTree ν)} {k : Nat} {call call' : Invocation ν}

theorem CallReply.move (h : CallReply accepted k call)
    (hresponse : call'.response = .closed ∨ call'.response = call.response ∧
      (call'.phase.isAsked = true ∨ call.phase.isAsked = false))
    (hunasked : call'.phase.isUnasked = true → call.phase.isUnasked = true)
    (houtcome : ∀ outcome, call'.phase.outcome = some outcome →
      call.phase.outcome = some outcome ∨ call.response = .sent outcome) :
    CallReply accepted k call' where
  opened := by
    intro hopened
    rcases hresponse with hclosed | ⟨hsame, hasked⟩
    · rw [hclosed] at hopened
      cases hopened
    · rw [hsame] at hopened
      obtain ⟨hwas, hnew⟩ := h.opened hopened
      rcases hasked with hasked | hasked
      · exact ⟨hasked, hnew⟩
      · rw [hwas] at hasked
        cases hasked
  unasked := fun hphase => h.unasked (hunasked hphase)
  sent := by
    intro outcome hsent
    rcases hresponse with hclosed | ⟨hsame, -⟩
    · rw [hclosed] at hsent
      cases hsent
    · exact h.sent outcome (hsame ▸ hsent)
  received := by
    intro outcome hphase
    rcases houtcome outcome hphase with hwas | hsent
    · exact h.received outcome hwas
    · exact h.sent outcome hsent

/-- A reply to another call. -/
theorem CallReply.append (h : CallReply accepted k call) {j : Nat} (hjk : k ≠ j)
    (outcome : JsonTree ν) : CallReply (accepted ++ [(j, outcome)]) k call := by
  have hnew : k ∉ accepted.map Prod.fst → k ∉ (accepted ++ [(j, outcome)]).map Prod.fst := by
    intro hk hmem
    rw [List.map_append, List.mem_append] at hmem
    rcases hmem with hmem | hmem
    · exact hk hmem
    · exact hjk (List.mem_singleton.mp hmem)
  exact {
    opened := fun hopened => ⟨(h.opened hopened).1, hnew (h.opened hopened).2⟩
    unasked := fun hphase => hnew (h.unasked hphase)
    sent := fun o hsent => List.mem_append_left _ (h.sent o hsent)
    received := fun o hphase => List.mem_append_left _ (h.received o hphase) }

end Call

section Hub

variable {numbers : Numbers ν} {h h' : Hub ν} {k storageCall : Nat} {bound : Bound}

theorem Hub.start_replied (limit : Nat) : (Hub.start limit : Hub ν).Replied where
  once := List.nodup_nil
  calls := fun _ => ⟨fun h => (by cases h), fun _ h => (by cases h), fun _ h => (by cases h),
    fun _ h => (by cases h)⟩
  pending := fun _ _ h => by cases h
  recorded := fun _ _ _ h => by cases h

theorem Pending.Names.later {entry : Pending} {id : String} {bindings bindings' : Nat → Option Bound}
    {call call' : Invocation ν} (hn : entry.Names id bindings call)
    (hlater : ∀ b bound, bindings b = some bound → ∃ bound', bindings' b = some bound' ∧
      bound.Later bound')
    (hid : call'.id = call.id) (hbinding : call'.binding = call.binding)
    (hguard : call'.guard ≠ none) : entry.Names id bindings' call' where
  id := hid.trans hn.id
  guard := hguard
  bound := by
    obtain ⟨bound, hb, hbindingId, hsession, hslot⟩ := hn.bound
    obtain ⟨bound', hb', hl⟩ := hlater _ bound hb
    refine ⟨bound', by rw [hbinding]; exact hb', ?_, ?_, ?_⟩
    · rw [hl.id, hbindingId]
    · rw [hl.session, hsession]
    · rw [hl.slot, hslot]

/-- One call moves, and with it perhaps the receipts and the pending calls. -/
theorem Hub.Replied.setCall (hp : h.Replied) (hf : h.Follows h') {call : Invocation ν}
    (hcalls : h'.calls = Function.update h.calls k call) (haccepted : h'.accepted = h.accepted)
    (hkept : (h.calls k).guard ≠ none → call.id = (h.calls k).id ∧
      call.binding = (h.calls k).binding ∧ call.guard ≠ none)
    (hreceipts : ∀ c j outcome, h'.receipts c = some (returnedReceipt j outcome) →
      h.receipts c = some (returnedReceipt j outcome) ∨ (j, outcome) ∈ h.accepted)
    (hpending : ∀ id entry, h'.pending id = some entry → h.pending id = some entry ∨
      entry.call = k ∧ entry.Names id h.bindings (h.calls k))
    (hk : CallReply h.accepted k call) : h'.Replied where
  once := by
    rw [haccepted]
    exact hp.once
  calls := by
    intro j
    rw [haccepted, hcalls]
    by_cases hjk : j = k
    · subst hjk
      rw [Function.update_self]
      exact hk
    · rw [Function.update_of_ne hjk]
      exact hp.calls j
  pending := by
    intro id entry hentry
    have hwas : entry.Names id h.bindings (h.calls entry.call) := by
      rcases hpending id entry hentry with hold | ⟨hcall, hnames⟩
      · exact hp.pending id entry hold
      · rw [hcall]
        exact hnames
    rw [hcalls]
    by_cases hjk : entry.call = k
    · rw [hjk] at hwas ⊢
      rw [Function.update_self]
      obtain ⟨hid, hbinding, hguard⟩ := hkept hwas.guard
      exact hwas.later hf.later hid hbinding hguard
    · rw [Function.update_of_ne hjk]
      exact hwas.later hf.later rfl rfl hwas.guard
  recorded := by
    intro c j outcome hc
    rw [haccepted]
    rcases hreceipts c j outcome hc with hold | hmem
    · exact hp.recorded c j outcome hold
    · exact hmem

/-- The calls stay. -/
theorem Hub.Replied.keep (hp : h.Replied) (hf : h.Follows h') (hcalls : h'.calls = h.calls)
    (haccepted : h'.accepted = h.accepted) (hreceipts : h'.receipts = h.receipts)
    (hpending : ∀ id entry, h'.pending id = some entry → h.pending id = some entry) : h'.Replied := by
  have hcalls' : h'.calls = Function.update h.calls 0 (h.calls 0) := by
    rw [hcalls, Function.update_eq_self]
  apply hp.setCall hf hcalls' haccepted (fun hguard => ⟨rfl, rfl, hguard⟩)
  · intro c j outcome hc
    rw [hreceipts] at hc
    exact .inl hc
  · exact fun id entry hentry => .inl (hpending id entry hentry)
  · exact hp.calls 0

/-- One call moves, and the application is not asked. -/
theorem Hub.Replied.move (hp : h.Replied) (hf : h.Follows h') {call : Invocation ν}
    (hcalls : h'.calls = Function.update h.calls k call) (haccepted : h'.accepted = h.accepted)
    (hreceipts : h'.receipts = h.receipts)
    (hpending : ∀ id entry, h'.pending id = some entry → h.pending id = some entry)
    (hkept : (h.calls k).guard ≠ none → call.id = (h.calls k).id ∧
      call.binding = (h.calls k).binding ∧ call.guard ≠ none)
    (hresponse : call.response = .closed ∨ call.response = (h.calls k).response ∧
      (call.phase.isAsked = true ∨ (h.calls k).phase.isAsked = false))
    (hunasked : call.phase.isUnasked = true → (h.calls k).phase.isUnasked = true)
    (houtcome : ∀ outcome, call.phase.outcome = some outcome →
      (h.calls k).phase.outcome = some outcome ∨ (h.calls k).response = .sent outcome) :
    h'.Replied := by
  apply hp.setCall hf hcalls haccepted hkept
  · intro c j outcome hc
    rw [hreceipts] at hc
    exact .inl hc
  · exact fun id entry hentry => .inl (hpending id entry hentry)
  · exact (hp.calls k).move hresponse hunasked houtcome

/-- Only the phase of a call moves. -/
theorem Hub.Replied.setPhase (hp : h.Replied) (hf : h.Follows h') {phase : Phase ν}
    (hcalls : h'.calls = Function.update h.calls k { h.calls k with phase })
    (haccepted : h'.accepted = h.accepted) (hreceipts : h'.receipts = h.receipts)
    (hpending : ∀ id entry, h'.pending id = some entry → h.pending id = some entry)
    (hasked : phase.isAsked = true ∨ (h.calls k).phase.isAsked = false)
    (hunasked : phase.isUnasked = true → (h.calls k).phase.isUnasked = true)
    (houtcome : ∀ outcome, phase.outcome = some outcome →
      (h.calls k).phase.outcome = some outcome) : h'.Replied :=
  hp.move hf hcalls haccepted hreceipts hpending (fun hguard => ⟨rfl, rfl, hguard⟩)
    (.inr ⟨rfl, hasked⟩) hunasked fun outcome h' => .inl (houtcome outcome h')

theorem returned_of_update {receipts : Nat → Option (Receipt ν)} {receipt : Receipt ν} {c j : Nat}
    {outcome : JsonTree ν}
    (hc : Function.update receipts storageCall (some receipt) c = some (returnedReceipt j outcome)) :
    receipts c = some (returnedReceipt j outcome) ∨ receipt = returnedReceipt j outcome := by
  by_cases hcs : c = storageCall
  · subst hcs
    rw [Function.update_self] at hc
    exact .inr (Option.some.inj hc)
  · rw [Function.update_of_ne hcs] at hc
    exact .inl hc

theorem of_removePending {pending : String → Option Pending} {name id : String} {entry : Pending}
    (hentry : Function.update pending name none id = some entry) : pending id = some entry := by
  by_cases hid : id = name
  · subst hid
    rw [Function.update_self] at hentry
    cases hentry
  · rw [Function.update_of_ne hid] at hentry
    exact hentry

theorem lookup_replied (hp : h.Replied) (hh : h.Consistent)
    (hnext : lookup numbers h k (h.calls k) = some h') : h'.Replied := by
  have hf := lookup_follows hh hnext
  unfold lookup at hnext
  split at hnext
  · next hphase =>
    have hguard := (hh.calls k).early (by rw [hphase]; rfl)
    split at hnext
    · obtain rfl := Option.some.inj hnext
      apply hp.setPhase hf rfl rfl rfl (fun _ _ hentry => hentry) <;> simp [hphase]
    · split at hnext
      · obtain rfl := Option.some.inj hnext
        apply hp.setPhase hf rfl rfl rfl (fun _ _ hentry => hentry) <;> simp [hphase]
      · obtain rfl := Option.some.inj hnext
        apply hp.move hf rfl rfl rfl (fun _ _ hentry => hentry) <;> simp [hphase, hguard]
  · cases hnext

theorem admit_replied (hp : h.Replied) (hh : h.Consistent)
    (hb : h.bindings (h.calls k).binding = some bound)
    (hnext : admitCall h k (h.calls k) bound = some h') : h'.Replied := by
  have hf := admit_follows hh hb hnext
  have hpending : ∀ (id : String) (entry : Pending), h.pending id = some entry →
      h.pending id = some entry := fun _ _ hentry => hentry
  unfold admitCall at hnext
  split at hnext
  · next hphase =>
    split at hnext
    · split at hnext
      · obtain rfl := Option.some.inj hnext
        apply hp.setPhase hf rfl rfl rfl hpending <;> simp [hphase]
      · obtain rfl := Option.some.inj hnext
        apply hp.move hf rfl rfl rfl hpending <;> simp [hphase]
    · cases hnext
  · next hphase =>
    split at hnext
    · obtain rfl := Option.some.inj hnext
      apply hp.setPhase hf rfl rfl rfl hpending <;> simp [hphase]
    · obtain rfl := Option.some.inj hnext
      apply hp.setPhase hf rfl rfl rfl hpending <;> simp [hphase]
  · next hphase =>
    split at hnext
    · obtain rfl := Option.some.inj hnext
      apply hp.setPhase hf rfl rfl rfl hpending <;> simp [hphase]
    · obtain rfl := Option.some.inj hnext
      apply hp.setPhase hf rfl rfl rfl hpending <;> simp [hphase]
  · next hphase =>
    split at hnext
    · obtain rfl := Option.some.inj hnext
      apply hp.move hf rfl rfl rfl hpending <;> simp [hphase]
    · obtain rfl := Option.some.inj hnext
      apply hp.setPhase hf rfl rfl rfl hpending <;> simp [hphase]
  · cases hnext

theorem serve_replied (hp : h.Replied) (hh : h.Consistent)
    (hb : h.bindings (h.calls k).binding = some bound)
    (hnext : serve h k storageCall (h.calls k) bound = some h') : h'.Replied := by
  have hf := serve_follows hh hnext
  have hpending : ∀ (id : String) (entry : Pending), h.pending id = some entry →
      h.pending id = some entry := fun _ _ hentry => hentry
  unfold serve at hnext
  split at hnext
  · next hphase =>
    obtain ⟨mid, hmid, hnext⟩ := Option.bind_eq_some_iff.mp hnext
    obtain ⟨-, storage, -, rfl⟩ := insertReceipt_eq hmid
    obtain rfl := Option.some.inj hnext
    apply hp.setCall hf rfl rfl
    · exact fun hguard => ⟨rfl, rfl, hguard⟩
    · intro c j outcome hc
      rcases returned_of_update hc with hold | hreceipt
      · exact .inl hold
      · cases hreceipt
    · exact fun id entry hentry => .inl hentry
    · apply (hp.calls k).move <;> simp [hphase]
  · next receipt hphase =>
    split at hnext
    · cases hnext
    · obtain rfl := Option.some.inj hnext
      apply hp.setPhase hf rfl rfl rfl hpending <;> simp [hphase]
    · obtain rfl := Option.some.inj hnext
      apply hp.setPhase hf rfl rfl rfl hpending <;> simp [hphase]
  · next hphase =>
    split at hnext
    · obtain rfl := Option.some.inj hnext
      apply hp.setPhase hf rfl rfl rfl hpending <;> simp [hphase]
    · obtain rfl := Option.some.inj hnext
      apply hp.setPhase hf rfl rfl rfl hpending <;> simp [hphase]
  · next hphase =>
    obtain rfl := Option.some.inj hnext
    have hguard := (hh.calls k).guarded (by rw [hphase]; rfl)
    have hnew := (hp.calls k).unasked (by rw [hphase]; rfl)
    apply hp.setCall hf rfl rfl
    · exact fun hguard => ⟨rfl, rfl, hguard⟩
    · exact fun c j outcome hc => .inl hc
    · intro id entry hentry
      by_cases hid : id = (h.calls k).id
      · subst hid
        simp only [Hub.addPending, Hub.setCall, Function.update_self] at hentry
        obtain rfl := Option.some.inj hentry
        exact .inr ⟨rfl, rfl, hguard, bound, hb, rfl, rfl, rfl⟩
      · simp only [Hub.addPending, Hub.setCall, Function.update_of_ne hid] at hentry
        exact .inl hentry
    · exact ⟨fun _ => ⟨rfl, hnew⟩, fun h' => (by cases h'), fun _ h' => (by cases h'),
        fun _ h' => (by cases h')⟩
  · next hphase =>
    obtain rfl := Option.some.inj hnext
    apply hp.setPhase hf rfl rfl rfl hpending <;> simp [hphase]
  · next hphase =>
    split at hnext
    · obtain rfl := Option.some.inj hnext
      apply hp.move hf rfl rfl rfl hpending <;> simp [hphase]
    · split at hnext
      · next outcome hsent =>
        obtain rfl := Option.some.inj hnext
        apply hp.move hf rfl rfl rfl hpending <;> simp [hphase, hsent]
      · cases hnext
  · next outcome hphase =>
    obtain ⟨mid, hmid, hnext⟩ := Option.bind_eq_some_iff.mp hnext
    obtain ⟨-, storage, -, rfl⟩ := insertReceipt_eq hmid
    obtain rfl := Option.some.inj hnext
    have hreply := (hp.calls k).received outcome (by rw [hphase]; rfl)
    apply hp.setCall hf rfl rfl
    · exact fun hguard => ⟨rfl, rfl, hguard⟩
    · intro c j outcome' hc
      rcases returned_of_update hc with hold | hreceipt
      · exact .inl hold
      · have hcall := congrArg Receipt.call hreceipt
        have hfields := congrArg Receipt.fields hreceipt
        simp only [returnedReceipt, JsonTree.obj.injEq, List.cons.injEq, Prod.mk.injEq, true_and,
          and_true] at hcall hfields
        rw [← hcall, ← hfields]
        exact .inr hreply
    · exact fun id entry hentry => .inl hentry
    · apply (hp.calls k).move <;> simp [hphase]
  · next outcome receipt hphase =>
    split at hnext
    · cases hnext
    · obtain rfl := Option.some.inj hnext
      apply hp.setPhase hf rfl rfl rfl hpending <;> simp [hphase]
    · obtain rfl := Option.some.inj hnext
      apply hp.move hf rfl rfl rfl hpending <;> simp [hphase]
  · next outcome hphase =>
    obtain rfl := Option.some.inj hnext
    apply hp.setPhase hf rfl rfl rfl hpending <;> simp [hphase]
  · cases hnext

theorem close_replied (hp : h.Replied) (hh : h.Consistent)
    (hb : h.bindings (h.calls k).binding = some bound)
    (hnext : close h k storageCall (h.calls k) bound = some h') : h'.Replied := by
  have hf := close_follows hh hb hnext
  have hpending : ∀ (id : String) (entry : Pending), h.pending id = some entry →
      h.pending id = some entry := fun _ _ hentry => hentry
  unfold close at hnext
  split at hnext
  · next result hphase =>
    split at hnext
    · obtain rfl := Option.some.inj hnext
      apply hp.setPhase hf rfl rfl rfl (fun _ _ hentry => of_removePending hentry) <;>
        simp [hphase]
    · obtain rfl := Option.some.inj hnext
      apply hp.setPhase hf rfl rfl rfl (fun _ _ hentry => of_removePending hentry) <;>
        simp [hphase]
  · next result hphase =>
    obtain rfl := Option.some.inj hnext
    apply hp.setPhase hf rfl rfl rfl hpending <;> simp [hphase]
  · next result hphase =>
    obtain rfl := Option.some.inj hnext
    apply hp.setPhase hf rfl rfl rfl hpending <;> simp [hphase]
  · next result hphase =>
    split at hnext
    · split at hnext
      · obtain rfl := Option.some.inj hnext
        apply hp.setPhase hf rfl rfl rfl hpending <;> simp [hphase]
      · obtain rfl := Option.some.inj hnext
        apply hp.setPhase hf rfl rfl rfl hpending <;> simp [hphase]
    · cases hnext
  · next result hphase =>
    obtain rfl := Option.some.inj hnext
    apply hp.setPhase hf rfl rfl rfl hpending <;> simp [hphase]
  · next result hphase =>
    obtain ⟨mid, hmid, hnext⟩ := Option.bind_eq_some_iff.mp hnext
    obtain ⟨-, storage, -, rfl⟩ := insertReceipt_eq hmid
    obtain rfl := Option.some.inj hnext
    apply hp.setCall hf rfl rfl
    · exact fun hguard => ⟨rfl, rfl, hguard⟩
    · intro c j outcome hc
      rcases returned_of_update hc with hold | hreceipt
      · exact .inl hold
      · cases hreceipt
    · exact fun id entry hentry => .inl hentry
    · apply (hp.calls k).move <;> simp [hphase]
  · next receipt result hphase =>
    split at hnext
    · cases hnext
    · obtain rfl := Option.some.inj hnext
      apply hp.setPhase hf rfl rfl rfl hpending <;> simp [hphase]
  · next result hphase =>
    obtain rfl := Option.some.inj hnext
    apply hp.setPhase hf rfl rfl rfl hpending <;> simp [hphase]
  · next result hphase =>
    obtain rfl := Option.some.inj hnext
    apply hp.setPhase hf rfl rfl rfl hpending <;> simp [hphase]
  · cases hnext

/-- A reply is accepted by a call that waits for its first one. -/
theorem Hub.Replied.accept (hp : h.Replied) {id : String} {k : Nat} {outcome : JsonTree ν}
    (hopened : (h.calls k).response = .opened) : (h.accept id k outcome).Replied where
  once := by
    have hnew := ((hp.calls k).opened hopened).2
    simp only [Hub.accept, List.map_append, List.map_cons, List.map_nil]
    rw [List.nodup_append]
    refine ⟨hp.once, List.nodup_singleton k, ?_⟩
    intro a ha b hb hab
    rw [List.mem_singleton.mp hb] at hab
    exact hnew (hab ▸ ha)
  calls := by
    intro j
    by_cases hjk : j = k
    · subst hjk
      have hasked := ((hp.calls j).opened hopened).1
      simp only [Hub.accept, Hub.setCall, Function.update_self]
      exact {
        opened := fun h' => by cases h'
        unasked := by
          intro hphase
          simp only at hphase
          cases hp' : (h.calls j).phase <;> simp [hp'] at hasked hphase
        sent := by
          intro o hsent
          obtain rfl := Slot.sent.inj hsent
          exact List.mem_append_right _ (List.mem_singleton.mpr rfl)
        received := fun o hphase => List.mem_append_left _ ((hp.calls j).received o hphase) }
    · have hsame : (h.accept id k outcome).calls j = h.calls j := Function.update_of_ne hjk _ _
      rw [hsame]
      exact (hp.calls j).append hjk outcome
  pending := by
    intro name entry hentry
    have hold := hp.pending name entry (of_removePending hentry)
    by_cases hjk : entry.call = k
    · rw [hjk] at hold ⊢
      have hself : (h.accept id k outcome).calls k =
          { h.calls k with response := .sent outcome } := Function.update_self _ _ _
      rw [hself]
      exact ⟨hold.id, hold.guard, hold.bound⟩
    · have hsame : (h.accept id k outcome).calls entry.call = h.calls entry.call :=
        Function.update_of_ne hjk _ _
      rw [hsame]
      exact hold
  recorded := fun c j o hc => List.mem_append_left _ (hp.recorded c j o hc)

theorem reply_replied (hp : h.Replied) (hh : h.Consistent) (params : JsonTree ν) :
    (reply numbers h params).2.Replied := by
  have hf : h.Follows (reply numbers h params).2 := reply_follows hh params
  rcases reply_cases numbers h params with ⟨e, hreply⟩ | ⟨id, entry, -, -, -, -, hreply⟩
  · rw [hreply]
    exact hp
  · rcases hreply with ⟨hopened, hreply⟩ | ⟨-, hreply⟩
    · rw [hreply]
      exact hp.accept hopened
    · rw [hreply] at hf ⊢
      exact hp.keep hf rfl rfl rfl fun _ _ hentry => of_removePending hentry

theorem advance_replied (hp : h.Replied) (hh : h.Consistent)
    (hnext : advance numbers h k storageCall = some h') : h'.Replied := by
  unfold advance at hnext
  cases hstage : (h.calls k).phase.stage with
  | outside =>
    simp only [hstage] at hnext
    exact lookup_replied hp hh hnext
  | admission =>
    simp only [hstage] at hnext
    obtain ⟨bound, hb, hnext⟩ := Option.bind_eq_some_iff.mp hnext
    exact admit_replied hp hh hb hnext
  | service =>
    simp only [hstage] at hnext
    obtain ⟨bound, hb, hnext⟩ := Option.bind_eq_some_iff.mp hnext
    exact serve_replied hp hh hb hnext
  | closure =>
    simp only [hstage] at hnext
    obtain ⟨bound, hb, hnext⟩ := Option.bind_eq_some_iff.mp hnext
    exact close_replied hp hh hb hnext

theorem next_replied (hp : h.Replied) (hh : h.Consistent) {e : Event ν}
    (hnext : next numbers h e = some h') : h'.Replied := by
  have hf := next_follows hh hnext
  have hkeep : h.SameCalls h' → h'.Replied := by
    intro hsame
    apply hp.keep hf hsame.calls hsame.accepted hsame.receipts
    intro id entry hentry
    rw [hsame.pending] at hentry
    exact hentry
  have hpending : ∀ (id : String) (entry : Pending), h.pending id = some entry →
      h.pending id = some entry := fun _ _ hentry => hentry
  cases e with
  | storage e =>
    obtain ⟨storage, -, hnext⟩ := Option.bind_eq_some_iff.mp hnext
    obtain rfl := Option.some.inj hnext
    exact hp.keep hf rfl rfl rfl hpending
  | bind b worker id session slot =>
    simp only [next] at hnext
    split at hnext
    · split at hnext
      · cases hnext
      · obtain rfl := Option.some.inj hnext
        exact hkeep ⟨rfl, rfl, rfl, rfl, rfl, rfl⟩
    · cases hnext
  | begin b =>
    obtain ⟨bound, hb, hnext⟩ := Option.bind_eq_some_iff.mp hnext
    split at hnext
    · exact hkeep (endActivity_sameCalls hnext)
    · cases hnext
  | finish b =>
    obtain ⟨bound, hb, hnext⟩ := Option.bind_eq_some_iff.mp hnext
    split at hnext
    · exact hkeep (endActivity_sameCalls hnext)
    · cases hnext
  | drop b =>
    obtain ⟨bound, hb, hnext⟩ := Option.bind_eq_some_iff.mp hnext
    split at hnext
    · exact hkeep (endActivity_sameCalls hnext)
    · cases hnext
  | session b =>
    obtain ⟨bound, hb, hnext⟩ := Option.bind_eq_some_iff.mp hnext
    exact hkeep (sessionStep_sameCalls hnext)
  | stop =>
    obtain rfl := Option.some.inj hnext
    exact hkeep ⟨rfl, rfl, rfl, rfl, rfl, rfl⟩
  | invoke k id session slot input =>
    simp only [next] at hnext
    split at hnext
    · next hidle =>
      split at hnext
      · cases hnext
      · obtain rfl := Option.some.inj hnext
        have hguard := (hh.calls k).early (by rw [hidle]; rfl)
        apply hp.move hf rfl rfl rfl hpending <;> simp [hidle, hguard]
    · cases hnext
  | cancel k =>
    obtain rfl := Option.some.inj hnext
    have hreply := hp.calls k
    apply hp.setCall hf rfl rfl (fun hguard => ⟨rfl, rfl, hguard⟩)
    · exact fun c j outcome hc => .inl hc
    · exact fun id entry hentry => .inl hentry
    · exact ⟨hreply.opened, hreply.unasked, hreply.sent, hreply.received⟩
  | advance k storageCall => exact advance_replied hp hh hnext
  | timesOut k =>
    obtain ⟨bound, hb, hnext⟩ := Option.bind_eq_some_iff.mp hnext
    split at hnext
    · split at hnext
      · cases hnext
      · obtain rfl := Option.some.inj hnext
        apply hp.move hf rfl rfl rfl hpending <;> simp
    · cases hnext
  | abandon k =>
    simp only [next] at hnext
    split at hnext
    · obtain rfl := Option.some.inj hnext
      apply hp.move hf rfl rfl rfl hpending <;> simp
    · cases hnext
  | reply params =>
    obtain rfl := Option.some.inj hnext
    exact reply_replied hp hh params

theorem run_replied {es : List (Event ν)} (hp : h.Replied) (hh : h.Consistent)
    (hrun : Next.run (next numbers) es h = some h') : h'.Replied :=
  (Next.run_invariant (P := fun h => h.Replied ∧ h.Consistent)
    (fun _ _ _ hp hnext => ⟨next_replied hp.1 hp.2 hnext, (next_follows hp.2 hnext).consistent⟩)
    ⟨hp, hh⟩ hrun).1

end Hub

/-! ## The evidence of an invocation -/

/-- `c` inserts the last receipt of the call. -/
def Ends (h : Hub ν) (k c : Nat) : Prop :=
  Inserts h.receipts k c .returned ∨ Inserts h.receipts k c .unknown

/-- What is on record of the calls, and what the application and the provider are told. -/
structure InvocationEvidence (numbers : Numbers ν) (h : Hub ν) : Prop where
  /-- The application is asked after the first receipt is persisted. -/
  asked : ∀ k, .toolCall k ∈ h.emitted →
    Persisted h.storage h.receipts (dispatchReceipt k (h.calls k))
  /-- Of the receipts that end a call one at most is persisted, now or by a job that goes on. -/
  ended : ∀ k c d, Ends h k c → Ends h k d → h.storage.MayBeStored c → h.storage.MayBeStored d →
    c = d
  stored : ∀ c, h.storage.Stored c → h.storage.MayBeStored c
  /-- The provider gets an answer of the application that is on record. -/
  answered : ∀ k result, (h.calls k).phase = .returned result → result.isApplication = true →
    ∃ outcome, Persisted h.storage h.receipts (returnedReceipt k outcome) ∧
      answer outcome = result ∧ (k, outcome) ∈ h.accepted
  once : (h.accepted.map Prod.fst).Nodup
  /-- A reply is accepted by a call that waits for it, with all four identities. -/
  accepted : ∀ params h', reply numbers h params = (.ok (), h') → ∃ k entry bound,
    stringParam params "call_id" = .ok (h.calls k).id ∧
    h.pending (h.calls k).id = some entry ∧ entry.call = k ∧
    (h.calls k).phase.isAsked = true ∧ h.bindings (h.calls k).binding = some bound ∧
    (params.index "binding_id").asStr = some bound.id ∧
    (params.index "session_id").asStr = some bound.session ∧
    (params.index "slot_id").asStr = some bound.slot ∧
    validOutcome numbers (params.index "outcome") = true ∧
    h' = h.accept (h.calls k).id k (params.index "outcome")
  /-- Any other reply to a pending call leaves it pending. -/
  refused : ∀ params id entry, stringParam params "call_id" = .ok id → h.pending id = some entry →
    ¬(entry.Matches params ∧ validOutcome numbers (params.index "outcome") = true) →
      ∃ e, reply numbers h params = (.error e, h)

section Evidence

variable {numbers : Numbers ν} {h : Hub ν}

theorem Hub.Recorded.ended (hr : h.Recorded) {k c d : Nat} (hc : Ends h k c) (hd : Ends h k d)
    (hstoredC : h.storage.MayBeStored c) (hstoredD : h.storage.MayBeStored d) : c = d := by
  have hold := hr.calls k
  -- `returned` and `unknown`, the receipt of either call
  have hboth : ∀ c d, Inserts h.receipts k c .returned → Inserts h.receipts k d .unknown →
      h.storage.MayBeStored c → h.storage.MayBeStored d → False := by
    intro c d hc hd hstoredC hstoredD
    rcases hold.exclusive c d hc hd with hvoid | hlate
    · exact hvoid.not_mayBeStored hr.storage hstoredC
    · exact hlate.not_mayBeStored hr.storage hstoredD
  rcases hc with hc | hc
  · rcases hd with hd | hd
    · exact hold.once c d .returned (by simp) hc hd
    · exact absurd hstoredD fun h' => hboth c d hc hd hstoredC h'
  · rcases hd with hd | hd
    · exact absurd hstoredD fun h' => hboth d c hd hc h' hstoredC
    · exact hold.once c d .unknown (by simp) hc hd

theorem Hub.Recorded.answered (hr : h.Recorded) (hp : h.Replied) {k : Nat} {result : ToolResult ν}
    (hphase : (h.calls k).phase = .returned result) (happlication : result.isApplication = true) :
    ∃ outcome, Persisted h.storage h.receipts (returnedReceipt k outcome) ∧
      answer outcome = result ∧ (k, outcome) ∈ h.accepted := by
  have hold := hr.calls k
  have hresult : (h.calls k).phase.result = some result := by rw [hphase]; rfl
  obtain ⟨outcome, hpersisted, hwas⟩ := hold.settled (hold.results result hresult happlication)
  have hreceipt := hpersisted
  obtain ⟨c, hc, -⟩ := hreceipt
  refine ⟨outcome, hpersisted, ?_, hp.recorded c k outcome hc⟩
  rcases hwas with hwas | hwas
  · rw [hphase] at hwas
    cases hwas
  · rw [hresult] at hwas
    exact (Option.some.inj hwas).symm

theorem Hub.Replied.accepted (hp : h.Replied) {params : JsonTree ν} {h' : Hub ν}
    (hreply : reply numbers h params = (.ok (), h')) : ∃ k entry bound,
      stringParam params "call_id" = .ok (h.calls k).id ∧
      h.pending (h.calls k).id = some entry ∧ entry.call = k ∧
      (h.calls k).phase.isAsked = true ∧ h.bindings (h.calls k).binding = some bound ∧
      (params.index "binding_id").asStr = some bound.id ∧
      (params.index "session_id").asStr = some bound.session ∧
      (params.index "slot_id").asStr = some bound.slot ∧
      validOutcome numbers (params.index "outcome") = true ∧
      h' = h.accept (h.calls k).id k (params.index "outcome") := by
  rcases reply_cases numbers h params with ⟨e, hcase⟩ | ⟨id, entry, hid, hpending, hmatches, hvalid, hcase⟩
  · rw [hcase] at hreply
    cases hreply
  · rcases hcase with ⟨hopened, hcase⟩ | ⟨-, hcase⟩
    · rw [hcase] at hreply
      obtain rfl := (Prod.mk.inj hreply).2
      obtain ⟨hname, -, bound, hb, hbinding, hsession, hslot⟩ := hp.pending id entry hpending
      have hasked := ((hp.calls entry.call).opened hopened).1
      obtain ⟨hbindingId, hsessionId, hslotId⟩ := hmatches
      refine ⟨entry.call, entry, bound, ?_⟩
      rw [hname, ← hbinding, ← hsession, ← hslot]
      exact ⟨hid, hpending, rfl, hasked, hb, hbindingId, hsessionId, hslotId, hvalid, rfl⟩
    · rw [hcase] at hreply
      cases hreply

theorem reply_refused {params : JsonTree ν} {id : String} {entry : Pending}
    (hid : stringParam params "call_id" = .ok id) (hpending : h.pending id = some entry)
    (hinvalid : ¬(entry.Matches params ∧ validOutcome numbers (params.index "outcome") = true)) :
    ∃ e, reply numbers h params = (.error e, h) := by
  rcases reply_cases numbers h params with hcase | ⟨id', entry', hid', hpending', hmatches, hvalid, -⟩
  · exact hcase
  · rw [hid] at hid'
    obtain rfl := Except.ok.inj hid'
    rw [hpending] at hpending'
    obtain rfl := Option.some.inj hpending'
    exact absurd ⟨hmatches, hvalid⟩ hinvalid

/-- For every interleaving of sessions, calls, the application and storage threads. -/
theorem tool_evidence_is_consistent {limit : Nat} {es : List (Event ν)}
    (hrun : Next.run (next numbers) es (Hub.start limit) = some h) :
    InvocationEvidence numbers h := by
  have hconsistent : (Hub.start limit : Hub ν).Consistent := Hub.start_consistent limit
  have hr := (run_recorded (Hub.start_recorded limit) hconsistent hrun).1
  have hp := run_replied (Hub.start_replied limit) hconsistent hrun
  exact {
    asked := fun k hk => (hr.emitted k hk).2
    ended := fun k c d hc hd hstoredC hstoredD => hr.ended hc hd hstoredC hstoredD
    stored := fun c hc => hc.mayBeStored hr.storage
    answered := fun k result hphase happlication => hr.answered hp hphase happlication
    once := hp.once
    accepted := fun params h' hreply => hp.accepted hreply
    refused := fun params id entry hid hpending hinvalid => reply_refused hid hpending hinvalid }

end Evidence

namespace Sample

def outcome : JsonTree Int := .obj [("kind", .str "success"), ("value", .num 7)]

/-- The application answers, and its answer is recorded. -/
def answered : List (Event Int) :=
  [.reply (.obj [("call_id", .str "invocation"), ("binding_id", .str "binding"),
    ("session_id", .str "session"), ("slot_id", .str "assistant"), ("outcome", outcome)]),
    .advance 0 0, .advance 0 1] ++ stored 1 ++
    [.advance 0 0, .advance 0 0, .advance 0 0, .advance 0 0, .advance 0 0]

def answeredHub : Hub Int := (Next.run (next digits) (sent ++ answered) (.start 1)).getD (.start 1)

end Sample

theorem answer_is_recorded : InvocationEvidence Sample.digits Sample.answeredHub ∧
    Sample.answeredHub.accepted.map Prod.fst = [0] ∧
    (Sample.answeredHub.calls 0).phase.result.map ToolResult.isApplication = some true := by
  have hrun : Next.run (next Sample.digits) (Sample.sent ++ Sample.answered) (Hub.start 1) =
      some Sample.answeredHub := Next.run_getD (by decide +kernel) _
  refine ⟨tool_evidence_is_consistent hrun, ?_, ?_⟩
  · decide +kernel
  · decide +kernel

end Tools

end Host

end AgentBridge
