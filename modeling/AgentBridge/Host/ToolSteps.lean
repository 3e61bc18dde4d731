import AgentBridge.Host.Tools

/-!
# Bindings and the calls that hold them

What one step of a session or of a call keeps: a call that owns a permit of a binding was admitted
under the activity that is open there, and a binding without an open activity has no such call
unless it is retired.
-/

namespace AgentBridge

open Reasoning

namespace Host

namespace Tools

variable {ν : Type}

/-- The call is between taking the lock on `activity` and giving it back. -/
def Phase.locks : Phase ν → Bool
  | .admitting => true
  | .checked => true
  | .reserved => true
  | _ => false

/-- The call is past the check of `retired`, and not yet admitted. -/
def Phase.passed : Phase ν → Bool
  | .checked => true
  | .reserved => true
  | _ => false

/-- The call owns a permit of its binding. -/
def Phase.holds : Phase ν → Bool
  | .admitted => true
  | .dispatching _ => true
  | .dispatched => true
  | .prepared => true
  | .registered => true
  | .waiting => true
  | .received _ => true
  | .recording _ _ => true
  | .settled _ => true
  | .closing _ => true
  | .unsettled _ => true
  | .retired _ => true
  | .retiring _ => true
  | .ended _ => true
  | .reporting _ => true
  | .confirming _ _ => true
  | .releasing _ => true
  | _ => false

/-- The call is past the check of `retired`, and still has to give back what it took. -/
def Phase.inside (phase : Phase ν) : Bool := phase.passed || phase.holds

/-- The drop of a guard that is not settled has retired the binding. -/
def Phase.isRetired : Phase ν → Bool
  | .retired _ => true
  | .retiring _ => true
  | .ended _ => true
  | .reporting _ => true
  | .confirming _ _ => true
  | .releasing _ => true
  | .released _ => true
  | .returned _ => true
  | _ => false

/-- The call has no guard yet. -/
def Phase.isEarly : Phase ν → Bool
  | .idle => true
  | .called => true
  | .found => true
  | .admitting => true
  | .checked => true
  | .reserved => true
  | _ => false

/-- In the drop of a guard that is not settled. -/
def Phase.isUnsettled : Phase ν → Bool
  | .unsettled _ => true
  | .retired _ => true
  | .retiring _ => true
  | .ended _ => true
  | .reporting _ => true
  | .confirming _ _ => true
  | _ => false

/-- What holds of a call by itself. -/
structure Invocation.Sound (call : Invocation ν) : Prop where
  early : call.phase.isEarly = true → call.guard = none
  guarded : call.phase.holds = true → call.guard ≠ none
  unsettled : call.phase.isUnsettled = true → call.guard = some false

theorem Invocation.Sound.unguarded {call : Invocation ν} (hguard : call.guard = none)
    (hholds : call.phase.holds = false) (hunsettled : call.phase.isUnsettled = false) :
    call.Sound where
  early := fun _ => hguard
  guarded := fun h => by rw [hholds] at h; cases h
  unsettled := fun h => by rw [hunsettled] at h; cases h

theorem Invocation.Sound.of_guard {call : Invocation ν} {settled : Bool}
    (hguard : call.guard = some settled) (hearly : call.phase.isEarly = false)
    (hunsettled : call.phase.isUnsettled = true → settled = false) : call.Sound where
  early := fun h => by rw [hearly] at h; cases h
  guarded := fun _ h => by rw [hguard] at h; cases h
  unsettled := fun h => by rw [hguard, hunsettled h]

/-- What holds of a binding by itself. -/
structure Bound.Sound (bound : Bound) : Prop where
  nodup : bound.capacity.Nodup
  ending : ∀ token after, bound.owner = .ending token after →
    bound.lock = .session ∧ (after = .checking ∨ after = .idle ∨ after = .closing)
  /-- With no activity open only a retired binding has calls. -/
  closed : bound.activity = none → bound.retired = true ∨ bound.capacity = []
  owner : bound.owner ≠ .idle → bound.activity = none
  setting : bound.owner = .setting → bound.retired = false ∧ bound.capacity = []

/-- What holds of a call and its binding. -/
structure Invocation.Fits (call : Invocation ν) (k : Nat) (bound : Bound) : Prop where
  holds : k ∈ bound.capacity ↔ call.phase.holds = true
  locks : call.phase.locks = true → bound.lock = .call k ∧ bound.activity = some call.activity
  activity : call.phase.holds = true → ∀ a, bound.activity = some a → call.activity = a
  retired : call.guard = some false → call.phase.isRetired = true → bound.retired = true

structure Consistent (bindings : Nat → Option Bound) (calls : Nat → Invocation ν) : Prop where
  bounds : ∀ b bound, bindings b = some bound → bound.Sound
  fits : ∀ k bound, bindings (calls k).binding = some bound → (calls k).Fits k bound
  members : ∀ b bound, bindings b = some bound → ∀ k ∈ bound.capacity, (calls k).binding = b
  known : ∀ k, (calls k).phase.locks = true ∨ (calls k).guard ≠ none →
    (bindings (calls k).binding).isSome = true
  calls : ∀ k, (calls k).Sound

/-- What a step leaves to the other calls of a binding. -/
structure Bound.Keeps (bound bound' : Bound) (other : Nat → Prop) : Prop where
  members : ∀ j, other j → (j ∈ bound'.capacity ↔ j ∈ bound.capacity)
  lock : ∀ j, other j → bound.lock = .call j →
    bound'.lock = .call j ∧ bound'.activity = bound.activity
  activity : ∀ a, bound'.activity = some a → bound.activity = some a ∨ bound.capacity = []
  retired : bound.retired = true → bound'.retired = true

/-- What no step takes back of a binding. -/
structure Bound.Later (bound bound' : Bound) : Prop where
  id : bound'.id = bound.id
  session : bound'.session = bound.session
  slot : bound'.slot = bound.slot
  worker : bound'.worker = bound.worker
  retired : bound.retired = true → bound'.retired = true
  /-- `begin` succeeds on a retired binding no more. -/
  begun : bound.retired = true → bound'.begun.count true = bound.begun.count true

theorem Bound.Later.refl (bound : Bound) : bound.Later bound :=
  ⟨rfl, rfl, rfl, rfl, fun h => h, fun _ => rfl⟩

theorem Bound.Later.of_eq {bound bound' : Bound} (hid : bound'.id = bound.id)
    (hsession : bound'.session = bound.session) (hslot : bound'.slot = bound.slot)
    (hworker : bound'.worker = bound.worker) (hretired : bound'.retired = bound.retired)
    (hbegun : bound'.begun = bound.begun) : bound.Later bound' :=
  ⟨hid, hsession, hslot, hworker, hretired.trans, fun _ => by rw [hbegun]⟩

theorem Bound.Later.trans {a b c : Bound} (hab : a.Later b) (hbc : b.Later c) : a.Later c where
  id := hbc.id.trans hab.id
  session := hbc.session.trans hab.session
  slot := hbc.slot.trans hab.slot
  worker := hbc.worker.trans hab.worker
  retired := fun h => hbc.retired (hab.retired h)
  begun := fun h => (hbc.begun (hab.retired h)).trans (hab.begun h)

/-- A step leads to bindings and calls that fit, takes nothing back, and brings no call into a
retired binding. -/
structure Follows (bindings : Nat → Option Bound) (calls : Nat → Invocation ν)
    (bindings' : Nat → Option Bound) (calls' : Nat → Invocation ν) : Prop where
  consistent : Consistent bindings' calls'
  later : ∀ b bound, bindings b = some bound → ∃ bound', bindings' b = some bound' ∧
    bound.Later bound'
  inside : ∀ b bound, bindings b = some bound → bound.retired = true → ∀ k,
    (calls' k).binding = b → (calls' k).phase.inside = true →
      (calls k).binding = b ∧ (calls k).phase.inside = true

theorem Bound.Keeps.refl (bound : Bound) (other : Nat → Prop) : bound.Keeps bound other where
  members := fun _ _ => Iff.rfl
  lock := fun _ _ h => ⟨h, rfl⟩
  activity := fun _ h => .inl h
  retired := fun h => h

/-- Nothing changes that the calls of a binding see. -/
theorem Bound.Keeps.of_eq {bound bound' : Bound} {other : Nat → Prop}
    (hcapacity : bound'.capacity = bound.capacity) (hlock : bound'.lock = bound.lock)
    (hactivity : bound'.activity = bound.activity) (hretired : bound'.retired = bound.retired) :
    bound.Keeps bound' other where
  members := fun j _ => by rw [hcapacity]
  lock := fun j _ h => ⟨hlock.trans h, hactivity⟩
  activity := fun a h => .inl (hactivity ▸ h)
  retired := fun h => hretired.trans h

/-- No other call holds the lock. -/
theorem Bound.Keeps.unlocked {bound bound' : Bound} {other : Nat → Prop}
    (hlock : ∀ j, other j → bound.lock ≠ .call j)
    (hmembers : ∀ j, other j → (j ∈ bound'.capacity ↔ j ∈ bound.capacity))
    (hactivity : ∀ a, bound'.activity = some a → bound.activity = some a ∨ bound.capacity = [])
    (hretired : bound.retired = true → bound'.retired = true) : bound.Keeps bound' other where
  members := hmembers
  lock := fun j hj h => absurd h (hlock j hj)
  activity := hactivity
  retired := hretired

theorem Invocation.Fits.keep {call : Invocation ν} {k : Nat} {bound bound' : Bound}
    {other : Nat → Prop} (h : call.Fits k bound) (hkeeps : bound.Keeps bound' other)
    (hk : other k) : call.Fits k bound' where
  holds := (hkeeps.members k hk).trans h.holds
  locks := by
    intro hlocks
    obtain ⟨hlock, hactivity⟩ := h.locks hlocks
    obtain ⟨hlock', hsame⟩ := hkeeps.lock k hk hlock
    exact ⟨hlock', hsame.trans hactivity⟩
  activity := by
    intro hholds a ha
    rcases hkeeps.activity a ha with hbefore | hempty
    · exact h.activity hholds a hbefore
    · have hmem := h.holds.mpr hholds
      rw [hempty] at hmem
      cases hmem
  retired := fun hguard hretired => hkeeps.retired (h.retired hguard hretired)

section Updates

variable {bindings : Nat → Option Bound} {calls : Nat → Invocation ν} {b k : Nat}
  {bound bound' : Bound} {call : Invocation ν}

theorem later_update (hb : bindings b = some bound) (hlater : bound.Later bound') :
    ∀ c other, bindings c = some other →
      ∃ other', Function.update bindings b (some bound') c = some other' ∧ other.Later other' := by
  intro c other hc
  by_cases hcb : c = b
  · subst hcb
    obtain rfl : bound = other := Option.some.inj (hb.symm.trans hc)
    exact ⟨bound', Function.update_self _ _ _, hlater⟩
  · rw [Function.update_of_ne hcb]
    exact ⟨other, hc, .refl other⟩

theorem Follows.refl (h : Consistent bindings calls) : Follows bindings calls bindings calls :=
  ⟨h, fun _ bound hb => ⟨bound, hb, .refl bound⟩, fun _ _ _ _ _ hk hin => ⟨hk, hin⟩⟩

/-- A binding and one of its calls move. -/
theorem Consistent.update (h : Consistent bindings calls) (hb : bindings b = some bound)
    (hkeeps : bound.Keeps bound' (· ≠ k)) (hsound : bound'.Sound) (hcall : call.binding = b)
    (hwas : (calls k).binding = b) (hfits : call.Fits k bound') (hcallSound : call.Sound)
    (hlater : bound.Later bound')
    (hinside : bound.retired = true → call.phase.inside = true → (calls k).phase.inside = true) :
    Follows bindings calls (Function.update bindings b (some bound'))
      (Function.update calls k call) where
  later := later_update hb hlater
  inside := by
    intro c other hc hretired j hj hin
    by_cases hjk : j = k
    · subst hjk
      rw [Function.update_self] at hj hin
      obtain rfl : b = c := hcall.symm.trans hj
      obtain rfl : bound = other := Option.some.inj (hb.symm.trans hc)
      exact ⟨hwas, hinside hretired hin⟩
    · rw [Function.update_of_ne hjk] at hj hin
      exact ⟨hj, hin⟩
  consistent.bounds := by
    intro c other hc
    by_cases hcb : c = b
    · subst hcb
      rw [Function.update_self] at hc
      obtain rfl := Option.some.inj hc
      exact hsound
    · rw [Function.update_of_ne hcb] at hc
      exact h.bounds c other hc
  consistent.fits := by
    intro j other hj
    by_cases hjk : j = k
    · subst hjk
      rw [Function.update_self] at hj ⊢
      rw [hcall, Function.update_self] at hj
      obtain rfl := Option.some.inj hj
      exact hfits
    · rw [Function.update_of_ne hjk] at hj ⊢
      by_cases hjb : (calls j).binding = b
      · rw [hjb, Function.update_self] at hj
        obtain rfl := Option.some.inj hj
        exact (h.fits j bound (by rw [hjb]; exact hb)).keep hkeeps hjk
      · rw [Function.update_of_ne hjb] at hj
        exact h.fits j other hj
  consistent.members := by
    intro c other hc j hj
    by_cases hjk : j = k
    · subst hjk
      rw [Function.update_self, hcall]
      by_cases hcb : c = b
      · exact hcb.symm
      · rw [Function.update_of_ne hcb] at hc
        have hold := h.members c other hc j hj
        exact hwas.symm.trans hold
    · rw [Function.update_of_ne hjk]
      by_cases hcb : c = b
      · subst hcb
        rw [Function.update_self] at hc
        obtain rfl := Option.some.inj hc
        exact h.members c bound hb j ((hkeeps.members j hjk).mp hj)
      · rw [Function.update_of_ne hcb] at hc
        exact h.members c other hc j hj
  consistent.known := by
    intro j hj
    by_cases hjk : j = k
    · subst hjk
      rw [Function.update_self, hcall, Function.update_self]
      rfl
    · rw [Function.update_of_ne hjk] at hj ⊢
      by_cases hjb : (calls j).binding = b
      · rw [hjb, Function.update_self]
        rfl
      · rw [Function.update_of_ne hjb]
        exact h.known j hj
  consistent.calls := by
    intro j
    by_cases hjk : j = k
    · subst hjk
      rw [Function.update_self]
      exact hcallSound
    · rw [Function.update_of_ne hjk]
      exact h.calls j

/-- Only a binding moves. -/
theorem Consistent.setBinding (h : Consistent bindings calls) (hb : bindings b = some bound)
    (hkeeps : bound.Keeps bound' fun _ => True) (hsound : bound'.Sound)
    (hlater : bound.Later bound') :
    Follows bindings calls (Function.update bindings b (some bound')) calls where
  later := later_update hb hlater
  inside := fun _ _ _ _ _ hj hin => ⟨hj, hin⟩
  consistent.bounds := by
    intro c other hc
    by_cases hcb : c = b
    · subst hcb
      rw [Function.update_self] at hc
      obtain rfl := Option.some.inj hc
      exact hsound
    · rw [Function.update_of_ne hcb] at hc
      exact h.bounds c other hc
  consistent.fits := by
    intro j other hj
    by_cases hjb : (calls j).binding = b
    · rw [hjb, Function.update_self] at hj
      obtain rfl := Option.some.inj hj
      exact (h.fits j bound (by rw [hjb]; exact hb)).keep hkeeps trivial
    · rw [Function.update_of_ne hjb] at hj
      exact h.fits j other hj
  consistent.members := by
    intro c other hc j hj
    by_cases hcb : c = b
    · subst hcb
      rw [Function.update_self] at hc
      obtain rfl := Option.some.inj hc
      exact h.members c bound hb j ((hkeeps.members j trivial).mp hj)
    · rw [Function.update_of_ne hcb] at hc
      exact h.members c other hc j hj
  consistent.known := by
    intro j hj
    by_cases hjb : (calls j).binding = b
    · rw [hjb, Function.update_self]
      rfl
    · rw [Function.update_of_ne hjb]
      exact h.known j hj
  consistent.calls := h.calls

/-- Only a call moves, outside of any binding's permits if it changes its binding. -/
theorem Consistent.setCall (h : Consistent bindings calls)
    (hfits : ∀ bound, bindings call.binding = some bound → (calls k).Fits k bound →
      call.Fits k bound)
    (hwas : call.binding = (calls k).binding ∨ (calls k).phase.holds = false ∧
      (calls k).phase.locks = false ∧ (calls k).guard = none)
    (hknown : call.phase.locks = true ∨ call.guard ≠ none →
      (calls k).phase.locks = true ∨ (calls k).guard ≠ none)
    (hcallSound : call.Sound)
    (hinside : ∀ bound, bindings call.binding = some bound → bound.retired = true →
      call.phase.inside = true →
        call.binding = (calls k).binding ∧ (calls k).phase.inside = true) :
    Follows bindings calls bindings (Function.update calls k call) where
  later := fun _ bound hb => ⟨bound, hb, .refl bound⟩
  inside := by
    intro c other hc hretired j hj hin
    by_cases hjk : j = k
    · subst hjk
      rw [Function.update_self] at hj hin
      obtain ⟨hsame, hwas⟩ := hinside other (by rw [hj]; exact hc) hretired hin
      exact ⟨hsame.symm.trans hj, hwas⟩
    · rw [Function.update_of_ne hjk] at hj hin
      exact ⟨hj, hin⟩
  consistent.bounds := h.bounds
  consistent.fits := by
    intro j other hj
    by_cases hjk : j = k
    · subst hjk
      rw [Function.update_self] at hj ⊢
      apply hfits other hj
      rcases hwas with hsame | ⟨hholds, hlocks, hguard⟩
      · rw [hsame] at hj
        exact h.fits j other hj
      · exact {
          holds := by
            rw [hholds]
            constructor
            · intro hmem
              have hbinding := h.members _ other hj j hmem
              rw [← hbinding] at hj
              exact hholds ▸ (h.fits j other hj).holds.mp hmem
            · intro hfalse
              cases hfalse
          locks := fun h' => by rw [hlocks] at h'; cases h'
          activity := fun h' => by rw [hholds] at h'; cases h'
          retired := fun h' => by rw [hguard] at h'; cases h' }
    · rw [Function.update_of_ne hjk] at hj ⊢
      exact h.fits j other hj
  consistent.members := by
    intro c other hc j hj
    by_cases hjk : j = k
    · subst hjk
      rw [Function.update_self]
      have hbinding := h.members c other hc j hj
      rcases hwas with hsame | ⟨hholds, -, -⟩
      · exact hsame.trans hbinding
      · have hmem := hj
        rw [← hbinding] at hc
        have hh := (h.fits j other hc).holds.mp hmem
        rw [hholds] at hh
        cases hh
    · rw [Function.update_of_ne hjk]
      exact h.members c other hc j hj
  consistent.known := by
    intro j hj
    by_cases hjk : j = k
    · subst hjk
      rw [Function.update_self] at hj ⊢
      have hsome := h.known j (hknown hj)
      rcases hwas with hsame | ⟨-, hlocks, hguard⟩
      · rw [hsame]
        exact hsome
      · rcases hknown hj with h' | h'
        · rw [hlocks] at h'
          cases h'
        · exact absurd hguard h'
    · rw [Function.update_of_ne hjk] at hj ⊢
      exact h.known j hj
  consistent.calls := by
    intro j
    by_cases hjk : j = k
    · subst hjk
      rw [Function.update_self]
      exact hcallSound
    · rw [Function.update_of_ne hjk]
      exact h.calls j

/-- A call moves on within its binding. -/
theorem Consistent.move (h : Consistent bindings calls)
    (hbinding : call.binding = (calls k).binding) (hactivity : call.activity = (calls k).activity)
    (hholds : call.phase.holds = (calls k).phase.holds)
    (hlocks : call.phase.locks = (calls k).phase.locks)
    (hguard : call.guard ≠ none → (calls k).guard ≠ none)
    (hretired : call.guard = some false → call.phase.isRetired = true →
      (calls k).guard = some false ∧ (calls k).phase.isRetired = true)
    (hcallSound : call.Sound)
    (hinside : ∀ bound, bindings (calls k).binding = some bound → bound.retired = true →
      call.phase.inside = true → (calls k).phase.inside = true) :
    Follows bindings calls bindings (Function.update calls k call) := by
  apply h.setCall _ (.inl hbinding) _ hcallSound
  · intro bound hb hretired' hin
    rw [hbinding] at hb
    exact ⟨hbinding, hinside bound hb hretired' hin⟩
  · intro bound _ hfits
    exact {
      holds := by rw [hholds]; exact hfits.holds
      locks := by rw [hlocks, hactivity]; exact hfits.locks
      activity := by rw [hholds, hactivity]; exact hfits.activity
      retired := by
        intro h' hphase
        obtain ⟨hg, hr⟩ := hretired h' hphase
        exact hfits.retired hg hr }
  · rw [hlocks]
    exact Or.imp id hguard

end Updates

/-- The bindings and the calls of a hub fit. -/
def Hub.Consistent (h : Hub ν) : Prop := Tools.Consistent h.bindings h.calls

/-- A step of a hub. -/
def Hub.Follows (h h' : Hub ν) : Prop := Tools.Follows h.bindings h.calls h'.bindings h'.calls

theorem Hub.start_consistent (limit : Nat) : (Hub.start limit : Hub ν).Consistent where
  bounds := fun _ _ h => by cases h
  fits := fun _ _ h => by cases h
  members := fun _ _ h => by cases h
  known := fun _ h => by
    rcases h with h | h
    · cases h
    · exact absurd rfl h
  calls := fun _ => ⟨fun _ => rfl, fun h => (by cases h), fun h => (by cases h)⟩

variable {numbers : Numbers ν} {h h' : Hub ν} {b k storageCall : Nat} {bound : Bound}

/-! ## Sessions -/

theorem endActivity_follows {owner : Owner} (hh : h.Consistent) (hb : h.bindings b = some bound)
    (howner : owner = .checking ∨ owner = .idle ∨ owner = .closing)
    (hnext : endActivity h b bound owner = some h') : h.Follows h' := by
  have hsound := hh.bounds b bound hb
  have hsetting : owner ≠ .setting := by
    rcases howner with rfl | rfl | rfl <;> simp
  have hending : ∀ token after, owner ≠ .ending token after := by
    rcases howner with rfl | rfl | rfl <;> simp
  unfold endActivity at hnext
  split at hnext
  · next hlock =>
    split at hnext
    · next hactivity =>
      obtain rfl := Option.some.inj hnext
      refine hh.setBinding hb (.of_eq rfl rfl rfl rfl) ?_ (.of_eq rfl rfl rfl rfl rfl rfl)
      exact { hsound with
        ending := fun token after h' => absurd h' (hending token after)
        owner := fun _ => hactivity
        setting := fun h' => absurd h' hsetting }
    · next token hactivity =>
      obtain rfl := Option.some.inj hnext
      apply hh.setBinding hb
      · apply Bound.Keeps.unlocked
        · intro j _
          rw [hlock]
          simp
        · exact fun _ _ => Iff.rfl
        · exact fun a h' => by cases h'
        · intro hretired
          simp only [hretired, Bool.true_or]
      · exact {
          nodup := hsound.nodup
          ending := by
            intro token' after hafter
            obtain ⟨-, rfl⟩ := Owner.ending.inj hafter
            exact ⟨rfl, howner⟩
          closed := by
            intro _
            cases hcapacity : bound.capacity with
            | nil => exact .inr rfl
            | cons k capacity => exact .inl (by simp)
          owner := fun _ => rfl
          setting := fun h' => by cases h' }
      · exact ⟨rfl, rfl, rfl, rfl, fun h' => by simp [h'], fun _ => rfl⟩
  · cases hnext

theorem sessionStep_follows (hh : h.Consistent) (hb : h.bindings b = some bound)
    (hnext : sessionStep h b bound = some h') : h.Follows h' := by
  have hsound := hh.bounds b bound hb
  unfold sessionStep at hnext
  split at hnext
  · next token after howner =>
    obtain rfl := Option.some.inj hnext
    have hactivity := hsound.owner (by rw [howner]; simp)
    obtain ⟨hlock, hafter⟩ := hsound.ending token after howner
    apply hh.setBinding hb
    · apply Bound.Keeps.unlocked
      · intro j _
        rw [hlock]
        simp
      · exact fun _ _ => Iff.rfl
      · exact fun a h' => .inl h'
      · exact fun h' => h'
    · exact { hsound with
        ending := by
          intro token' after' h'
          rcases hafter with rfl | rfl | rfl <;> cases h'
        owner := fun _ => hactivity
        setting := by
          intro h'
          rcases hafter with rfl | rfl | rfl <;> cases h' }
    · exact .of_eq rfl rfl rfl rfl rfl rfl
  · next howner =>
    have hactivity := hsound.owner (by rw [howner]; simp)
    split at hnext
    · obtain rfl := Option.some.inj hnext
      refine hh.setBinding hb (.of_eq rfl rfl rfl rfl) ?_
        ⟨rfl, rfl, rfl, rfl, fun h' => h', fun _ => by simp⟩
      exact { hsound with
        ending := fun _ _ h' => by cases h'
        owner := fun _ => hactivity
        setting := fun h' => by cases h' }
    · next hretired =>
      obtain rfl := Option.some.inj hnext
      refine hh.setBinding hb (.of_eq rfl rfl rfl rfl) ?_ (.of_eq rfl rfl rfl rfl rfl rfl)
      have hempty : bound.capacity = [] := (hsound.closed hactivity).resolve_left hretired
      exact { hsound with
        ending := fun _ _ h' => by cases h'
        owner := fun _ => hactivity
        setting := fun _ => ⟨by simpa using hretired, hempty⟩ }
  · next howner =>
    obtain ⟨hretired, hempty⟩ := hsound.setting howner
    split at hnext
    · next hlock =>
      obtain rfl := Option.some.inj hnext
      apply hh.setBinding hb
      · apply Bound.Keeps.unlocked
        · intro j _
          rw [hlock]
          simp
        · exact fun _ _ => Iff.rfl
        · exact fun _ _ => .inr hempty
        · exact fun h' => h'
      · exact { hsound with
          ending := fun _ _ h' => by cases h'
          closed := fun h' => by cases h'
          owner := fun h' => absurd rfl h'
          setting := fun h' => by cases h' }
      · refine ⟨rfl, rfl, rfl, rfl, fun h' => h', fun h' => ?_⟩
        rw [hretired] at h'
        cases h'
    · cases hnext
  · next howner =>
    obtain rfl := Option.some.inj hnext
    have hactivity := hsound.owner (by rw [howner]; simp)
    refine hh.setBinding hb (.of_eq rfl rfl rfl rfl) ?_ (.of_eq rfl rfl rfl rfl rfl rfl)
    exact { hsound with
      ending := fun _ _ h' => by cases h'
      owner := fun _ => hactivity
      setting := fun h' => by cases h' }
  · next howner =>
    obtain rfl := Option.some.inj hnext
    have hactivity := hsound.owner (by rw [howner]; simp)
    refine hh.setBinding hb (.of_eq rfl rfl rfl rfl) ?_ (.of_eq rfl rfl rfl rfl rfl rfl)
    exact { hsound with
      ending := fun _ _ h' => by cases h'
      owner := fun _ => hactivity
      setting := fun h' => by cases h' }
  · cases hnext

/-! ## Calls -/

/-- A call moves on, and keeps its guard. -/
theorem Hub.Consistent.setPhase (hh : h.Consistent) {phase : Phase ν}
    (hholds : phase.holds = (h.calls k).phase.holds) (hlocks : phase.locks = (h.calls k).phase.locks)
    (hretired : (h.calls k).guard = some false → phase.isRetired = true →
      (h.calls k).phase.isRetired = true)
    (hsound : ({ h.calls k with phase } : Invocation ν).Sound)
    (hinside : ∀ bound, h.bindings (h.calls k).binding = some bound → bound.retired = true →
      phase.inside = true → (h.calls k).phase.inside = true) : h.Follows (h.setPhase k phase) :=
  Tools.Consistent.move hh rfl rfl hholds hlocks (fun h' => h')
    (fun hguard hphase => ⟨hguard, hretired hguard hphase⟩) hsound hinside

theorem lookup_follows (hh : h.Consistent) (hnext : lookup numbers h k (h.calls k) = some h') :
    h.Follows h' := by
  have hsound := hh.calls k
  unfold lookup at hnext
  split at hnext
  · next hphase =>
    have hguard := hsound.early (by rw [hphase]; rfl)
    have hreturned : ∀ result, h.Follows (h.setPhase k (.returned result)) := by
      intro result
      apply hh.setPhase (by rw [hphase]; rfl) (by rw [hphase]; rfl)
      · intro h'
        rw [hguard] at h'
        cases h'
      · exact .unguarded hguard rfl rfl
      · exact fun _ _ _ h' => by cases h'
    split at hnext
    · exact Option.some.inj hnext ▸ hreturned _
    · split at hnext
      · exact Option.some.inj hnext ▸ hreturned _
      · next b _ =>
        obtain rfl := Option.some.inj hnext
        apply Tools.Consistent.setCall hh
        · intro bound _ hfits
          exact {
            holds := by
              have hh := hfits.holds
              rw [hphase] at hh
              exact hh
            locks := fun h' => by cases h'
            activity := fun h' => by cases h'
            retired := fun _ h' => by cases h' }
        · exact .inr ⟨by rw [hphase]; rfl, by rw [hphase]; rfl, hguard⟩
        · intro h'
          rcases h' with h' | h'
          · cases h'
          · exact .inr h'
        · exact .unguarded hguard rfl rfl
        · exact fun _ _ _ h' => by cases h'
  · cases hnext

/-- A call gives the lock back, and is refused. -/
theorem refuse_follows (hh : h.Consistent) (hb : h.bindings (h.calls k).binding = some bound)
    (hlocks : (h.calls k).phase.locks = true) (hearly : (h.calls k).phase.isEarly = true)
    {capacity : List Nat} (result : ToolResult ν) :
    h.Follows (({ h with capacity }.setBinding (h.calls k).binding
      { bound with lock := .free }).setPhase k (.returned result)) := by
  have hfits := hh.fits k bound hb
  have hsound := hh.bounds _ bound hb
  have hguard := (hh.calls k).early hearly
  obtain ⟨hlock, hactivity⟩ := hfits.locks hlocks
  have hholds : (h.calls k).phase.holds = false := by
    cases hphase : (h.calls k).phase.holds with
    | false => rfl
    | true => exact absurd hguard ((hh.calls k).guarded hphase)
  refine hh.update hb ?_ ?_ rfl rfl ?_ (.unguarded hguard rfl rfl) (.of_eq rfl rfl rfl rfl rfl rfl)
    (fun _ h' => by cases h')
  · apply Bound.Keeps.unlocked
    · intro j hj hj'
      rw [hlock] at hj'
      exact hj (Lock.call.inj hj').symm
    · exact fun _ _ => Iff.rfl
    · exact fun _ h' => .inl h'
    · exact fun h' => h'
  · exact { hsound with
      ending := by
        intro token after h'
        have hsession := (hsound.ending token after h').1
        rw [hlock] at hsession
        cases hsession }
  · exact {
      holds := by
        rw [hfits.holds, hholds]
        exact Iff.rfl
      locks := fun h' => by cases h'
      activity := fun h' => by cases h'
      retired := by
        intro h'
        have hsome : (h.calls k).guard = some false := h'
        rw [hguard] at hsome
        cases hsome }

theorem admit_follows (hh : h.Consistent) (hb : h.bindings (h.calls k).binding = some bound)
    (hnext : admitCall h k (h.calls k) bound = some h') : h.Follows h' := by
  have hfits := hh.fits k bound hb
  have hsound := hh.bounds _ bound hb
  unfold admitCall at hnext
  split at hnext
  · next hphase =>
    have hguard := (hh.calls k).early (by rw [hphase]; rfl)
    have hholds : (h.calls k).phase.holds = false := by rw [hphase]; rfl
    split at hnext
    · next hlock =>
      split at hnext
      · obtain rfl := Option.some.inj hnext
        apply hh.setPhase (by rw [hphase]; rfl) (by rw [hphase]; rfl)
        · intro h'
          rw [hguard] at h'
          cases h'
        · exact .unguarded hguard rfl rfl
        · exact fun _ _ _ h' => by cases h'
      · next activity hactivity =>
        obtain rfl := Option.some.inj hnext
        refine hh.update hb ?_ ?_ rfl rfl ?_ (.unguarded hguard rfl rfl)
          (.of_eq rfl rfl rfl rfl rfl rfl) (fun _ h' => by cases h')
        · apply Bound.Keeps.unlocked
          · intro j _
            rw [hlock]
            simp
          · exact fun _ _ => Iff.rfl
          · exact fun _ h' => .inl h'
          · exact fun h' => h'
        · exact { hsound with
            ending := by
              intro token after h'
              have hsession := (hsound.ending token after h').1
              rw [hlock] at hsession
              cases hsession }
        · exact {
            holds := by
              rw [hfits.holds, hholds]
              exact Iff.rfl
            locks := fun _ => ⟨rfl, hactivity⟩
            activity := fun h' => by cases h'
            retired := fun _ h' => by cases h' }
    · cases hnext
  · next hphase =>
    have hguard := (hh.calls k).early (by rw [hphase]; rfl)
    split at hnext
    · obtain rfl := Option.some.inj hnext
      exact refuse_follows hh hb (by rw [hphase]; rfl) (by rw [hphase]; rfl) _
    · next hopen =>
      obtain rfl := Option.some.inj hnext
      apply hh.setPhase (by rw [hphase]; rfl) (by rw [hphase]; rfl)
      · exact fun _ h' => by cases h'
      · exact .unguarded hguard rfl rfl
      · intro other hother hretired _
        obtain rfl : bound = other := Option.some.inj (hb.symm.trans hother)
        simp [hretired] at hopen
  · next hphase =>
    have hguard := (hh.calls k).early (by rw [hphase]; rfl)
    split at hnext
    · obtain rfl := Option.some.inj hnext
      apply Hub.Consistent.setPhase (h := { h with capacity := k :: h.capacity }) hh
        (by simp only [hphase]; rfl) (by simp only [hphase]; rfl)
      · exact fun _ h' => by cases h'
      · exact .unguarded hguard rfl rfl
      · intro _ _ _ _
        simp only [hphase]
        rfl
    · obtain rfl := Option.some.inj hnext
      exact refuse_follows hh hb (by rw [hphase]; rfl) (by rw [hphase]; rfl) _
  · next hphase =>
    have hguard := (hh.calls k).early (by rw [hphase]; rfl)
    have hholds : (h.calls k).phase.holds = false := by rw [hphase]; rfl
    obtain ⟨hlock, hactivity⟩ := hfits.locks (by rw [hphase]; rfl)
    split at hnext
    · obtain rfl := Option.some.inj hnext
      have hnew : k ∉ bound.capacity := by
        rw [hfits.holds, hholds]
        simp
      refine hh.update hb ?_ ?_ rfl rfl ?_ (.of_guard rfl rfl fun _ => rfl)
        (.of_eq rfl rfl rfl rfl rfl rfl) (fun _ _ => by rw [hphase]; rfl)
      · apply Bound.Keeps.unlocked
        · intro j hj hj'
          rw [hlock] at hj'
          exact hj (Lock.call.inj hj').symm
        · intro j hj
          simp [hj]
        · exact fun _ h' => .inl h'
        · exact fun h' => h'
      · exact {
          nodup := List.nodup_cons.mpr ⟨hnew, hsound.nodup⟩
          ending := by
            intro token after h'
            have hsession := (hsound.ending token after h').1
            rw [hlock] at hsession
            cases hsession
          closed := by
            intro h'
            simp only [hactivity] at h'
            cases h'
          owner := hsound.owner
          setting := by
            intro h'
            have hnone := hsound.owner (by rw [h']; simp)
            rw [hactivity] at hnone
            cases hnone }
      · exact {
          holds := by simp [Phase.holds]
          locks := fun h' => by cases h'
          activity := by
            intro _ a ha
            simp only [hactivity] at ha
            exact Option.some.inj ha
          retired := fun _ h' => by cases h' }
    · obtain rfl := Option.some.inj hnext
      exact refuse_follows hh hb (by rw [hphase]; rfl) (by rw [hphase]; rfl) _
  · cases hnext

/-- A receipt is the storage's affair. -/
theorem insertReceipt_eq {worker : Nat} {receipt : Receipt ν}
    (hnext : h.insertReceipt worker storageCall receipt = some h') :
    h.receipts storageCall = none ∧
      ∃ storage, Storage.next h.storage (.call storageCall worker) = some storage ∧
        h' = { h with
          storage, receipts := Function.update h.receipts storageCall (some receipt) } := by
  unfold Hub.insertReceipt at hnext
  split at hnext
  · cases hnext
  · next hnone =>
    obtain ⟨storage, hstorage, hnext⟩ := Option.bind_eq_some_iff.mp hnext
    exact ⟨hnone, storage, hstorage, (Option.some.inj hnext).symm⟩

/-- A call in service moves on to another phase of it, or to the drop of its guard. -/
theorem serve_move (hh : h.Consistent) {call : Invocation ν}
    (hstage : (h.calls k).phase.stage = .service) (hbinding : call.binding = (h.calls k).binding)
    (hactivity : call.activity = (h.calls k).activity)
    (hguard : call.guard = (h.calls k).guard ∨ call.guard = some true)
    (hholds : call.phase.holds = true) (hlocks : call.phase.locks = false)
    (hretired : call.phase.isRetired = false) (hearly : call.phase.isEarly = false)
    (hunsettled : call.phase.isUnsettled = false) :
    Tools.Follows h.bindings h.calls h.bindings (Function.update h.calls k call) := by
  have hsound := hh.calls k
  have hwas : (h.calls k).phase.holds = true ∧ (h.calls k).phase.locks = false := by
    cases hphase : (h.calls k).phase <;> rw [hphase] at hstage <;>
      first
        | exact ⟨rfl, rfl⟩
        | cases hstage
  have hguarded := hsound.guarded hwas.1
  apply Tools.Consistent.move hh hbinding hactivity (hholds.trans hwas.1.symm)
    (hlocks.trans hwas.2.symm) (fun _ => hguarded)
  · intro _ h'
    rw [hretired] at h'
    cases h'
  · exact {
      early := fun h' => by rw [hearly] at h'; cases h'
      guarded := by
        intro _
        rcases hguard with hguard | hguard
        · rw [hguard]
          exact hguarded
        · rw [hguard]
          simp
      unsettled := fun h' => by rw [hunsettled] at h'; cases h' }
  · intro _ _ _ _
    simp only [Phase.inside, hwas.1, Bool.or_true]

theorem serve_follows (hh : h.Consistent)
    (hnext : serve h k storageCall (h.calls k) bound = some h') : h.Follows h' := by
  unfold serve at hnext
  split at hnext
  · next hphase =>
    have hstage : (h.calls k).phase.stage = .service := by rw [hphase]; rfl
    obtain ⟨mid, hmid, hnext⟩ := Option.bind_eq_some_iff.mp hnext
    obtain ⟨-, storage, -, rfl⟩ := insertReceipt_eq hmid
    obtain rfl := Option.some.inj hnext
    exact serve_move hh hstage rfl rfl (.inl rfl) rfl rfl rfl rfl rfl
  · next hphase =>
    have hstage : (h.calls k).phase.stage = .service := by rw [hphase]; rfl
    split at hnext
    · cases hnext
    · obtain rfl := Option.some.inj hnext
      exact serve_move hh hstage rfl rfl (.inl rfl) rfl rfl rfl rfl rfl
    · obtain rfl := Option.some.inj hnext
      exact serve_move hh hstage rfl rfl (.inl rfl) rfl rfl rfl rfl rfl
  · next hphase =>
    have hstage : (h.calls k).phase.stage = .service := by rw [hphase]; rfl
    split at hnext
    · obtain rfl := Option.some.inj hnext
      exact serve_move hh hstage rfl rfl (.inl rfl) rfl rfl rfl rfl rfl
    · obtain rfl := Option.some.inj hnext
      exact serve_move hh hstage rfl rfl (.inl rfl) rfl rfl rfl rfl rfl
  · next hphase =>
    have hstage : (h.calls k).phase.stage = .service := by rw [hphase]; rfl
    obtain rfl := Option.some.inj hnext
    exact serve_move hh hstage rfl rfl (.inl rfl) rfl rfl rfl rfl rfl
  · next hphase =>
    have hstage : (h.calls k).phase.stage = .service := by rw [hphase]; rfl
    obtain rfl := Option.some.inj hnext
    exact serve_move hh hstage rfl rfl (.inl rfl) rfl rfl rfl rfl rfl
  · next hphase =>
    have hstage : (h.calls k).phase.stage = .service := by rw [hphase]; rfl
    split at hnext
    · obtain rfl := Option.some.inj hnext
      exact serve_move hh hstage rfl rfl (.inl rfl) rfl rfl rfl rfl rfl
    · split at hnext
      · obtain rfl := Option.some.inj hnext
        exact serve_move hh hstage rfl rfl (.inl rfl) rfl rfl rfl rfl rfl
      · cases hnext
  · next outcome hphase =>
    have hstage : (h.calls k).phase.stage = .service := by rw [hphase]; rfl
    obtain ⟨mid, hmid, hnext⟩ := Option.bind_eq_some_iff.mp hnext
    obtain ⟨-, storage, -, rfl⟩ := insertReceipt_eq hmid
    obtain rfl := Option.some.inj hnext
    exact serve_move hh hstage rfl rfl (.inl rfl) rfl rfl rfl rfl rfl
  · next hphase =>
    have hstage : (h.calls k).phase.stage = .service := by rw [hphase]; rfl
    split at hnext
    · cases hnext
    · obtain rfl := Option.some.inj hnext
      exact serve_move hh hstage rfl rfl (.inl rfl) rfl rfl rfl rfl rfl
    · obtain rfl := Option.some.inj hnext
      exact serve_move hh hstage rfl rfl (.inr rfl) rfl rfl rfl rfl rfl
  · next hphase =>
    have hstage : (h.calls k).phase.stage = .service := by rw [hphase]; rfl
    obtain rfl := Option.some.inj hnext
    exact serve_move hh hstage rfl rfl (.inl rfl) rfl rfl rfl rfl rfl
  · cases hnext

/-- A guard that is dropped moves on to the next step of its drop. -/
theorem close_move (hh : h.Consistent) {phase : Phase ν}
    (hwas : (h.calls k).phase.holds = true) (hlocked : (h.calls k).phase.locks = false)
    (hholds : phase.holds = true) (hlocks : phase.locks = false)
    (hretired : (h.calls k).guard = some false → phase.isRetired = true →
      (h.calls k).phase.isRetired = true) (hearly : phase.isEarly = false)
    (hunsettled : phase.isUnsettled = true → (h.calls k).guard = some false) :
    Tools.Follows h.bindings h.calls h.bindings
      (Function.update h.calls k { h.calls k with phase }) := by
  apply hh.setPhase (hholds.trans hwas.symm) (hlocks.trans hlocked.symm) hretired
  · exact {
      early := fun h' => by simp only [hearly] at h'; cases h'
      guarded := fun _ => (hh.calls k).guarded hwas
      unsettled := hunsettled }
  · intro _ _ _ _
    simp only [Phase.inside, hwas, Bool.or_true]

theorem close_follows (hh : h.Consistent) (hb : h.bindings (h.calls k).binding = some bound)
    (hnext : close h k storageCall (h.calls k) bound = some h') : h.Follows h' := by
  have hfits := hh.fits k bound hb
  have hsound := hh.bounds _ bound hb
  have hcall := hh.calls k
  unfold close at hnext
  split at hnext
  · next result hphase =>
    have hguarded := hcall.guarded (by rw [hphase]; rfl)
    split at hnext
    · next hguard =>
      obtain rfl := Option.some.inj hnext
      apply close_move hh (by rw [hphase]; rfl) (by rw [hphase]; rfl) rfl rfl _ rfl
      · intro h'
        cases h'
      · intro h'
        rw [hguard] at h'
        cases h'
    · next hguard =>
      obtain rfl := Option.some.inj hnext
      apply close_move hh (by rw [hphase]; rfl) (by rw [hphase]; rfl) rfl rfl _ rfl
      · intro _
        cases hg : (h.calls k).guard with
        | none => exact absurd hg hguarded
        | some settled =>
          cases settled with
          | false => rfl
          | true => exact absurd hg hguard
      · intro _ h'
        cases h'
  · next result hphase =>
    have hmem : k ∈ bound.capacity := hfits.holds.mpr (by rw [hphase]; rfl)
    have hguard := hcall.unsettled (by rw [hphase]; rfl)
    obtain rfl := Option.some.inj hnext
    refine hh.update hb ⟨fun _ _ => Iff.rfl, fun _ _ h' => ⟨h', rfl⟩, fun _ h' => .inl h',
      fun _ => rfl⟩ ?_ rfl rfl ?_ (.of_guard hguard rfl fun _ => rfl)
      ⟨rfl, rfl, rfl, rfl, fun _ => rfl, fun _ => rfl⟩ (fun _ _ => by rw [hphase]; rfl)
    · exact { hsound with
        closed := fun _ => .inl rfl
        setting := by
          intro h'
          have hempty := (hsound.setting h').2
          rw [hempty] at hmem
          cases hmem }
    · exact {
        holds := ⟨fun _ => rfl, fun _ => hmem⟩
        locks := fun h' => by cases h'
        activity := fun _ a ha => hfits.activity (by rw [hphase]; rfl) a ha
        retired := fun _ _ => rfl }
  · next result hphase =>
    have hguard := hcall.unsettled (by rw [hphase]; rfl)
    obtain rfl := Option.some.inj hnext
    exact close_move hh (by rw [hphase]; rfl) (by rw [hphase]; rfl) rfl rfl
      (fun _ _ => by rw [hphase]; rfl) rfl fun _ => hguard
  · next result hphase =>
    have hguard := hcall.unsettled (by rw [hphase]; rfl)
    split at hnext
    · next hlock =>
      split at hnext
      · obtain rfl := Option.some.inj hnext
        exact close_move hh (by rw [hphase]; rfl) (by rw [hphase]; rfl) rfl rfl
          (fun _ _ => by rw [hphase]; rfl) rfl fun _ => hguard
      · obtain rfl := Option.some.inj hnext
        have hretired := hfits.retired hguard (by rw [hphase]; rfl)
        refine hh.update hb ?_ ?_ rfl rfl ?_ (.of_guard hguard rfl fun _ => rfl)
          (.of_eq rfl rfl rfl rfl rfl rfl) (fun _ _ => by rw [hphase]; rfl)
        · apply Bound.Keeps.unlocked
          · intro j _
            rw [hlock]
            simp
          · exact fun _ _ => Iff.rfl
          · exact fun _ h' => by cases h'
          · exact fun h' => h'
        · exact { hsound with
            closed := fun _ => .inl hretired
            owner := fun _ => rfl }
        · exact {
            holds := by
              rw [hfits.holds, hphase]
              exact Iff.rfl
            locks := fun h' => by cases h'
            activity := fun _ _ h' => by cases h'
            retired := fun _ _ => hretired }
    · cases hnext
  · next result hphase =>
    have hguard := hcall.unsettled (by rw [hphase]; rfl)
    obtain rfl := Option.some.inj hnext
    exact close_move hh (by rw [hphase]; rfl) (by rw [hphase]; rfl) rfl rfl
      (fun _ _ => by rw [hphase]; rfl) rfl fun _ => hguard
  · next result hphase =>
    have hguard := hcall.unsettled (by rw [hphase]; rfl)
    obtain ⟨mid, hmid, hnext⟩ := Option.bind_eq_some_iff.mp hnext
    obtain ⟨-, storage, -, rfl⟩ := insertReceipt_eq hmid
    obtain rfl := Option.some.inj hnext
    exact close_move hh (by rw [hphase]; rfl) (by rw [hphase]; rfl) rfl rfl
      (fun _ _ => by rw [hphase]; rfl) rfl fun _ => hguard
  · next receipt result hphase =>
    have hguard := hcall.unsettled (by rw [hphase]; rfl)
    split at hnext
    · cases hnext
    · obtain rfl := Option.some.inj hnext
      exact close_move hh (by rw [hphase]; rfl) (by rw [hphase]; rfl) rfl rfl
        (fun _ _ => by rw [hphase]; rfl) rfl fun _ => hguard
  · next result hphase =>
    obtain rfl := Option.some.inj hnext
    refine hh.update hb ?_ ?_ rfl rfl ?_ ?_ (.of_eq rfl rfl rfl rfl rfl rfl) (fun _ h' => by cases h')
    · exact {
        members := fun j hj => List.mem_erase_of_ne hj
        lock := fun _ _ h' => ⟨h', rfl⟩
        activity := fun _ h' => .inl h'
        retired := fun h' => h' }
    · exact { hsound with
        nodup := hsound.nodup.erase k
        closed := by
          intro h'
          rcases hsound.closed h' with hretired | hempty
          · exact .inl hretired
          · exact .inr (by rw [hempty]; rfl)
        setting := by
          intro h'
          obtain ⟨hretired, hempty⟩ := hsound.setting h'
          exact ⟨hretired, by rw [hempty]; rfl⟩ }
    · exact {
        holds := by
          constructor
          · intro hmem
            exact absurd hmem hsound.nodup.not_mem_erase
          · intro h'
            cases h'
        locks := fun h' => by cases h'
        activity := fun h' => by cases h'
        retired := fun hguard _ => hfits.retired hguard (by rw [hphase]; rfl) }
    · exact ⟨fun h' => (by cases h'), fun h' => (by cases h'), fun h' => (by cases h')⟩
  · next result hphase =>
    obtain rfl := Option.some.inj hnext
    apply Hub.Consistent.setPhase (h := { h with capacity := h.capacity.erase k }) hh
      (by simp only [hphase]; rfl) (by simp only [hphase]; rfl)
    · intro _ _
      simp only [hphase]
      rfl
    · exact ⟨fun h' => (by cases h'), fun h' => (by cases h'), fun h' => (by cases h')⟩
    · exact fun _ _ _ h' => by cases h'
  · cases hnext

/-! ## Every step -/

/-- A new binding has no calls. -/
theorem bind_follows (hh : h.Consistent) (hb : h.bindings b = none) {worker : Nat}
    {id session slot : String} :
    Follows h.bindings h.calls
      (Function.update h.bindings b (some (Bound.new worker id session slot))) h.calls where
  later := by
    intro c other hc
    have hcb : c ≠ b := by
      rintro rfl
      rw [hb] at hc
      cases hc
    rw [Function.update_of_ne hcb]
    exact ⟨other, hc, .refl other⟩
  inside := fun _ _ _ _ _ hk hin => ⟨hk, hin⟩
  consistent.bounds := by
    intro c other hc
    by_cases hcb : c = b
    · subst hcb
      rw [Function.update_self] at hc
      obtain rfl := Option.some.inj hc
      exact ⟨List.nodup_nil, fun _ _ h' => (by cases h'), fun _ => .inr rfl, fun _ => rfl,
        fun h' => by cases h'⟩
    · rw [Function.update_of_ne hcb] at hc
      exact hh.bounds c other hc
  consistent.fits := by
    intro k other hk
    by_cases hkb : (h.calls k).binding = b
    · rw [hkb, Function.update_self] at hk
      obtain rfl := Option.some.inj hk
      -- a call with a guard or with the lock has a binding that is already there
      have hnone : ¬((h.calls k).phase.locks = true ∨ (h.calls k).guard ≠ none) := by
        intro h'
        have hsome := hh.known k h'
        rw [hkb, hb] at hsome
        cases hsome
      have hguard : (h.calls k).guard = none := by
        cases hg : (h.calls k).guard with
        | none => rfl
        | some settled => exact absurd (.inr (by rw [hg]; simp)) hnone
      have hholds : (h.calls k).phase.holds = false := by
        cases hholds : (h.calls k).phase.holds with
        | false => rfl
        | true => exact absurd hguard ((hh.calls k).guarded hholds)
      exact {
        holds := by
          rw [hholds]
          simp [Bound.new]
        locks := fun h' => absurd (.inl h') hnone
        activity := fun _ _ h' => by cases h'
        retired := fun h' => by rw [hguard] at h'; cases h' }
    · rw [Function.update_of_ne hkb] at hk
      exact hh.fits k other hk
  consistent.members := by
    intro c other hc k hk
    by_cases hcb : c = b
    · subst hcb
      rw [Function.update_self] at hc
      obtain rfl := Option.some.inj hc
      cases hk
    · rw [Function.update_of_ne hcb] at hc
      exact hh.members c other hc k hk
  consistent.known := by
    intro k hk
    by_cases hkb : (h.calls k).binding = b
    · rw [hkb, Function.update_self]
      rfl
    · rw [Function.update_of_ne hkb]
      exact hh.known k hk
  consistent.calls := hh.calls

/-- A call changes in what its binding does not see. -/
theorem Hub.Consistent.setData (hh : h.Consistent) {call : Invocation ν}
    (hbinding : call.binding = (h.calls k).binding) (hactivity : call.activity = (h.calls k).activity)
    (hphase : call.phase = (h.calls k).phase) (hguard : call.guard = (h.calls k).guard) :
    h.Follows (h.setCall k call) := by
  have hsound := hh.calls k
  apply Tools.Consistent.move hh hbinding hactivity (by rw [hphase]) (by rw [hphase])
  · rw [hguard]
    exact fun h' => h'
  · rw [hguard, hphase]
    exact fun hg hr => ⟨hg, hr⟩
  · exact {
      early := by rw [hphase, hguard]; exact hsound.early
      guarded := by rw [hphase, hguard]; exact hsound.guarded
      unsettled := by rw [hphase, hguard]; exact hsound.unsettled }
  · intro _ _ _ hin
    rw [hphase] at hin
    exact hin

theorem reply_follows (hh : h.Consistent) (params : JsonTree ν) :
    h.Follows (reply numbers h params).2 := by
  unfold reply
  split
  · exact .refl hh
  · split
    · exact .refl hh
    · split
      · exact .refl hh
      · simp only
        split
        · exact .refl hh
        · split
          · exact Hub.Consistent.setData (h := h.removePending _) hh rfl rfl rfl rfl
          · exact .refl hh

theorem advance_follows (hh : h.Consistent) (hnext : advance numbers h k storageCall = some h') :
    h.Follows h' := by
  unfold advance at hnext
  cases hstage : (h.calls k).phase.stage with
  | outside =>
    simp only [hstage] at hnext
    exact lookup_follows hh hnext
  | admission =>
    simp only [hstage] at hnext
    obtain ⟨bound, hb, hnext⟩ := Option.bind_eq_some_iff.mp hnext
    exact admit_follows hh hb hnext
  | service =>
    simp only [hstage] at hnext
    obtain ⟨bound, hb, hnext⟩ := Option.bind_eq_some_iff.mp hnext
    exact serve_follows hh hnext
  | closure =>
    simp only [hstage] at hnext
    obtain ⟨bound, hb, hnext⟩ := Option.bind_eq_some_iff.mp hnext
    exact close_follows hh hb hnext

theorem next_follows (hh : h.Consistent) {e : Event ν} (hnext : next numbers h e = some h') :
    h.Follows h' := by
  cases e with
  | storage e =>
    obtain ⟨storage, -, hnext⟩ := Option.bind_eq_some_iff.mp hnext
    obtain rfl := Option.some.inj hnext
    exact .refl hh
  | bind b worker id session slot =>
    simp only [next] at hnext
    split at hnext
    · next hb =>
      split at hnext
      · cases hnext
      · obtain rfl := Option.some.inj hnext
        exact bind_follows hh hb
    · cases hnext
  | begin b =>
    obtain ⟨bound, hb, hnext⟩ := Option.bind_eq_some_iff.mp hnext
    split at hnext
    · exact endActivity_follows hh hb (.inl rfl) hnext
    · cases hnext
  | finish b =>
    obtain ⟨bound, hb, hnext⟩ := Option.bind_eq_some_iff.mp hnext
    split at hnext
    · exact endActivity_follows hh hb (.inr (.inl rfl)) hnext
    · cases hnext
  | drop b =>
    obtain ⟨bound, hb, hnext⟩ := Option.bind_eq_some_iff.mp hnext
    split at hnext
    · exact endActivity_follows hh hb (.inr (.inr rfl)) hnext
    · cases hnext
  | session b =>
    obtain ⟨bound, hb, hnext⟩ := Option.bind_eq_some_iff.mp hnext
    exact sessionStep_follows hh hb hnext
  | stop =>
    obtain rfl := Option.some.inj hnext
    exact .refl hh
  | invoke k id session slot input =>
    simp only [next] at hnext
    split at hnext
    · next hidle =>
      split at hnext
      · cases hnext
      · obtain rfl := Option.some.inj hnext
        have hguard := (hh.calls k).early (by rw [hidle]; rfl)
        apply Tools.Consistent.setCall hh
        · intro bound _ hfits
          exact {
            holds := by
              have hwas := hfits.holds
              rw [hidle] at hwas
              exact hwas
            locks := fun h' => by cases h'
            activity := fun h' => by cases h'
            retired := fun h' => by cases h' }
        · exact .inr ⟨by rw [hidle]; rfl, by rw [hidle]; rfl, hguard⟩
        · intro h'
          rcases h' with h' | h'
          · cases h'
          · exact absurd rfl h'
        · exact .unguarded rfl rfl rfl
        · exact fun _ _ _ h' => by cases h'
    · cases hnext
  | cancel k =>
    obtain rfl := Option.some.inj hnext
    exact hh.setData rfl rfl rfl rfl
  | advance k storageCall => exact advance_follows hh hnext
  | timesOut k =>
    obtain ⟨bound, hb, hnext⟩ := Option.bind_eq_some_iff.mp hnext
    split at hnext
    · next hphase _ =>
      split at hnext
      · cases hnext
      · obtain rfl := Option.some.inj hnext
        exact serve_move hh (by rw [hphase]; rfl) rfl rfl (.inl rfl) rfl rfl rfl rfl rfl
    · cases hnext
  | abandon k =>
    simp only [next] at hnext
    split at hnext
    · next hphase =>
      obtain rfl := Option.some.inj hnext
      exact serve_move hh (by rw [hphase]; rfl) rfl rfl (.inl rfl) rfl rfl rfl rfl rfl
    · cases hnext
  | reply params =>
    obtain rfl := Option.some.inj hnext
    exact reply_follows hh params

end Tools

end Host

end AgentBridge
