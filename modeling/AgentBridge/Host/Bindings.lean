import AgentBridge.Host.ToolSteps

/-!
# Tool bindings stop at the first uncertain call

The calls of a binding belong to the activity that is open there.  A call that outlives its activity,
or ends without a recorded outcome, retires the binding for good.
-/

namespace AgentBridge

open Reasoning

namespace Host

namespace Tools

variable {ν : Type} {numbers : Numbers ν} {h h' s t : Hub ν}

/-- Nothing is taken back of the bindings, and no call enters a retired one. -/
def Hub.Later (h h' : Hub ν) : Prop :=
  ∀ b bound, h.bindings b = some bound → ∃ bound', h'.bindings b = some bound' ∧
    bound.Later bound' ∧ (bound.retired = true → ∀ k, (h'.calls k).binding = b →
      (h'.calls k).phase.inside = true → (h.calls k).binding = b ∧ (h.calls k).phase.inside = true)

theorem Hub.Later.refl (h : Hub ν) : h.Later h :=
  fun _ bound hb => ⟨bound, hb, .refl bound, fun _ _ hk hin => ⟨hk, hin⟩⟩

theorem Hub.Later.trans {a b c : Hub ν} (hab : a.Later b) (hbc : b.Later c) : a.Later c := by
  intro i bound hi
  obtain ⟨mid, hmid, hfirst, hin⟩ := hab i bound hi
  obtain ⟨last, hlast, hsecond, hin'⟩ := hbc i mid hmid
  refine ⟨last, hlast, hfirst.trans hsecond, ?_⟩
  intro hretired k hk hinside
  obtain ⟨hk', hinside'⟩ := hin' (hfirst.retired hretired) k hk hinside
  exact hin hretired k hk' hinside'

theorem Hub.Follows.hubLater (h1 : h.Follows h') : h.Later h' := by
  intro b bound hb
  obtain ⟨bound', hb', hlater⟩ := h1.later b bound hb
  exact ⟨bound', hb', hlater, h1.inside b bound hb⟩

theorem run_consistent {es : List (Event ν)} (hs : s.Consistent)
    (hrun : Next.run (next numbers) es s = some t) : t.Consistent :=
  Next.run_invariant (P := Hub.Consistent) (fun _ _ _ h hnext => (next_follows h hnext).consistent)
    hs hrun

theorem run_later {es : List (Event ν)} (hs : s.Consistent)
    (hrun : Next.run (next numbers) es s = some t) : s.Later t :=
  Next.run_relation (R := Hub.Later) (P := Hub.Consistent) .refl .trans
    (fun _ _ _ h hnext => (next_follows h hnext).consistent)
    (fun _ _ _ h hnext => (next_follows h hnext).hubLater) hs hrun

/-- What holds of the bindings in a state `s` and in every later state `t`. -/
structure BindingsFailStop (s t : Hub ν) : Prop where
  /-- The calls that own a permit of a binding are those between their admission and the end of their
  guard. -/
  holders : ∀ b bound, t.bindings b = some bound → ∀ k,
    k ∈ bound.capacity ↔ (t.calls k).binding = b ∧ (t.calls k).phase.holds = true
  /-- They were all admitted under the activity that is open. -/
  current : ∀ b bound activity, t.bindings b = some bound → bound.activity = some activity →
    ∀ k ∈ bound.capacity, (t.calls k).activity = activity
  /-- A call in flight whose activity is no longer open has retired its binding. -/
  outlived : ∀ b bound, t.bindings b = some bound → ∀ k ∈ bound.capacity,
    bound.activity ≠ some (t.calls k).activity → bound.retired = true
  /-- So has a call that ended without a recorded outcome. -/
  unrecorded : ∀ b bound k result, t.bindings b = some bound → (t.calls k).binding = b →
    (t.calls k).guard = some false → (t.calls k).phase = .returned result → bound.retired = true
  /-- A retired binding stays retired, `begin` fails on it, and the calls it still has are those that
  had passed the check before. -/
  retired : ∀ b bound, s.bindings b = some bound → bound.retired = true →
    ∃ bound', t.bindings b = some bound' ∧ bound'.retired = true ∧
      bound'.begun.count true = bound.begun.count true ∧
      ∀ k ∈ bound'.capacity, (s.calls k).binding = b ∧ (s.calls k).phase.inside = true

theorem Hub.Consistent.holders (hh : h.Consistent) {b k : Nat} {bound : Bound}
    (hb : h.bindings b = some bound) :
    k ∈ bound.capacity ↔ (h.calls k).binding = b ∧ (h.calls k).phase.holds = true := by
  constructor
  · intro hk
    have hbinding := hh.members b bound hb k hk
    rw [← hbinding] at hb
    exact ⟨hbinding, (hh.fits k bound hb).holds.mp hk⟩
  · rintro ⟨rfl, hholds⟩
    exact (hh.fits k bound hb).holds.mpr hholds

theorem Hub.Consistent.current (hh : h.Consistent) {b k activity : Nat} {bound : Bound}
    (hb : h.bindings b = some bound) (hk : k ∈ bound.capacity)
    (hactivity : bound.activity = some activity) : (h.calls k).activity = activity := by
  obtain ⟨rfl, hholds⟩ := (hh.holders hb).mp hk
  exact (hh.fits k bound hb).activity hholds activity hactivity

/-- For every interleaving of sessions, calls, the application and storage threads. -/
theorem tool_bindings_are_fail_stop {limit : Nat} {before after : List (Event ν)} {s t : Hub ν}
    (hs : Next.run (next numbers) before (Hub.start limit) = some s)
    (ht : Next.run (next numbers) after s = some t) : BindingsFailStop s t := by
  have hcs := run_consistent (Hub.start_consistent limit) hs
  have hct := run_consistent hcs ht
  exact {
    holders := fun b bound hb k => hct.holders hb
    current := fun b bound activity hb hactivity k hk => hct.current hb hk hactivity
    outlived := by
      intro b bound hb k hk hother
      cases hactivity : bound.activity with
      | some activity =>
        have hsame := hct.current hb hk hactivity
        rw [hactivity, hsame] at hother
        exact absurd rfl hother
      | none =>
        rcases (hct.bounds b bound hb).closed hactivity with hretired | hempty
        · exact hretired
        · rw [hempty] at hk
          cases hk
    unrecorded := by
      intro b bound k result hb hbinding hguard hphase
      rw [← hbinding] at hb
      exact (hct.fits k bound hb).retired hguard (by rw [hphase]; rfl)
    retired := by
      intro b bound hb hretired
      obtain ⟨bound', hb', hlater, hinside⟩ := run_later hcs ht b bound hb
      refine ⟨bound', hb', hlater.retired hretired, hlater.begun hretired, ?_⟩
      intro k hk
      obtain ⟨hbinding, hholds⟩ := (hct.holders hb').mp hk
      exact hinside hretired k hbinding (by simp only [Phase.inside, hholds, Bool.or_true]) }

namespace Sample

def digits : Numbers Int := ⟨fun _ => 1, fun _ => true⟩

/-- The writer of a session's store is opened. -/
def opened : List (Event Int) :=
  [.open "bridge.db", .reserve 0, .spawn 0 true, .advance 0, .advance 0, .created 0 (.ok ()),
    .advance 0, .receiveReady 0].map .storage

/-- The storage call is made, its job runs, and its answer is received. -/
def stored (storageCall : Nat) : List (Event Int) :=
  [.proceed storageCall, .proceed storageCall, .advance 0, .advance 0, .advance 0, .advance 0,
    .completes 0 ⟨.ok (), fun _ h => nomatch h⟩, .advance 0, .advance 0,
    .proceed storageCall].map .storage

/-- A binding is begun, and a call reaches the application. -/
def sent : List (Event Int) :=
  opened ++ [.bind 0 0 "binding" "session" "assistant", .begin 0, .session 0, .session 0,
    .invoke 0 "invocation" "session" "assistant" .null, .advance 0 0, .advance 0 0, .advance 0 0,
    .advance 0 0, .advance 0 0, .advance 0 0] ++ stored 0 ++
    [.advance 0 0, .advance 0 0, .advance 0 0, .advance 0 0]

/-- The application does not answer in time, and the session goes on to its next run. -/
def begunAgain : List (Event Int) :=
  [.timesOut 0, .begin 0, .session 0, .session 0]

def sentHub : Hub Int := (Next.run (next digits) sent (.start 1)).getD (.start 1)

def begunHub : Hub Int := (Next.run (next digits) begunAgain sentHub).getD (.start 1)

end Sample

theorem second_run_is_refused : BindingsFailStop Sample.sentHub Sample.begunHub ∧
    Sample.sentHub.emitted = [.toolCall 0] ∧
    (Sample.begunHub.bindings 0).map (·.begun) = some [true, false] := by
  have hs : Next.run (next Sample.digits) Sample.sent (Hub.start 1) = some Sample.sentHub :=
    Next.run_getD (by decide +kernel) _
  have ht : Next.run (next Sample.digits) Sample.begunAgain Sample.sentHub = some Sample.begunHub :=
    Next.run_getD (by decide +kernel) _
  refine ⟨tool_bindings_are_fail_stop hs ht, ?_, ?_⟩
  · decide +kernel
  · decide +kernel

end Tools

end Host

end AgentBridge
