import AgentBridge.Acp.Routing
import AgentBridge.Acp.Session

/-!
# What a run holds to

The run settles with its status, and closes its route; what `next` returned is what it took from the
channel, in order, with what it made up itself at the end.
-/

namespace AgentBridge

open Reasoning

namespace Acp

variable {U T : Type}

/-- What `next` returns for a delivery. -/
def Delivery.result : Delivery U T → Except AcpError (Option (AcpEvent U T))
  | .event shown => .ok (some shown)
  | .finished (.ok reason) => .ok (some (.finished reason))
  | .finished (.error e) => .error (.protocol e)

namespace AcpRun

/-- Settled by a successful response of the provider. -/
def Succeeded (a : AcpRun U T) : Prop := a.run.status = .completed ∨ a.run.status = .cancelled

/-- The invariant of a run. -/
structure Sound (a : AcpRun U T) : Prop where
  route : a.route.Sound
  taken : a.route.taken ≤ a.route.queued.length
  calm : a.panicked = false
  lively : a.settled = false → a.run.Lively
  ended : a.settled = true → a.run.Ended
  shut : a.settled = true ∨ a.Over → a.route.accepting = false
  /-- What was taken was returned; the rest is of a run that is settled, and an error among it only
  if no end was taken. -/
  returned : ∃ made, a.returned = (a.route.queued.take a.route.taken).map Delivery.result ++ made ∧
    (∀ x ∈ made, x = .ok none ∨ (∃ e, x = .error e) ∧
      ∀ m ∈ a.route.queued.take a.route.taken, m.isFinished = false) ∧
    (a.settled = false → made = [])
  /-- A run that took the end is settled, and with success if the end is one. -/
  finished : ∀ m ∈ a.route.queued.take a.route.taken, m.isFinished = true → a.settled = true
  succeeded : a.Succeeded → ∃ reason, .finished (.ok reason) ∈ a.route.queued.take a.route.taken
  failed : a.settled = true → (∃ reason, .ok (some (.finished reason)) ∈ a.returned) ∨
    ∃ e, .error e ∈ a.returned
  waits : a.phase = .waiting → a.settled = false
  begins : a.phase = .dispatching ∨ a.phase = .refused → a.settled = false

variable {a : AcpRun U T}

theorem apply_ok {event : RunEvent} {run : Run} (h : a.run.apply event = .ok run) :
    a.apply event = { a with run } := by
  simp only [AcpRun.apply, h]

theorem Sound.settled_iff (h : a.Sound) : a.settled = true ↔ a.run.Ended := by
  refine ⟨h.ended, fun hended => ?_⟩
  by_contra hsettled
  exact (h.lively (by simpa using hsettled)).active.not_ended hended

theorem Sound.not_succeeded (h : a.Sound) (hsettled : a.settled = false) : ¬ a.Succeeded := by
  intro hgood
  have hended : a.run.Ended := by
    rcases hgood with hgood | hgood
    · exact .inl hgood
    · exact .inr (.inr (.inl hgood))
  exact (h.lively hsettled).active.not_ended hended

theorem start_sound (spec : RunSpec) (input : String) : (start spec input : AcpRun U T).Sound where
  route := Route.start_sound spec.id
  taken := Nat.le_refl _
  calm := rfl
  lively _ := ⟨.inl rfl, by simp [start, AcpRun.apply, Run.apply_dispatchStarted]⟩
  ended h := by cases h
  shut h := by
    rcases h with h | h | h
    · cases h
    · cases h
    · cases h
  returned := ⟨[], rfl, fun x hx => (List.not_mem_nil hx).elim, fun _ => rfl⟩
  finished m hm _ := by cases hm
  succeeded h := by
    rcases h with h | h
    · cases h
    · cases h
  failed h := by cases h
  waits h := by cases h
  begins _ := rfl

/-- An operation of the route leaves what was taken from it alone. -/
theorem Sound.onRoute {r : Route U T} (h : a.Sound) (hsound : r.Sound) (hgrows : a.route.Grows r) :
    Sound { a with route := r } := by
  have htake : r.queued.take r.taken = a.route.queued.take a.route.taken := by
    obtain ⟨more, hmore⟩ := hgrows.queued
    rw [hgrows.taken, ← hmore, List.take_append_of_le_length h.taken]
  exact {
    route := hsound
    taken := by
      show r.taken ≤ r.queued.length
      rw [hgrows.taken]
      exact h.taken.trans hgrows.queued.length_le
    calm := h.calm
    lively := h.lively
    ended := h.ended
    shut := fun hover => (hgrows.closed (h.shut hover)).1
    returned := by
      show ∃ made, a.returned = (r.queued.take r.taken).map Delivery.result ++ made ∧
        (∀ x ∈ made, x = .ok none ∨ (∃ e, x = .error e) ∧
          ∀ m ∈ r.queued.take r.taken, m.isFinished = false) ∧ _
      rw [htake]
      exact h.returned
    finished := by
      show ∀ m ∈ r.queued.take r.taken, _
      rw [htake]
      exact h.finished
    succeeded := by
      show _ → ∃ reason, .finished (.ok reason) ∈ r.queued.take r.taken
      rw [htake]
      exact h.succeeded
    failed := h.failed
    waits := h.waits
    begins := h.begins }

/-- A handle that moves on without the run having changed. -/
theorem Sound.move {phase : RunPhase} (h : a.Sound)
    (hwaits : phase = .waiting → a.settled = false)
    (hbegins : phase = .dispatching ∨ phase = .refused → a.settled = false)
    (hover : phase = .gone ∨ phase = .refused → a.route.accepting = false) :
    Sound { a with phase := phase } where
  route := h.route
  taken := h.taken
  calm := h.calm
  lively := h.lively
  ended := h.ended
  shut hend := hend.elim (fun hsettled => h.shut (.inl hsettled)) hover
  returned := h.returned
  finished := h.finished
  succeeded := h.succeeded
  failed := h.failed
  waits := hwaits
  begins := hbegins

/-- A handle that no call is under way on. -/
theorem Sound.rest {phase : RunPhase} (h : a.Sound) (hphase : phase = .idle ∨ phase = .dropping) :
    Sound { a with phase := phase } := by
  refine h.move (fun hwait => ?_) (fun hbegin => ?_) (fun hover => ?_)
  · rw [hwait] at hphase
    rcases hphase with hphase | hphase <;> cases hphase
  · rcases hbegin with hbegin | hbegin <;> rw [hbegin] at hphase <;>
      rcases hphase with hphase | hphase <;> cases hphase
  · rcases hover with hover | hover <;> rw [hover] at hphase <;>
      rcases hphase with hphase | hphase <;> cases hphase

/-- What `next` returns of its own, without taking anything. -/
theorem Sound.make (h : a.Sound) (hsettled : a.settled = true) :
    Sound (a.return_ (.ok none)) where
  route := h.route
  taken := h.taken
  calm := h.calm
  lively hlive := by
    rw [show a.settled = false from hlive] at hsettled
    cases hsettled
  ended := h.ended
  shut _ := h.shut (.inl hsettled)
  returned := by
    obtain ⟨made, hmade, hkinds, -⟩ := h.returned
    refine ⟨made ++ [.ok none], ?_, ?_, ?_⟩
    · rw [return_, hmade, List.append_assoc]
    · intro y hy
      rcases List.mem_append.mp hy with hy | hy
      · exact hkinds y hy
      · exact .inl (List.mem_singleton.mp hy)
    · intro hlive
      rw [show a.settled = false from hlive] at hsettled
      cases hsettled
  finished _ _ _ := hsettled
  succeeded := h.succeeded
  failed _ := (h.failed hsettled).imp
    (fun ⟨reason, hmem⟩ => ⟨reason, List.mem_append_left _ hmem⟩)
    (fun ⟨e, hmem⟩ => ⟨e, List.mem_append_left _ hmem⟩)
  waits hwait := by cases hwait
  begins hbegin := by rcases hbegin with hbegin | hbegin <;> cases hbegin

/-- A run whose route is closed ends with an error that is no response of the provider. -/
theorem Sound.settle {status : RunStatus} (h : a.Sound) (hlive : a.settled = false)
    (hclosed : a.route.accepting = false) (hstatus : status = .unknown) (e : AcpError) :
    Sound ({ a with run := { a.run with status }, settled := true }.return_ (.error e)) where
  route := h.route
  taken := h.taken
  calm := h.calm
  lively hsettled := by cases hsettled
  ended _ := .inr (.inr (.inr hstatus))
  shut _ := hclosed
  returned := by
    obtain ⟨made, hmade, -, hnone⟩ := h.returned
    refine ⟨[.error e], ?_, ?_, fun hsettled => by cases hsettled⟩
    · rw [hnone hlive, List.append_nil] at hmade
      exact congrArg (· ++ [.error e]) hmade
    · intro x hx
      refine .inr ⟨⟨e, List.mem_singleton.mp hx⟩, fun m hm => ?_⟩
      by_contra hfin
      rw [h.finished m hm (by simpa using hfin)] at hlive
      cases hlive
  finished _ _ _ := rfl
  succeeded hgood := by
    rcases hgood with hgood | hgood <;> cases hstatus.symm.trans hgood
  failed _ := .inr ⟨e, List.mem_append_right _ (List.mem_singleton.mpr rfl)⟩
  waits hwait := by cases hwait
  begins hbegin := by rcases hbegin with hbegin | hbegin <;> cases hbegin

/-- One more delivery taken and returned, with what it makes of the run. -/
theorem Sound.take {m : Delivery U T} {run : Run} {settled : Bool} (h : a.Sound)
    (hlive : a.settled = false) (hm : a.route.queued[a.route.taken]? = some m)
    (hlively : settled = false → run.Lively) (hended : settled = true → run.Ended)
    (hfinished : m.isFinished = settled)
    (hgood : run.status = .completed ∨ run.status = .cancelled → ∃ reason, m = .finished (.ok reason)) :
    Sound ({ a with
      route := { a.route with taken := a.route.taken + 1 }, run, settled }.return_ m.result) := by
  have hmem : m ∈ a.route.queued := List.mem_of_getElem? hm
  have htake : a.route.queued.take (a.route.taken + 1) =
      a.route.queued.take a.route.taken ++ [m] := by
    rw [List.take_add_one, hm, Option.toList_some]
  have hlast : m ∈ a.route.queued.take (a.route.taken + 1) := by
    rw [htake]
    exact List.mem_append_right _ (List.mem_singleton.mpr rfl)
  exact {
    route := ⟨h.route.accounted, h.route.holds.frame .., h.route.idle⟩
    taken := by
      obtain ⟨hlt, -⟩ := List.getElem?_eq_some_iff.mp hm
      exact hlt
    calm := h.calm
    lively := hlively
    ended := hended
    shut := by
      rintro (hsettled | hover | hover)
      · exact (h.route.holds.stopped m hmem (hfinished.trans hsettled)).1
      · cases hover
      · cases hover
    returned := by
      obtain ⟨made, hmade, -, hnone⟩ := h.returned
      rw [hnone hlive, List.append_nil] at hmade
      refine ⟨[], ?_, fun x hx => (List.not_mem_nil hx).elim, fun _ => rfl⟩
      show a.returned ++ [m.result] =
        (a.route.queued.take (a.route.taken + 1)).map Delivery.result ++ []
      rw [htake, hmade, List.map_append, List.append_nil, List.map_singleton]
    finished := by
      intro x hx hfin
      replace hx : x ∈ a.route.queued.take (a.route.taken + 1) := hx
      rw [htake] at hx
      rcases List.mem_append.mp hx with hx | hx
      · rw [h.finished x hx hfin] at hlive
        cases hlive
      · rw [List.mem_singleton.mp hx, hfinished] at hfin
        exact hfin
    succeeded := by
      intro hstatus
      obtain ⟨reason, hreason⟩ := hgood hstatus
      rw [hreason] at hlast
      exact ⟨reason, hlast⟩
    failed := by
      intro hsettled
      have hresult : m.result ∈ a.returned ++ [m.result] :=
        List.mem_append_right _ (List.mem_singleton.mpr rfl)
      cases m with
      | event shown => cases hfinished.trans hsettled
      | finished result =>
        cases result with
        | ok reason => exact .inl ⟨reason, hresult⟩
        | error e => exact .inr ⟨.protocol e, hresult⟩
    waits := fun hwait => by cases hwait
    begins := fun hbegin => by rcases hbegin with hbegin | hbegin <;> cases hbegin }

/-- A run in progress whose status changes within its course. -/
theorem Sound.proceed {run : Run} (h : a.Sound) (hlive : a.settled = false) (hrun : run.Lively) :
    Sound { a with run } where
  route := h.route
  taken := h.taken
  calm := h.calm
  lively _ := hrun
  ended hsettled := by
    rw [show a.settled = true from hsettled] at hlive
    cases hlive
  shut := h.shut
  returned := h.returned
  finished := h.finished
  succeeded hgood := by
    exact absurd (hgood.elim .inl fun hgood => .inr (.inr (.inl hgood))) hrun.active.not_ended
  failed := h.failed
  waits := h.waits
  begins := h.begins

end AcpRun

namespace Turn

open AcpRun

variable {t t' : Turn U T}

theorem unknown_eq (d : Drain) (h : t.acp.run.Active) : t.unknown d = { t with
    session := { t.session with retired := true }
    acp := { t.acp with
      run := { t.acp.run with status := .unknown }, settled := true, route := t.acp.route.close d } } := by
  rw [unknown, apply_ok (Run.apply_connectionLost h)]

/-- A run that ends without a response of the provider. -/
theorem unknown_sound (d : Drain) (e : AcpError) (h : t.acp.Sound) (hlive : t.acp.settled = false) :
    ((t.unknown d).acp.return_ (.error e)).Sound := by
  rw [unknown_eq d (h.lively hlive).active]
  obtain ⟨hsound, hclosed, hgrows⟩ := Route.close_spec d h.route.accounted h.route.holds
  exact (h.onRoute hsound hgrows).settle hlive hclosed rfl e

/-- The channel once its next delivery is taken. -/
def took (t : Turn U T) : Route U T := { t.acp.route with taken := t.acp.route.taken + 1 }

theorem receive_event (shown : AcpEvent U T) (h : t.acp.run.Lively) : ∃ run : Run, run.Lively ∧
    run.cancellationRequested = t.acp.run.cancellationRequested ∧
      t.receive (.event shown) =
        { t with acp := { t.acp with route := t.took, run }.return_ (.ok (some shown)) } := by
  by_cases hstart : t.acp.run.status = .starting
  · refine ⟨{ t.acp.run with status := .running }, ⟨.inr (.inl rfl), ?_⟩, rfl, ?_⟩
    · have hflag := h.cancelling
      rw [hstart] at hflag
      simpa using hflag
    · simp only [receive, hstart, ↓reduceIte, AcpRun.apply, Run.apply_started hstart, took]
  · refine ⟨t.acp.run, h, rfl, ?_⟩
    simp only [receive, hstart, ↓reduceIte, took]

theorem receive_finished (reason : StopReason) (h : t.acp.run.Active) : ∃ status : RunStatus,
    (status = .completed ∨ status = .cancelled) ∧ t.receive (.finished (.ok reason)) = { t with
      session := { t.session with quiescent := true }
      acp := { t.acp with
        route := t.took, run := { t.acp.run with status }, settled := true }.return_
          (.ok (some (.finished reason))) } := by
  by_cases hreason : reason = .cancelled
  · refine ⟨.cancelled, .inr rfl, ?_⟩
    simp only [receive, hreason, ↓reduceIte, AcpRun.apply, Run.apply_cancellationConfirmed h, took]
  · refine ⟨.completed, .inl rfl, ?_⟩
    simp only [receive, hreason, ↓reduceIte, AcpRun.apply, Run.apply_completed h, took]

theorem receive_failed (e : String) (h : t.acp.run.Active) :
    t.receive (.finished (.error e)) = { t with
      session := { t.session with retired := true }
      acp := { t.acp with
        route := t.took, run := { t.acp.run with status := .failed }, settled := true }.return_
          (.error (.protocol e)) } := by
  simp only [receive, AcpRun.apply, Run.apply_failed h, took]

theorem receive_sound {m : Delivery U T} (h : t.acp.Sound) (hlive : t.acp.settled = false)
    (hm : t.acp.route.queued[t.acp.route.taken]? = some m) : (t.receive m).acp.Sound := by
  have hlively := h.lively hlive
  cases m with
  | event shown =>
    obtain ⟨run, hrun, -, heq⟩ := receive_event shown hlively
    rw [heq]
    refine h.take hlive hm (fun _ => hrun) ?_ hlive.symm ?_
    · intro hsettled
      rw [hlive] at hsettled
      cases hsettled
    · intro hgood
      exact absurd (hgood.elim .inl fun hgood => .inr (.inr (.inl hgood))) hrun.active.not_ended
  | finished result =>
    cases result with
    | ok reason =>
      obtain ⟨status, hstatus, heq⟩ := receive_finished reason hlively.active
      rw [heq]
      refine h.take hlive hm (fun hfalse => by cases hfalse) (fun _ => ?_) rfl fun _ => ⟨reason, rfl⟩
      exact hstatus.elim .inl fun hstatus => .inr (.inr (.inl hstatus))
    | error e =>
      rw [receive_failed e hlively.active]
      refine h.take hlive hm (fun hfalse => by cases hfalse) (fun _ => .inr (.inl rfl)) rfl ?_
      rintro (hgood | hgood) <;> cases hgood

theorem next_sound (d : Drain) (h : t.acp.Sound) :
    (t.next d).acp.Sound := by
  rw [next]
  by_cases hsettled : t.acp.settled = true
  · rw [if_pos hsettled]
    exact h.make hsettled
  rw [if_neg hsettled]
  have hlive : t.acp.settled = false := by simpa using hsettled
  by_cases hover : t.acp.route.overflow = true
  · rw [if_pos hover]
    exact unknown_sound d .eventBufferFull h hlive
  · rw [if_neg hover]
    refine h.move (fun _ => hlive) ?_ ?_ <;> rintro (hphase | hphase) <;> cases hphase

theorem receiveClosed_sound (d : Drain) (h : t.acp.Sound) (hlive : t.acp.settled = false) :
    (t.receiveClosed d).acp.Sound := by
  rw [receiveClosed]
  cases hm : t.acp.route.queued[t.acp.route.taken]? with
  | some m => exact receive_sound h hlive hm
  | none => exact unknown_sound d .closed h hlive

theorem cancel_eq (d : Drain) (notified : Except String Unit) (h : t.acp.run.Active)
    (hlive : t.acp.settled = false) (hnew : t.acp.run.cancellationRequested = false) :
    (t.cancel d notified).2 = { t with acp := { t.acp with
      run := { t.acp.run with status := .cancelling, cancellationRequested := true }
      route := { t.acp.route with cancelling := true }.cancelPermissions d } } := by
  simp only [cancel, hlive, hnew, Bool.or_self, Bool.false_eq_true, ↓reduceIte, AcpRun.apply,
    Run.apply_cancellationRequested h]

theorem cancel_same (d : Drain) (notified : Except String Unit)
    (h : t.acp.settled = true ∨ t.acp.run.cancellationRequested = true) :
    (t.cancel d notified).2 = t := by
  rw [cancel, if_pos (by simpa using h)]

theorem cancelling_route (d : Drain) (h : t.acp.Sound) :
    Route.Sound ({ t.acp.route with cancelling := true }.cancelPermissions d) ∧
      t.acp.route.Grows ({ t.acp.route with cancelling := true }.cancelPermissions d) := by
  obtain ⟨hsound, -, hgrows⟩ := Route.cancelPermissions_spec
    (r := { t.acp.route with cancelling := true }) d h.route.accounted (h.route.holds.frame ..)
  exact ⟨hsound, hgrows.taken, hgrows.queued, hgrows.closed, hgrows.overflow⟩

theorem cancel_sound (d : Drain) (notified : Except String Unit) (h : t.acp.Sound) :
    (t.cancel d notified).2.acp.Sound := by
  by_cases hsame : t.acp.settled = true ∨ t.acp.run.cancellationRequested = true
  · rw [cancel_same d notified hsame]
    exact h
  · simp only [not_or, Bool.not_eq_true] at hsame
    obtain ⟨hlive, hnew⟩ := hsame
    rw [cancel_eq d notified (h.lively hlive).active hlive hnew]
    obtain ⟨hsound, hgrows⟩ := cancelling_route d h
    exact (h.onRoute hsound hgrows).proceed hlive ⟨.inr (.inr rfl), by simp⟩

theorem drop_sound (d : Drain) (notified : Except String Unit) (h : t.acp.Sound) :
    (t.drop d notified).acp.Sound := by
  have hcancel := cancel_sound d notified h
  rw [drop]
  by_cases hsettled : t.acp.settled = true
  · rw [if_pos hsettled]
    exact h.rest (.inr rfl)
  · rw [if_neg hsettled]
    exact hcancel.rest (.inr rfl)

theorem sent_sound (d : Drain) (result : Except String Unit) (h : t.acp.Sound)
    (hphase : t.acp.phase = .dispatching) : (t.sent d result).acp.Sound := by
  cases result with
  | ok => exact h.rest (.inl rfl)
  | error e =>
    obtain ⟨hsound, hclosed, hgrows⟩ := Route.close_spec d h.route.accounted h.route.holds
    refine (h.onRoute hsound hgrows).move ?_ ?_ ?_
    · exact fun hphase => by cases hphase
    · exact fun _ => h.begins (.inl hphase)
    · exact fun _ => hclosed

theorem release_sound (d : Drain) (h : t.acp.Sound) :
    Sound { t.acp with route := t.acp.route.close d, phase := .gone } := by
  obtain ⟨hsound, hclosed, hgrows⟩ := Route.close_spec d h.route.accounted h.route.holds
  refine (h.onRoute hsound hgrows).move ?_ ?_ ?_
  · exact fun hphase => by cases hphase
  · rintro (hphase | hphase) <;> cases hphase
  · exact fun _ => hclosed

theorem inPhase_eq {phase : RunPhase} {next : Turn U T} (h : t.inPhase phase next = some t') :
    t.acp.phase = phase ∧ t' = next := by
  rw [inPhase] at h
  by_cases hphase : t.acp.phase = phase
  · rw [if_pos hphase] at h
    exact ⟨hphase, (Option.some.inj h).symm⟩
  · rw [if_neg hphase] at h
    cases h

/-- One event keeps the invariant of a run. -/
theorem step_sound {e : Event U T} (h : t.acp.Sound) (hstep : step t e = some t') : t'.acp.Sound := by
  cases e with
  | sent d result =>
    obtain ⟨hphase, rfl⟩ := inPhase_eq hstep
    exact sent_sound d result h hphase
  | update d update =>
    cases hstep
    obtain ⟨hsound, hgrows⟩ := Route.routeUpdate_spec d update h.route
    exact h.onRoute hsound hgrows
  | permission d found request reply =>
    cases hstep
    obtain ⟨hsound, hgrows⟩ := Route.routePermission_spec d found request reply h.route
    exact h.onRoute hsound hgrows
  | complete d result =>
    cases hstep
    obtain ⟨hsound, -, hgrows⟩ := Route.complete_spec d result h.route
    exact h.onRoute hsound hgrows
  | close =>
    cases hstep
    exact h
  | next d =>
    obtain ⟨hphase, rfl⟩ := inPhase_eq hstep
    exact next_sound d h
  | receive =>
    rw [step] at hstep
    cases hm : t.acp.route.queued[t.acp.route.taken]? with
    | none =>
      rw [hm] at hstep
      cases hstep
    | some m =>
      rw [hm] at hstep
      obtain ⟨hphase, rfl⟩ := inPhase_eq hstep
      exact receive_sound h (h.waits hphase) hm
  | receiveClosed d =>
    rw [step] at hstep
    by_cases hclosed : t.closed = true
    · rw [if_pos hclosed] at hstep
      obtain ⟨hphase, rfl⟩ := inPhase_eq hstep
      exact receiveClosed_sound d h (h.waits hphase)
    · rw [if_neg hclosed] at hstep
      cases hstep
  | abandon =>
    obtain ⟨hphase, rfl⟩ := inPhase_eq hstep
    exact h.rest (.inl rfl)
  | respond d id option sent =>
    obtain ⟨hphase, rfl⟩ := inPhase_eq hstep
    obtain ⟨hsound, hgrows⟩ := Route.respond_spec d id option sent h.route
    exact h.onRoute hsound hgrows
  | cancel d notified =>
    obtain ⟨hphase, rfl⟩ := inPhase_eq hstep
    exact cancel_sound d notified h
  | drop d notified =>
    obtain ⟨hphase, rfl⟩ := inPhase_eq hstep
    exact drop_sound d notified h
  | release d =>
    obtain ⟨hphase, rfl⟩ := inPhase_eq hstep
    exact release_sound d h

theorem run_sound {es : List (Event U T)} (h : t.acp.Sound) (hrun : Next.run step es t = some t') :
    t'.acp.Sound :=
  Next.run_invariant (P := fun t : Turn U T => t.acp.Sound) (fun _ _ _ => step_sound) h hrun

/-! ## How many permission requests came -/

def Event.isRequest : Event U T → Bool
  | .permission .. => true
  | _ => false

theorem apply_route (event : RunEvent) (a : AcpRun U T) : (a.apply event).route = a.route := by
  unfold AcpRun.apply
  split <;> rfl

theorem requests_unknown (d : Drain) :
    (t.unknown d).acp.route.requests = t.acp.route.requests := by
  rw [← apply_route .connectionLost t.acp]
  exact Route.requests_close d

theorem requests_sent (d : Drain) (result : Except String Unit) :
    (t.sent d result).acp.route.requests = t.acp.route.requests := by
  cases result with
  | ok => rfl
  | error e => exact Route.requests_close d

theorem requests_next (d : Drain) : (t.next d).acp.route.requests = t.acp.route.requests := by
  rw [next]
  split
  · rfl
  split
  · exact requests_unknown d
  · rfl

theorem requests_receive (m : Delivery U T) :
    (t.receive m).acp.route.requests = t.acp.route.requests := by
  unfold receive
  cases m with
  | event shown =>
    dsimp only [return_]
    split
    · rw [apply_route]
    · rfl
  | finished result =>
    cases result with
    | ok reason =>
      dsimp only [return_]
      rw [apply_route]
    | error e =>
      dsimp only [return_]
      rw [apply_route]

theorem requests_receiveClosed (d : Drain) :
    (t.receiveClosed d).acp.route.requests = t.acp.route.requests := by
  rw [receiveClosed]
  split
  · exact requests_receive _
  · exact requests_unknown d

theorem requests_cancel (d : Drain) (notified : Except String Unit) :
    (t.cancel d notified).2.acp.route.requests = t.acp.route.requests := by
  rw [cancel]
  split
  · rfl
  · rw [← apply_route .cancellationRequested t.acp]
    exact Route.requests_cancelPermissions d

theorem requests_drop (d : Drain) (notified : Except String Unit) :
    (t.drop d notified).acp.route.requests = t.acp.route.requests := by
  rw [drop]
  split
  · rfl
  · exact requests_cancel d notified

/-- Only a request that comes is counted. -/
theorem requests_step {e : Event U T} (hstep : step t e = some t') :
    t'.acp.route.requests = t.acp.route.requests + if e.isRequest then 1 else 0 := by
  cases e with
  | sent d result =>
    obtain ⟨-, rfl⟩ := inPhase_eq hstep
    exact requests_sent d result
  | update d update =>
    cases hstep
    exact Route.requests_deliver d _
  | permission d found request reply =>
    cases hstep
    exact Route.requests_routePermission d found request reply
  | complete d result =>
    cases hstep
    exact Route.requests_complete d result
  | close =>
    cases hstep
    rfl
  | next d =>
    obtain ⟨-, rfl⟩ := inPhase_eq hstep
    exact requests_next d
  | receive =>
    rw [step] at hstep
    split at hstep
    · obtain ⟨-, rfl⟩ := inPhase_eq hstep
      exact requests_receive _
    · cases hstep
  | receiveClosed d =>
    rw [step] at hstep
    split at hstep
    · obtain ⟨-, rfl⟩ := inPhase_eq hstep
      exact requests_receiveClosed d
    · cases hstep
  | abandon =>
    obtain ⟨-, rfl⟩ := inPhase_eq hstep
    rfl
  | respond d id option sent =>
    obtain ⟨-, rfl⟩ := inPhase_eq hstep
    exact Route.requests_respond d option sent
  | cancel d notified =>
    obtain ⟨-, rfl⟩ := inPhase_eq hstep
    exact requests_cancel d notified
  | drop d notified =>
    obtain ⟨-, rfl⟩ := inPhase_eq hstep
    exact requests_drop d notified
  | release d =>
    obtain ⟨-, rfl⟩ := inPhase_eq hstep
    exact Route.requests_close d

theorem requests_run {es : List (Event U T)} (hrun : Next.run step es t = some t') :
    t'.acp.route.requests = t.acp.route.requests + es.countP Event.isRequest := by
  induction es generalizing t with
  | nil =>
    obtain rfl := Option.some.inj hrun
    rfl
  | cons e es ih =>
    obtain ⟨mid, hstep, hrest⟩ := Next.run_cons.mp hrun
    rw [ih hrest, requests_step hstep, List.countP_cons]
    omega

end Turn

end Acp

end AgentBridge
