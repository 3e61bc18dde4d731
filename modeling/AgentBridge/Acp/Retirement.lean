import AgentBridge.Acp.Dispatch
import AgentBridge.Acp.Lifecycle

/-!
# Runs of one session do not mix

A session dispatches its next run only after a successful response to the last one; a run that ended
in any other way keeps the session from dispatching another.
-/

namespace AgentBridge

open Reasoning

namespace Acp

variable {U T : Type}

namespace AcpRun

/-- The run failed or overflowed, or it is unknown how it ended. -/
def Lost (a : AcpRun U T) : Prop :=
  a.run.status = .failed ∨ a.run.status = .unknown ∨ a.route.overflow = true ∨
    ((a.phase = .dropping ∨ a.phase = .gone) ∧ a.settled = false) ∨ a.phase = .refused

variable {a : AcpRun U T}

/-- A run that succeeded took its end from a route that did not overflow. -/
theorem Sound.not_succeeded_of_lost (h : a.Sound) (hlost : a.Lost) : ¬ a.Succeeded := by
  intro hgood
  obtain ⟨reason, hmem⟩ := h.succeeded hgood
  have hsettled := h.finished _ hmem rfl
  rcases hlost with hlost | hlost | hlost | ⟨-, hlost⟩ | hlost
  · rcases hgood with hgood | hgood <;> rw [hgood] at hlost <;> cases hlost
  · rcases hgood with hgood | hgood <;> rw [hgood] at hlost <;> cases hlost
  · have hstop := (h.route.holds.stopped _ (List.mem_of_mem_take hmem) rfl).2
    rw [hlost] at hstop
    cases hstop
  · rw [hsettled] at hlost
    cases hlost
  · rw [h.begins (.inr hlost)] at hsettled
    cases hsettled

theorem Sound.settled_of_succeeded (h : a.Sound) (hgood : a.Succeeded) : a.settled = true := by
  obtain ⟨reason, hmem⟩ := h.succeeded hgood
  exact h.finished _ hmem rfl

end AcpRun

/-- What one event can change about a run and the flags of its session. -/
structure Turn.Moves (t t' : Turn U T) : Prop where
  quiescent : (t'.session.quiescent = t.session.quiescent ∧
      (t'.acp.Succeeded ↔ t.acp.Succeeded)) ∨
    (t'.session.quiescent = true ∧ t'.acp.Succeeded)
  requested : t.acp.run.cancellationRequested = true → t'.acp.run.cancellationRequested = true
  settled : t.acp.settled = true → t'.acp.settled = true ∧ t'.acp.run = t.acp.run
  ended : t.acp.Over → t'.session = t.session ∧ t'.acp.phase = t.acp.phase ∧
    t'.acp.settled = t.acp.settled ∧ t'.acp.run = t.acp.run
  overflow : t.acp.route.overflow = true → t'.acp.route.overflow = true
  dropping : t.acp.phase = .dropping →
    (t'.acp.phase = .dropping ∨ t'.acp.phase = .gone) ∧ t'.acp.settled = t.acp.settled

namespace Turn

variable {t t' : Turn U T}

/-- An operation of the route. -/
theorem Moves.onRoute {r : Route U T} (hgrows : t.acp.route.Grows r) :
    Moves t { t with acp := { t.acp with route := r } } where
  quiescent := .inl ⟨rfl, Iff.rfl⟩
  requested := id
  settled h := ⟨h, rfl⟩
  ended _ := ⟨rfl, rfl, rfl, rfl⟩
  overflow := hgrows.overflow
  dropping h := ⟨.inl h, rfl⟩

/-- A call of the consumer, on a run that still has its handle and is not settled by it. -/
theorem Moves.call {phase : RunPhase} (hphase : t.acp.phase = phase)
    (hcall : phase = .dispatching ∨ phase = .idle ∨ phase = .waiting)
    (hquiescent : (t'.session.quiescent = t.session.quiescent ∧
        (t'.acp.Succeeded ↔ t.acp.Succeeded)) ∨
      (t'.session.quiescent = true ∧ t'.acp.Succeeded))
    (hrequested : t.acp.run.cancellationRequested = true →
      t'.acp.run.cancellationRequested = true)
    (hsettled : t.acp.settled = true → t'.acp.settled = true ∧ t'.acp.run = t.acp.run)
    (hover : t.acp.route.overflow = true → t'.acp.route.overflow = true) : Moves t t' where
  quiescent := hquiescent
  requested := hrequested
  settled := hsettled
  ended h := by
    rcases h with h | h <;> rw [hphase] at h <;> rw [h] at hcall <;> simp at hcall
  overflow := hover
  dropping h := by
    rw [hphase] at h
    rw [h] at hcall
    simp at hcall

/-- Neither before nor after such a call is the run one that succeeded. -/
theorem Moves.unsettled {phase : RunPhase} (hphase : t.acp.phase = phase)
    (hcall : phase = .dispatching ∨ phase = .idle ∨ phase = .waiting) (h : t.acp.Sound)
    (hlive : t.acp.settled = false) (hquiescent : t'.session.quiescent = t.session.quiescent)
    (hafter : ¬ t'.acp.Succeeded)
    (hrequested : t.acp.run.cancellationRequested = true →
      t'.acp.run.cancellationRequested = true)
    (hover : t.acp.route.overflow = true → t'.acp.route.overflow = true) : Moves t t' := by
  refine .call hphase hcall (.inl ⟨hquiescent, ?_⟩) hrequested (fun hsettled => ?_) hover
  · exact iff_of_false hafter (h.not_succeeded hlive)
  · rw [hlive] at hsettled
    cases hsettled

theorem Moves.unknown {phase : RunPhase} (d : Drain) (e : AcpError) (hphase : t.acp.phase = phase)
    (hcall : phase = .dispatching ∨ phase = .idle ∨ phase = .waiting) (h : t.acp.Sound)
    (hlive : t.acp.settled = false) :
    Moves t { t.unknown d with acp := (t.unknown d).acp.return_ (.error e) } := by
  rw [unknown_eq d (h.lively hlive).active]
  obtain ⟨-, -, hgrows⟩ := Route.close_spec d h.route.accounted h.route.holds
  refine .unsettled hphase hcall h hlive rfl ?_ id hgrows.overflow
  rintro (hgood | hgood) <;> cases hgood

theorem Moves.receive {m : Delivery U T} (hphase : t.acp.phase = .waiting) (h : t.acp.Sound) :
    Moves t (t.receive m) := by
  have hlive := h.waits hphase
  have hlively := h.lively hlive
  cases m with
  | event shown =>
    obtain ⟨run, hrun, hflag, heq⟩ := receive_event shown hlively
    rw [heq]
    refine .unsettled hphase (.inr (.inr rfl)) h hlive rfl ?_ (fun hreq => hflag.trans hreq) id
    intro hgood
    exact absurd (hgood.elim .inl fun hgood => .inr (.inr (.inl hgood))) hrun.active.not_ended
  | finished result =>
    cases result with
    | ok reason =>
      obtain ⟨status, hstatus, heq⟩ := receive_finished reason hlively.active
      rw [heq]
      refine .call hphase (.inr (.inr rfl)) (.inr ⟨rfl, hstatus⟩) id (fun hsettled => ?_) id
      rw [hlive] at hsettled
      cases hsettled
    | error e =>
      rw [receive_failed e hlively.active]
      refine .unsettled hphase (.inr (.inr rfl)) h hlive rfl ?_ id id
      rintro (hgood | hgood) <;> cases hgood

theorem Moves.cancel (d : Drain) (notified : Except String Unit) (hphase : t.acp.phase = .idle)
    (h : t.acp.Sound) : Moves t (t.cancel d notified).2 := by
  by_cases hsame : t.acp.settled = true ∨ t.acp.run.cancellationRequested = true
  · rw [cancel_same d notified hsame]
    exact .onRoute (.refl _)
  · simp only [not_or, Bool.not_eq_true] at hsame
    obtain ⟨hlive, hnew⟩ := hsame
    rw [cancel_eq d notified (h.lively hlive).active hlive hnew]
    refine .unsettled hphase (.inr (.inl rfl)) h hlive rfl ?_ (fun _ => rfl)
      (cancelling_route d h).2.overflow
    rintro (hgood | hgood) <;> cases hgood

/-- One event of a run. -/
theorem step_moves {e : Event U T} (h : t.acp.Sound) (hstep : step t e = some t') : Moves t t' := by
  cases e with
  | sent d result =>
    obtain ⟨hphase, rfl⟩ := inPhase_eq hstep
    cases result with
    | ok => exact .call hphase (.inl rfl) (.inl ⟨rfl, Iff.rfl⟩) id (fun hsettled => ⟨hsettled, rfl⟩) id
    | error e =>
      obtain ⟨-, -, hgrows⟩ := Route.close_spec d h.route.accounted h.route.holds
      exact .call hphase (.inl rfl) (.inl ⟨rfl, Iff.rfl⟩) id (fun hsettled => ⟨hsettled, rfl⟩)
        hgrows.overflow
  | update d update =>
    cases hstep
    exact .onRoute (Route.routeUpdate_spec d update h.route).2
  | permission d found request reply =>
    cases hstep
    exact .onRoute (Route.routePermission_spec d found request reply h.route).2
  | complete d result =>
    cases hstep
    exact .onRoute (Route.complete_spec d result h.route).2.2
  | close =>
    cases hstep
    exact ⟨.inl ⟨rfl, Iff.rfl⟩, id, fun h => ⟨h, rfl⟩, fun _ => ⟨rfl, rfl, rfl, rfl⟩, id,
      fun h => ⟨.inl h, rfl⟩⟩
  | next d =>
    obtain ⟨hphase, rfl⟩ := inPhase_eq hstep
    rw [next]
    by_cases hsettled : t.acp.settled = true
    · rw [if_pos hsettled]
      exact .call hphase (.inr (.inl rfl)) (.inl ⟨rfl, Iff.rfl⟩) id (fun hsettled => ⟨hsettled, rfl⟩) id
    rw [if_neg hsettled]
    by_cases hover : t.acp.route.overflow = true
    · rw [if_pos hover]
      exact .unknown d .eventBufferFull hphase (.inr (.inl rfl)) h (by simpa using hsettled)
    · rw [if_neg hover]
      exact .call hphase (.inr (.inl rfl)) (.inl ⟨rfl, Iff.rfl⟩) id (fun hsettled => ⟨hsettled, rfl⟩) id
  | receive =>
    rw [step] at hstep
    cases hm : t.acp.route.queued[t.acp.route.taken]? with
    | none =>
      rw [hm] at hstep
      cases hstep
    | some m =>
      rw [hm] at hstep
      obtain ⟨hphase, rfl⟩ := inPhase_eq hstep
      exact .receive hphase h
  | receiveClosed d =>
    rw [step] at hstep
    by_cases hclosed : t.closed = true
    · rw [if_pos hclosed] at hstep
      obtain ⟨hphase, rfl⟩ := inPhase_eq hstep
      rw [receiveClosed]
      cases hm : t.acp.route.queued[t.acp.route.taken]? with
      | some m => exact .receive hphase h
      | none => exact .unknown d .closed hphase (.inr (.inr rfl)) h (h.waits hphase)
    · rw [if_neg hclosed] at hstep
      cases hstep
  | abandon =>
    obtain ⟨hphase, rfl⟩ := inPhase_eq hstep
    exact .call hphase (.inr (.inr rfl)) (.inl ⟨rfl, Iff.rfl⟩) id (fun hsettled => ⟨hsettled, rfl⟩) id
  | respond d id option sent =>
    obtain ⟨-, rfl⟩ := inPhase_eq hstep
    exact .onRoute (Route.respond_spec d id option sent h.route).2
  | cancel d notified =>
    obtain ⟨hphase, rfl⟩ := inPhase_eq hstep
    exact .cancel d notified hphase h
  | drop d notified =>
    obtain ⟨hphase, rfl⟩ := inPhase_eq hstep
    have hcancel := Moves.cancel d notified hphase h
    rw [drop]
    by_cases hsettled : t.acp.settled = true
    · rw [if_pos hsettled]
      exact .call hphase (.inr (.inl rfl)) (.inl ⟨rfl, Iff.rfl⟩) id (fun hsettled => ⟨hsettled, rfl⟩) id
    · rw [if_neg hsettled]
      exact .call hphase (.inr (.inl rfl)) hcancel.quiescent hcancel.requested hcancel.settled
        hcancel.overflow
  | release d =>
    obtain ⟨hphase, rfl⟩ := inPhase_eq hstep
    obtain ⟨-, -, hgrows⟩ := Route.close_spec d h.route.accounted h.route.holds
    refine ⟨.inl ⟨rfl, Iff.rfl⟩, id, fun hsettled => ⟨hsettled, rfl⟩, fun hover => ?_,
      hgrows.overflow, fun _ => ⟨.inr rfl, rfl⟩⟩
    rcases hover with hover | hover <;> rw [hphase] at hover <;> cases hover

/-- What is lost stays lost. -/
theorem Moves.lost (hmoves : Moves t t') (h : t.acp.Sound) (hlost : t.acp.Lost) : t'.acp.Lost := by
  rcases hlost with hlost | hlost | hlost | ⟨hlost | hlost, hlive⟩ | hlost
  · have hsettled := h.settled_iff.mpr (.inr (.inl hlost))
    exact .inl (by rw [(hmoves.settled hsettled).2, hlost])
  · have hsettled := h.settled_iff.mpr (.inr (.inr (.inr hlost)))
    exact .inr (.inl (by rw [(hmoves.settled hsettled).2, hlost]))
  · exact .inr (.inr (.inl (hmoves.overflow hlost)))
  · obtain ⟨hphase, hsame⟩ := hmoves.dropping hlost
    exact .inr (.inr (.inr (.inl ⟨hphase, hsame.trans hlive⟩)))
  · obtain ⟨-, hphase, hsame, -⟩ := hmoves.ended (.inl hlost)
    exact .inr (.inr (.inr (.inl ⟨.inr (hphase.trans hlost), hsame.trans hlive⟩)))
  · obtain ⟨-, hphase, -⟩ := hmoves.ended (.inr hlost)
    exact .inr (.inr (.inr (.inr (hphase.trans hlost))))

end Turn

/-! ## One session -/

namespace NativeSession

/-- The invariant of a session: all its runs but the last are over and succeeded, and it is
quiescent when the last did too. -/
structure Sound (s : NativeSession U T) : Prop where
  runs : ∀ a ∈ s.runs, a.Sound
  past : ∀ j a, s.runs[j]? = some a → j + 1 < s.runs.length → a.Over ∧ a.Succeeded
  quiescent : s.flags.quiescent = true ↔ ∀ a ∈ s.runs, a.Succeeded
  used : s.live = false → ∀ a ∈ s.runs, a.Over

variable {s s' : NativeSession U T} {j : Nat}

theorem new_sound (native : String) (fresh : Bool) : (new native fresh : NativeSession U T).Sound where
  runs _ ha := by cases ha
  past _ _ hj := by cases hj
  quiescent := iff_of_true rfl fun _ ha => by cases ha
  used _ _ ha := by cases ha

/-- A dispatch that is accepted, which the runs so far all succeeded for, or one that is not and
changes nothing. -/
theorem dispatchBlocks_cases (x : Dispatch) (s : NativeSession U T) :
    ((s.dispatchBlocks x).1 = .ok () ∧ s.flags.quiescent = true ∧ (s.dispatchBlocks x).2 = { s with
      flags := { s.flags with quiescent := false, fresh := false }
      runs := s.runs ++ [AcpRun.start x.spec x.text] }) ∨
    (∃ e, (s.dispatchBlocks x).1 = .error e) ∧ (s.dispatchBlocks x).2 = s := by
  rw [dispatchBlocks]
  by_cases hblank : isBlank x.text = true
  · rw [if_pos hblank]
    exact .inr ⟨⟨_, rfl⟩, rfl⟩
  rw [if_neg hblank]
  by_cases hbusy : (s.flags.retired || !s.flags.quiescent) = true
  · rw [if_pos hbusy]
    exact .inr ⟨⟨_, rfl⟩, rfl⟩
  rw [if_neg hbusy]
  by_cases hclosed : x.isClosed = true
  · rw [if_pos hclosed]
    exact .inr ⟨⟨_, rfl⟩, rfl⟩
  rw [if_neg hclosed]
  cases hreport : x.forRun with
  | error e => exact .inr ⟨⟨e, rfl⟩, rfl⟩
  | ok config =>
    by_cases hchanged : config ≠ x.spec.config
    · dsimp only
      rw [if_pos hchanged]
      exact .inr ⟨⟨_, rfl⟩, rfl⟩
    · dsimp only
      rw [if_neg hchanged]
      have hquiet : s.flags.quiescent = true := by
        by_contra hquiet
        simp only [Bool.not_eq_true] at hquiet
        exact hbusy (by rw [hquiet]; simp)
      exact .inl ⟨rfl, hquiet, rfl⟩

theorem dispatch_sound (x : Dispatch) (h : s.Sound) (hfree : s.Free) : (s.dispatchBlocks x).2.Sound := by
  rcases dispatchBlocks_cases x s with ⟨-, hquiet, heq⟩ | ⟨-, heq⟩
  · rw [heq]
    have hnew : ∀ a ∈ s.runs ++ [AcpRun.start x.spec x.text], a ∈ s.runs ∨
        a = AcpRun.start x.spec x.text := by
      intro a ha
      simpa using ha
    exact {
      runs := by
        intro a ha
        rcases hnew a ha with ha | rfl
        · exact h.runs a ha
        · exact AcpRun.start_sound x.spec x.text
      past := by
        intro j a hj hlt
        replace hlt : j + 1 < (s.runs ++ [AcpRun.start x.spec x.text]).length := hlt
        rw [List.length_append, List.length_singleton] at hlt
        replace hj : (s.runs ++ [AcpRun.start x.spec x.text])[j]? = some a := hj
        rw [List.getElem?_append_left (by omega)] at hj
        have hmem := List.mem_of_getElem? hj
        exact ⟨hfree.2 a hmem, h.quiescent.mp hquiet a hmem⟩
      quiescent := by
        refine iff_of_false (by simp) fun hall => ?_
        have hgood := hall (AcpRun.start x.spec x.text)
          (List.mem_append_right _ (List.mem_singleton.mpr rfl))
        exact (AcpRun.start_sound x.spec x.text).not_succeeded rfl hgood
      used := fun hused => by cases hfree.1.symm.trans hused }
  · rw [heq]
    exact h

/-- The run that an event is about, and what becomes of it. -/
theorem turn_eq {closed : Bool} {e : Turn.Event U T} (h : s.Sound)
    (hstep : s.turn closed j e = some s') : ∃ a t, s.runs[j]? = some a ∧
      Turn.step ⟨s.flags, closed, a⟩ e = some t ∧ t.acp.Sound ∧ Turn.Moves ⟨s.flags, closed, a⟩ t ∧
      s' = { s with flags := t.session, runs := s.runs.set j t.acp } := by
  rw [turn] at hstep
  cases hj : s.runs[j]? with
  | none =>
    rw [hj] at hstep
    cases hstep
  | some a =>
    rw [hj] at hstep
    cases ht : Turn.step ⟨s.flags, closed, a⟩ e with
    | none =>
      simp only [ht] at hstep
      cases hstep
    | some t =>
      simp only [ht, Option.some.injEq] at hstep
      have ha := h.runs a (List.mem_of_getElem? hj)
      exact ⟨a, t, rfl, ht, Turn.step_sound ha ht, Turn.step_moves ha ht, hstep.symm⟩

theorem turn_sound {closed : Bool} {e : Turn.Event U T} (h : s.Sound)
    (hstep : s.turn closed j e = some s') : s'.Sound := by
  obtain ⟨a, t, hj, -, hsound, hmoves, rfl⟩ := turn_eq h hstep
  obtain ⟨hlt, -⟩ := List.getElem?_eq_some_iff.mp hj
  have hmem := List.mem_of_getElem? hj
  have hset : ∀ b ∈ s.runs.set j t.acp, b = t.acp ∨ ∃ k, k ≠ j ∧ s.runs[k]? = some b := by
    intro b hb
    obtain ⟨k, hk⟩ := List.getElem?_of_mem hb
    rw [List.getElem?_set] at hk
    by_cases hjk : j = k
    · rw [if_pos hjk, if_pos hlt] at hk
      exact .inl (Option.some.inj hk).symm
    · rw [if_neg hjk] at hk
      exact .inr ⟨k, Ne.symm hjk, hk⟩
  have hkept : ∀ b k, k ≠ j → s.runs[k]? = some b → b ∈ s.runs.set j t.acp := by
    intro b k hk hb
    refine List.mem_of_getElem? (i := k) ?_
    rw [List.getElem?_set, if_neg (Ne.symm hk)]
    exact hb
  have hnew : t.acp ∈ s.runs.set j t.acp := List.mem_set hlt _
  exact {
    runs := by
      intro b hb
      rcases hset b hb with rfl | ⟨k, -, hk⟩
      · exact hsound
      · exact h.runs b (List.mem_of_getElem? hk)
    past := by
      intro k b hk hlast
      replace hlast : k + 1 < (s.runs.set j t.acp).length := hlast
      replace hk : (s.runs.set j t.acp)[k]? = some b := hk
      rw [List.length_set] at hlast
      rw [List.getElem?_set] at hk
      by_cases hjk : j = k
      · rw [if_pos hjk, if_pos hlt] at hk
        obtain ⟨hover, hgood⟩ := h.past j a hj (by omega)
        obtain ⟨-, hphase, -, hrun⟩ := hmoves.ended hover
        rw [← Option.some.inj hk, AcpRun.Over, AcpRun.Succeeded, hphase, hrun]
        exact ⟨hover, hgood⟩
      · rw [if_neg hjk] at hk
        exact h.past k b hk hlast
    quiescent := by
      show t.session.quiescent = true ↔ ∀ b ∈ s.runs.set j t.acp, b.Succeeded
      rcases hmoves.quiescent with ⟨hflag, hgood⟩ | ⟨hflag, hgood⟩
      · rw [hflag, h.quiescent]
        constructor
        · intro hall b hb
          rcases hset b hb with rfl | ⟨k, -, hk⟩
          · exact hgood.mpr (hall a hmem)
          · exact hall b (List.mem_of_getElem? hk)
        · intro hall b hb
          obtain ⟨k, hk⟩ := List.getElem?_of_mem hb
          by_cases hjk : k = j
          · rw [hjk, hj] at hk
            rw [← Option.some.inj hk]
            exact hgood.mp (hall t.acp hnew)
          · exact hall b (hkept b k hjk hk)
      · refine iff_of_true hflag fun b hb => ?_
        rcases hset b hb with rfl | ⟨k, hjk, hk⟩
        · exact hgood
        · obtain ⟨hklt, -⟩ := List.getElem?_eq_some_iff.mp hk
          by_cases hlast : k + 1 < s.runs.length
          · exact (h.past k b hk hlast).2
          -- the last run is not this one, which then changes no flag
          · obtain ⟨hover, -⟩ := h.past j a hj (by omega)
            rw [(hmoves.ended hover).1] at hflag
            exact h.quiescent.mp hflag b (List.mem_of_getElem? hk)
    used := by
      intro hused b hb
      have hall := h.used hused
      rcases hset b hb with rfl | ⟨k, -, hk⟩
      · have hover := hall a hmem
        rw [AcpRun.Over, (hmoves.ended hover).2.1]
        exact hover
      · exact hall b (List.mem_of_getElem? hk) }

/-- No more than one route of a session takes anything. -/
theorem Sound.one_accepts (h : s.Sound) {k : Nat} {a b : AcpRun U T} (ha : s.runs[j]? = some a)
    (hb : s.runs[k]? = some b) (haccepts : a.route.accepting = true)
    (hbaccepts : b.route.accepting = true) : j = k := by
  have hlast : ∀ i c, s.runs[i]? = some c → c.route.accepting = true → i + 1 = s.runs.length := by
    intro i c hc haccepts
    obtain ⟨hlt, -⟩ := List.getElem?_eq_some_iff.mp hc
    by_contra hearly
    obtain ⟨hover, -⟩ := h.past i c hc (by omega)
    have hshut := (h.runs c (List.mem_of_getElem? hc)).shut (.inr hover)
    rw [haccepts] at hshut
    cases hshut
  have hj := hlast j a ha haccepts
  have hk := hlast k b hb hbaccepts
  omega

/-- A session with a run that is lost dispatches no more. -/
theorem Sound.refuses (h : s.Sound) {a : AcpRun U T} (ha : a ∈ s.runs) (hlost : a.Lost)
    (x : Dispatch) : ∃ e, (s.dispatchBlocks x).1 = .error e := by
  rcases dispatchBlocks_cases x s with ⟨-, hquiet, -⟩ | ⟨herror, -⟩
  · exact absurd (h.quiescent.mp hquiet a ha) ((h.runs a ha).not_succeeded_of_lost hlost)
  · exact herror

/-- The runs of a session later: they keep their places, a request to cancel, and what is lost. -/
def Follows (s s' : NativeSession U T) : Prop :=
  s'.native = s.native ∧ ∀ (j : Nat) (a : AcpRun U T), s.runs[j]? = some a →
    ∃ a' : AcpRun U T, s'.runs[j]? = some a' ∧
    (a.run.cancellationRequested = true → a'.run.cancellationRequested = true) ∧
    (a.Lost → a'.Lost)

theorem Follows.refl (s : NativeSession U T) : Follows s s :=
  ⟨rfl, fun _ a ha => ⟨a, ha, id, id⟩⟩

theorem Follows.trans {a b c : NativeSession U T} (h : Follows a b) (h' : Follows b c) :
    Follows a c := by
  refine ⟨h'.1.trans h.1, fun j x hx => ?_⟩
  obtain ⟨y, hy, hyflag, hylost⟩ := h.2 j x hx
  obtain ⟨z, hz, hzflag, hzlost⟩ := h'.2 j y hy
  exact ⟨z, hz, hzflag ∘ hyflag, hzlost ∘ hylost⟩

theorem dispatch_follows (x : Dispatch) (s : NativeSession U T) :
    Follows s (s.dispatchBlocks x).2 := by
  rcases dispatchBlocks_cases x s with ⟨-, -, heq⟩ | ⟨-, heq⟩
  · rw [heq]
    refine ⟨rfl, fun j a ha => ⟨a, ?_, id, id⟩⟩
    obtain ⟨hlt, -⟩ := List.getElem?_eq_some_iff.mp ha
    exact (List.getElem?_append_left hlt).trans ha
  · rw [heq]
    exact .refl s

theorem turn_follows {closed : Bool} {e : Turn.Event U T} (h : s.Sound)
    (hstep : s.turn closed j e = some s') : Follows s s' := by
  obtain ⟨a, t, hj, -, -, hmoves, rfl⟩ := turn_eq h hstep
  refine ⟨rfl, fun k b hb => ?_⟩
  obtain ⟨hlt, -⟩ := List.getElem?_eq_some_iff.mp hj
  show ∃ a', (s.runs.set j t.acp)[k]? = some a' ∧ _
  rw [List.getElem?_set]
  by_cases hk : j = k
  · rw [if_pos hk, if_pos hlt]
    rw [← hk, hj] at hb
    rw [← Option.some.inj hb]
    exact ⟨t.acp, rfl, hmoves.requested, hmoves.lost (h.runs a (List.mem_of_getElem? hj))⟩
  · rw [if_neg hk]
    exact ⟨b, hb, id, id⟩

end NativeSession

end Acp

end AgentBridge
