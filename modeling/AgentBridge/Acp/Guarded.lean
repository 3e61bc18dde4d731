import AgentBridge.Acp.Ended
import AgentBridge.Acp.Permissions
import AgentBridge.Acp.RecordedRun

/-!
# A recorded run that fails

When a record cannot be written, the run is not consumed any more, and its drop retires the session:
unless the record was one of those that end the run, when the session is free already.
-/

namespace AgentBridge

open Reasoning

namespace Acp

/-! ## The run of the agent -/

namespace Turn

variable {U T : Type} {t t' : Turn U T}

/-- A run whose session is lost, or will be when the run is dropped. -/
def Doomed (t : Turn U T) : Prop :=
  t.session.retired = true ∨
    (t.acp.settled = false ∧ t.acp.phase ≠ .dropping ∧ ¬ t.acp.Over)

theorem Doomed.retired (h : t.Doomed) (hover : t.acp.Over) : t.session.retired = true := by
  cases h with
  | inl h => exact h
  | inr h => exact absurd hover h.2.2

theorem Doomed.congr (h : t.Doomed) (hretired : t.session.retired = true → t'.session.retired = true)
    (hsettled : t'.acp.settled = t.acp.settled) (hphase : t'.acp.phase = t.acp.phase) :
    t'.Doomed := by
  cases h with
  | inl h => exact .inl (hretired h)
  | inr h =>
    refine .inr ⟨hsettled.trans h.1, ?_, ?_⟩
    · rw [hphase]
      exact h.2.1
    · unfold AcpRun.Over
      rw [hphase]
      exact h.2.2

theorem doomed_of_phase (phase : RunPhase) (hsettled : t.acp.settled = false)
    (hphase : t.acp.phase = phase)
    (hlive : phase ≠ .dropping ∧ ¬ (phase = .gone ∨ phase = .refused)) : t.Doomed := by
  refine .inr ⟨hsettled, ?_, ?_⟩
  · rw [hphase]
    exact hlive.1
  · unfold AcpRun.Over
    rw [hphase]
    exact hlive.2

@[simp] theorem apply_settled (event : RunEvent) (a : AcpRun U T) :
    (a.apply event).settled = a.settled := by
  unfold AcpRun.apply
  split <;> rfl

@[simp] theorem apply_phase (event : RunEvent) (a : AcpRun U T) :
    (a.apply event).phase = a.phase := by
  unfold AcpRun.apply
  split <;> rfl

@[simp] theorem apply_returned (event : RunEvent) (a : AcpRun U T) :
    (a.apply event).returned = a.returned := by
  unfold AcpRun.apply
  split <;> rfl

/-- What the inner call of `next` left behind when it returned. -/
structure Returns (t t' : Turn U T) (result : Except AcpError (Option (AcpEvent U T))) : Prop where
  returned : t'.acp.returned = t.acp.returned ++ [result]
  idle : t'.acp.phase = .idle
  retired : t.session.retired = true → t'.session.retired = true
  error : ∀ e, result = .error e → t'.session.retired = true
  settled : t'.acp.settled = t.acp.settled ∨
    (∃ e, result = .error e) ∨ ∃ reason, result = .ok (some (.finished reason))

theorem Returns.doomed {result : Except AcpError (Option (AcpEvent U T))}
    (h : Returns t t' result) (hresult : ∀ reason, result ≠ .ok (some (.finished reason)))
    (hdoomed : t.Doomed) : t'.Doomed := by
  cases hdoomed with
  | inl hretired => exact .inl (h.retired hretired)
  | inr hlive =>
    cases h.settled with
    | inl hsettled => exact doomed_of_phase .idle (hsettled.trans hlive.1) h.idle (by decide)
    | inr hended =>
      cases hended with
      | inl herror =>
        obtain ⟨e, he⟩ := herror
        exact .inl (h.error e he)
      | inr hfinished =>
        obtain ⟨reason, hreason⟩ := hfinished
        exact absurd hreason (hresult reason)

theorem receive_returns (m : Delivery U T) (t : Turn U T) : Returns t (t.receive m) m.result := by
  cases m with
  | event shown =>
    refine ⟨?_, rfl, id, (fun e h => by cases h), .inl ?_⟩
    · unfold receive
      dsimp only [AcpRun.return_]
      split <;> simp [Delivery.result]
    · unfold receive
      dsimp only [AcpRun.return_]
      split <;> simp
  | finished result =>
    cases result with
    | ok reason =>
      refine ⟨?_, rfl, id, (fun e h => by cases h), .inr (.inr ⟨reason, rfl⟩)⟩
      simp [receive, AcpRun.return_, Delivery.result]
    | error e =>
      refine ⟨?_, rfl, (fun _ => rfl), (fun _ _ => rfl), .inr (.inl ⟨_, rfl⟩)⟩
      simp [receive, AcpRun.return_, Delivery.result]

theorem receiveClosed_returns (d : Drain) (t : Turn U T) : Returns t (t.receiveClosed d)
    ((t.acp.route.queued[t.acp.route.taken]?).elim (.error .closed) Delivery.result) := by
  unfold receiveClosed
  cases t.acp.route.queued[t.acp.route.taken]? with
  | some m => exact receive_returns m t
  | none =>
    refine ⟨?_, rfl, (fun _ => rfl), (fun _ _ => rfl), .inr (.inl ⟨_, rfl⟩)⟩
    simp [unknown, AcpRun.return_]

/-- `next` returns at once, or it waits. -/
theorem next_cases (d : Drain) (t : Turn U T) :
    (∃ result, Returns t (t.next d) result ∧ ∀ shown, result ≠ .ok (some shown)) ∨
    (t.acp.settled = false ∧ t.next d = { t with acp := { t.acp with phase := .waiting } }) := by
  unfold next
  split
  · exact .inl ⟨.ok none, ⟨rfl, rfl, id, (fun e h => by cases h), .inl rfl⟩, fun shown h => by cases h⟩
  · next hsettled =>
    split
    · refine .inl ⟨.error .eventBufferFull, ⟨?_, rfl, (fun _ => rfl), (fun _ _ => rfl), .inr (.inl ⟨_, rfl⟩)⟩,
        fun shown h => by cases h⟩
      simp [unknown, AcpRun.return_]
    · exact .inr ⟨by simpa using hsettled, rfl⟩

/-- Cancelling is not dropping. -/
theorem cancel_frame (d : Drain) (notified : Except String Unit) (t : Turn U T) :
    (t.cancel d notified).2.session = t.session ∧ (t.cancel d notified).2.acp.settled = t.acp.settled ∧
      (t.cancel d notified).2.acp.phase = t.acp.phase := by
  unfold cancel
  split
  · exact ⟨rfl, rfl, rfl⟩
  · exact ⟨rfl, apply_settled _ _, apply_phase _ _⟩

theorem cancel_doomed (d : Drain) (notified : Except String Unit) (h : t.Doomed) :
    (t.cancel d notified).2.Doomed := by
  obtain ⟨hsession, hsettled, hphase⟩ := cancel_frame d notified t
  exact h.congr (fun hretired => by rw [hsession, hretired]) hsettled hphase

theorem drop_phase (d : Drain) (notified : Except String Unit) (t : Turn U T) :
    (t.drop d notified).acp.phase = .dropping := by
  unfold drop
  split <;> rfl

theorem drop_doomed (d : Drain) (notified : Except String Unit) (h : t.Doomed) :
    (t.drop d notified).session.retired = true := by
  unfold drop
  split
  · next hsettled =>
    cases h with
    | inl h => exact h
    | inr h =>
      rw [h.1] at hsettled
      cases hsettled
  · rfl

end Turn

/-- What connects a run to the route leaves the handle alone. -/
theorem Turn.connection_frame {U T : Type} {t t' : Turn U T} {e : Turn.Event U T}
    (hconnection : RecordedRun.ofConnection e = true) (hstep : t.step e = some t') :
    t'.session = t.session ∧ t'.acp.settled = t.acp.settled ∧ t'.acp.phase = t.acp.phase := by
  cases e with
  | update d update =>
    cases hstep
    exact ⟨rfl, rfl, rfl⟩
  | permission d found request reply =>
    cases hstep
    exact ⟨rfl, rfl, rfl⟩
  | complete d result =>
    cases hstep
    exact ⟨rfl, rfl, rfl⟩
  | close =>
    cases hstep
    exact ⟨rfl, rfl, rfl⟩
  | _ => cases hconnection

/-! ## The recorded run -/

/-- A call of `next` or `checkpoint` returned an error. -/
def Returned.isFailure {D F : Type} : Returned D F → Bool
  | .next (.error (.error _)) => true
  | .checkpoint (.error (.error _)) => true
  | _ => false

/-- The stop reason that `next` shows for a delivery. -/
def Delivery.reason {U T : Type} : Delivery U T → Option StopReason
  | .event (.finished reason) => some reason
  | .finished (.ok reason) => some reason
  | _ => none

theorem Delivery.reason_of_result {U T : Type} {m : Delivery U T} {reason : StopReason}
    (h : m.result = .ok (some (.finished reason))) : m.reason = some reason := by
  cases m with
  | event shown =>
    obtain rfl : shown = .finished reason := Option.some.inj (Except.ok.inj h)
    rfl
  | finished result =>
    cases result with
    | ok reason' =>
      cases h
      rfl
    | error e => cases h

namespace RecordedRun

variable {D F σ α : Type} {m : StoreMachine σ} {protocol : Protocol D F} {text : Fault → String}
variable {s s' : RecordedRun D F σ}

/-- The delivery that an event has `next` take. -/
def takes (s : RecordedRun D F σ) :
    Event D F → Option (Delivery (SessionUpdate D F) (ToolCallUpdate F))
  | .receive => s.inner.acp.route.queued[s.inner.acp.route.taken]?
  | .receiveClosed _ => s.inner.acp.route.queued[s.inner.acp.route.taken]?
  | _ => none

/-- The stop reason that an event has `next` show. -/
def ends (s : RecordedRun D F σ) (e : Event D F) : Option StopReason :=
  (s.takes e).bind Delivery.reason

theorem ends_of_closed {d : Drain} {reason : StopReason}
    (h : (s.inner.acp.route.queued[s.inner.acp.route.taken]?).elim (.error .closed) Delivery.result =
      .ok (some (.finished reason))) : s.ends (.receiveClosed d) = some reason := by
  rw [ends, takes]
  cases htaken : s.inner.acp.route.queued[s.inner.acp.route.taken]? with
  | none =>
    rw [htaken] at h
    cases h
  | some delivery =>
    rw [htaken] at h
    exact Delivery.reason_of_result h

/-- The invariant of a run whose end was recorded, if it came. -/
structure Guarded (s : RecordedRun D F σ) : Prop where
  waits : s.inner.acp.phase = .waiting →
    s.failed = false ∧ s.inner.acp.settled = false
  failing : s.failed = true → s.inner.Doomed
  cancels : ∀ result, s.call = .failing result → s.failed = true
  reported : ∀ result ∈ s.returned, result.isFailure = true → s.failed = true
  quiet : s.inner.Doomed ∨ s.recorder.Quiet

theorem dispatched_guarded (closed : Bool) (wire : String) (r : Recorder D) (store : σ) :
    (dispatched closed wire r store : RecordedRun D F σ).Guarded := by
  have hphase : (Turn.dispatched closed r.spec wire :
      Turn (SessionUpdate D F) (ToolCallUpdate F)).acp.phase = .dispatching :=
    Turn.apply_phase _ _
  have hsettled : (Turn.dispatched closed r.spec wire :
      Turn (SessionUpdate D F) (ToolCallUpdate F)).acp.settled = false :=
    Turn.apply_settled _ _
  refine ⟨fun h => ?_, (fun h => by cases h), (fun _ h => by cases h),
    (fun _ h => absurd h List.not_mem_nil), .inl (.inr ⟨hsettled, ?_, ?_⟩)⟩
  · cases hphase.symm.trans h
  · exact fun h => by cases hphase.symm.trans h
  · intro h
    cases h with
    | inl h => cases hphase.symm.trans h
    | inr h => cases hphase.symm.trans h

theorem Guarded.return_ {result : Returned D F} (h : s.Guarded)
    (hresult : result.isFailure = true → s.failed = true) : (s.return_ result).Guarded where
  waits := h.waits
  failing := h.failing
  cancels _ hcall := by cases hcall
  reported r hr hfailure := by
    cases List.mem_append.mp hr with
    | inl hr => exact h.reported r hr hfailure
    | inr hr =>
      rw [List.mem_singleton.mp hr] at hfailure
      exact hresult hfailure
  quiet := h.quiet

theorem Guarded.fail {fault : RecordingFault} {result : Returned D F} (h : s.Guarded)
    (hphase : s.inner.acp.phase ≠ .waiting) (hdoomed : s.inner.Doomed)
    (hresult : fault = .panic → result.isFailure = false) : (s.fail fault result).Guarded := by
  cases fault with
  | error e =>
    exact ⟨fun hwaiting => absurd hwaiting hphase, fun _ => hdoomed, fun _ _ => rfl, fun _ _ _ => rfl,
      .inl hdoomed⟩
  | panic =>
    refine h.return_ fun hfailure => ?_
    rw [hresult rfl] at hfailure
    cases hfailure

theorem recording_eq (x : Recording D σ α) (s : RecordedRun D F σ) :
    s.recording x = ((x.exec (s.recorder, s.store)).1, { s with
      recorder := (x.exec (s.recorder, s.store)).2.1
      store := (x.exec (s.recorder, s.store)).2.2 }) := rfl

theorem Guarded.setRecorder {recorder : Recorder D} {store : σ} (h : s.Guarded)
    (hquiet : s.recorder.Quiet → recorder.Quiet) : Guarded { s with recorder, store } :=
  ⟨h.waits, h.failing, h.cancels, h.reported, h.quiet.imp_right hquiet⟩

/-- A call of the agent's run that is not the end of one of `next`. -/
theorem Guarded.setInner {inner : Turn (SessionUpdate D F) (ToolCallUpdate F)} (h : s.Guarded)
    (hwaits : inner.acp.phase = .waiting → s.failed = false ∧ inner.acp.settled = false)
    (hdoomed : s.inner.Doomed → inner.Doomed) : Guarded { s with inner } :=
  ⟨hwaits, hdoomed ∘ h.failing, h.cancels, h.reported, h.quiet.imp_left hdoomed⟩

/-- The session is lost, whatever the recorder holds. -/
theorem Guarded.lost {inner : Turn (SessionUpdate D F) (ToolCallUpdate F)} {recorder : Recorder D}
    {store : σ} {failed : Bool} (h : s.Guarded) (hretired : inner.session.retired = true)
    (hphase : inner.acp.phase ≠ .waiting) (hfailed : s.failed = true → failed = true) :
    Guarded { s with inner, recorder, store, failed } :=
  ⟨fun hwaiting => absurd hwaiting hphase, fun _ => .inl hretired,
    fun _ hcall => hfailed (h.cancels _ hcall),
    fun r hr hfailure => hfailed (h.reported r hr hfailure), .inl (.inl hretired)⟩

/-- One event of a run whose end is recorded, if it comes then. -/
structure Keeps (m : StoreMachine σ) (protocol : Protocol D F) (s : RecordedRun D F σ)
    (e : Event D F) (s' : RecordedRun D F σ) : Prop where
  guarded : s'.Guarded
  failed : s.failed = true → s'.failed = true
  /-- The end is shown once it is recorded. -/
  ended : ∀ reason, s'.failed = false →
    s'.returned[s.returned.length]? = some (.next (.ok (some (.finished reason)))) →
    s.ends e = some reason ∧ (observe m protocol (.finished reason)).exec (s.recorder, s.store) =
      (.ok (), s'.recorder, s'.store)

variable {e : Event D F}

theorem Keeps.silent (hguarded : s'.Guarded) (hfailed : s.failed = true → s'.failed = true)
    (hreturned : s'.returned = s.returned) : Keeps m protocol s e s' where
  guarded := hguarded
  failed := hfailed
  ended _ _ h := by
    rw [hreturned, List.getElem?_eq_none (Nat.le_refl _)] at h
    cases h

theorem Keeps.returned {result : Returned D F} (hguarded : s'.Guarded)
    (hfailed : s.failed = true → s'.failed = true) (hreturned : s'.returned = s.returned ++ [result])
    (hresult : ∀ reason, result = .next (.ok (some (.finished reason))) → s.ends e = some reason ∧
      (observe m protocol (.finished reason)).exec (s.recorder, s.store) =
        (.ok (), s'.recorder, s'.store)) : Keeps m protocol s e s' where
  guarded := hguarded
  failed := hfailed
  ended reason _ h := by
    rw [hreturned, List.getElem?_append_right (Nat.le_refl _), Nat.sub_self] at h
    exact hresult reason (Option.some.inj h)

/-- A call that fails, which returns at once or cancels the run first. -/
theorem Keeps.fail {fault : RecordingFault} {result : Returned D F} {t : RecordedRun D F σ}
    (hguarded : t.Guarded) (hphase : t.inner.acp.phase ≠ .waiting) (hdoomed : t.inner.Doomed)
    (hsame : t.returned = s.returned ∧ (s.failed = true → t.failed = true))
    (hpanic : fault = .panic → result.isFailure = false)
    (hresult : ∀ reason, result ≠ .next (.ok (some (.finished reason)))) :
    Keeps m protocol s e (t.fail fault result) := by
  cases fault with
  | error f => exact .silent (hguarded.fail hphase hdoomed hpanic) (fun _ => rfl) hsame.1
  | panic =>
    refine .returned (hguarded.fail hphase hdoomed hpanic) hsame.2 ?_ fun reason h =>
      absurd h (hresult reason)
    rw [← hsame.1]
    rfl

/-! ### The events -/

/-- What `next` does with the result of the inner call. -/
theorem record_keeps {inner : Turn (SessionUpdate D F) (ToolCallUpdate F)}
    {result : Except AcpError (Option (RecordedEvent D F))} (h : s.Guarded)
    (hreturns : Turn.Returns s.inner inner result)
    (hlive : ∀ shown, result = .ok (some shown) → s.failed = false ∧ s.inner.Doomed)
    (hend : ∀ reason, result = .ok (some (.finished reason)) → s.ends e = some reason ∧
      ((observe m protocol (.finished reason)).exec (s.recorder, s.store)).1 = .ok ()) :
    Keeps m protocol s e ({ s with inner }.record m protocol text result) := by
  have hphase : inner.acp.phase ≠ .waiting := by
    rw [hreturns.idle]
    decide
  unfold record
  cases result with
  | error e =>
    have hretired := hreturns.error e rfl
    dsimp only
    rw [recording_eq]
    generalize (interrupt m (e.text text)).exec (s.recorder, s.store) = out
    obtain ⟨out, recorder, store⟩ := out
    have hlost : Guarded { s with inner, recorder, store, failed := true } :=
      h.lost hretired hphase fun _ => rfl
    cases out with
    | ok => exact .returned (hlost.return_ fun _ => rfl) (fun _ => rfl) rfl fun _ h => by cases h
    | error f => exact .returned (hlost.return_ fun _ => rfl) (fun _ => rfl) rfl fun _ h => by cases h
  | ok event =>
    cases event with
    | none =>
      have hnext := hreturns.doomed fun reason => by simp
      have hguarded := h.setInner (fun hwaiting => absurd hwaiting hphase) hnext
      exact .returned (hguarded.return_ fun hfailure => by cases hfailure) id rfl fun _ h => by cases h
    | some event =>
      obtain ⟨hfailed, hdoomed⟩ := hlive event rfl
      dsimp only
      rw [recording_eq]
      generalize hout : (observe m protocol event).exec (s.recorder, s.store) = out
      obtain ⟨out, recorder, store⟩ := out
      by_cases hended : ∃ reason, event = .finished reason
      · obtain ⟨reason, rfl⟩ := hended
        obtain ⟨hends, hok⟩ := hend reason rfl
        rw [hout] at hok
        rw [show out = .ok () from hok] at hout ⊢
        have hguarded : Guarded { s with inner, recorder, store } :=
          ⟨fun hwaiting => absurd hwaiting hphase,
            fun hfail => absurd (show s.failed = true from hfail) (by simp [hfailed]), h.cancels,
            h.reported, .inr ((observe_finished_quiet protocol reason).ok hout)⟩
        refine .returned (hguarded.return_ fun hfailure => (by cases hfailure)) id rfl fun shown h => ?_
        cases h
        exact ⟨hends, hout⟩
      · have hnext : inner.Doomed :=
          hreturns.doomed (fun reason hreason => hended ⟨reason, by simpa using hreason⟩) hdoomed
        have hguarded : Guarded { s with inner, recorder, store } :=
          ⟨fun hwaiting => absurd hwaiting hphase, fun _ => hnext, h.cancels, h.reported, .inl hnext⟩
        cases out with
        | ok =>
          refine .returned (hguarded.return_ fun hfailure => (by cases hfailure)) id rfl fun shown h => ?_
          cases h
          exact absurd ⟨shown, rfl⟩ hended
        | error f => exact .fail hguarded hphase hnext ⟨rfl, id⟩ (fun hpanic => by rw [hpanic]; rfl) fun _ h => by cases h

/-- A round of the agent's run that returned. -/
theorem proceed_returns {inner : Turn (SessionUpdate D F) (ToolCallUpdate F)}
    {result : Except AcpError (Option (RecordedEvent D F))}
    (h : Turn.Returns s.inner inner result) :
    s.proceed m protocol text inner = { s with inner }.record m protocol text result := by
  unfold proceed
  rw [h.returned, List.getElem?_append_right (Nat.le_refl _), Nat.sub_self]
  rfl

theorem proceed_waits {inner : Turn (SessionUpdate D F) (ToolCallUpdate F)}
    (h : inner.acp.returned = s.inner.acp.returned) :
    s.proceed m protocol text inner = { s with inner } := by
  unfold proceed
  rw [h, List.getElem?_eq_none (Nat.le_refl _)]

theorem whenIdle_eq {t : RecordedRun D F σ} (h : s.whenIdle t = some s') :
    s.inner.acp.phase ≠ .waiting ∧ s' = t := by
  unfold whenIdle at h
  split at h
  · split at h
    · next hphase =>
      rw [hphase]
      exact ⟨by decide, (Option.some.inj h).symm⟩
    · cases h
  · cases h

/-- A wait of `next` ends. -/
theorem proceed_keeps {inner : Turn (SessionUpdate D F) (ToolCallUpdate F)}
    {result : Except AcpError (Option (RecordedEvent D F))} (h : s.Guarded)
    (hphase : s.inner.acp.phase = .waiting) (hreturns : Turn.Returns s.inner inner result)
    (hend : ∀ reason, result = .ok (some (.finished reason)) → s.ends e = some reason ∧
      ((observe m protocol (.finished reason)).exec (s.recorder, s.store)).1 = .ok ()) :
    Keeps m protocol s e (s.proceed m protocol text inner) := by
  rw [proceed_returns hreturns]
  refine record_keeps h hreturns (fun _ _ => ?_) hend
  obtain ⟨hfailed, hsettled⟩ := h.waits hphase
  exact ⟨hfailed, Turn.doomed_of_phase .waiting hsettled hphase (by decide)⟩

theorem next_keeps (d : Drain) (h : s.Guarded) :
    Keeps m protocol s e (if s.failed then s.return_ (.next (.error (.error .closed)))
      else s.proceed m protocol text (s.inner.next d)) := by
  split
  · next hfailed => exact .returned (h.return_ fun _ => hfailed) id rfl fun _ h => by cases h
  · next hfailed =>
    cases Turn.next_cases d s.inner with
    | inl hreturned =>
      obtain ⟨result, hreturns, hshown⟩ := hreturned
      rw [proceed_returns hreturns]
      exact record_keeps h hreturns (fun shown hresult => absurd hresult (hshown shown))
        fun reason hresult => absurd hresult (hshown _)
    | inr hwaits =>
      obtain ⟨hsettled, heq⟩ := hwaits
      have hsame : (s.inner.next d).acp.returned = s.inner.acp.returned := by rw [heq]
      rw [proceed_waits hsame, heq]
      refine .silent (h.setInner (fun _ => ⟨by simpa using hfailed, hsettled⟩) fun _ => ?_) id rfl
      exact Turn.doomed_of_phase .waiting hsettled rfl (by decide)

theorem checkpoint_keeps (h : s.Guarded) (hphase : s.inner.acp.phase ≠ .waiting) :
    Keeps m protocol s e (s.doCheckpoint m) := by
  unfold doCheckpoint
  split
  · next hfailed => exact .returned (h.return_ fun _ => hfailed) id rfl fun _ h => by cases h
  · rw [recording_eq]
    generalize hout : (checkpoint m).exec (s.recorder, s.store) = out
    obtain ⟨out, recorder, store⟩ := out
    cases h.quiet with
    | inl hdoomed =>
      have hguarded : Guarded { s with recorder, store } :=
        ⟨h.waits, h.failing, h.cancels, h.reported, .inl hdoomed⟩
      cases out with
      | ok =>
        exact .returned (hguarded.return_ fun hfailure => by cases hfailure) id rfl fun _ h => by
          cases h
      | error f =>
        exact .fail hguarded hphase hdoomed ⟨rfl, id⟩ (fun hpanic => by rw [hpanic]; rfl) fun _ h => by
          cases h
    | inr hquiet =>
      -- nothing is left to be written, so that no call can fail
      have hrule := checkpoint_quiet (m := m) (x := (s.recorder, s.store)) hquiet
      cases out with
      | ok =>
        have hsame : recorder = s.recorder := congrArg Prod.fst (hrule.ok hout)
        have hguarded : Guarded { s with recorder, store } := h.setRecorder fun hquiet => by
          rwa [hsame]
        exact .returned (hguarded.return_ fun hfailure => by cases hfailure) id rfl fun _ h => by
          cases h
      | error f => exact (hrule.error hout).elim

theorem respond_keeps (id : PermissionId) (option : Option String) (h : s.Guarded) :
    Keeps m protocol s e (s.doRespond m id option) := by
  have hreturn {t : RecordedRun D F σ} (result : Except RecordingFault Unit) (ht : t.Guarded)
      (hfailed : s.failed = true → t.failed = true) (hsame : t.returned = s.returned) :
      Keeps m protocol s e (t.return_ (.respond result)) := by
    have hreturned : (t.return_ (.respond result)).returned = s.returned ++ [.respond result] := by
      rw [← hsame]
      rfl
    exact .returned (ht.return_ fun hfailure => by cases hfailure) hfailed hreturned fun _ h => by
      cases h
  have hnow (result : Except RecordingFault Unit) :
      Keeps m protocol s e (s.return_ (.respond result)) := hreturn result h (fun h => h) rfl
  unfold doRespond
  split
  · exact hnow _
  split
  · exact hnow _
  split
  · exact hnow _
  split
  · exact hnow _
  split
  · split
    · exact hnow _
    · rw [recording_eq]
      generalize hout : (permissionDispatch m _ option).exec (s.recorder, s.store) = out
      obtain ⟨out, recorder, store⟩ := out
      have hrule (request : RecordId) (hquiet : s.recorder.Quiet) :=
        evidence_quiet (m := m) (x := (s.recorder, s.store)) "permission_dispatch"
          (dispatchEvidence option) (some request) hquiet
      cases out with
      | ok =>
        have hguarded : Guarded { s with recorder, store } :=
          h.setRecorder fun hquiet => (hrule _ hquiet).ok hout
        refine .silent ⟨hguarded.waits, hguarded.failing, (fun _ hcall => by cases hcall),
          hguarded.reported, hguarded.quiet⟩ (fun hfailed => hfailed) rfl
      | error f =>
        exact hreturn _ (h.setRecorder fun hquiet => (hrule _ hquiet).error hout) (fun h => h) rfl
  · exact hnow _

theorem cancel_guarded (d : Drain) (notified : Except String Unit) (h : s.Guarded) :
    Guarded { s with inner := (s.inner.cancel d notified).2 } := by
  obtain ⟨-, hsettled, hphase⟩ := Turn.cancel_frame d notified s.inner
  refine h.setInner (fun hwaiting => ?_) (Turn.cancel_doomed d notified)
  rw [hsettled]
  exact h.waits (hphase.symm.trans hwaiting)

theorem drop_keeps (d : Drain) (notified : Except String Unit) (d' : Drain)
    (notified' : Except String Unit) (h : s.Guarded) :
    Keeps m protocol s e (s.doDrop m d notified d' notified') := by
  have hafter (t : RecordedRun D F σ) (ht : t.Guarded) :
      Guarded { t with inner := t.inner.drop d' notified' } := by
    refine ht.setInner (fun hwaiting => ?_) fun hdoomed => .inl (Turn.drop_doomed d' notified' hdoomed)
    cases (Turn.drop_phase d' notified' t.inner).symm.trans hwaiting
  unfold doDrop
  split
  · exact .silent (hafter s h) id rfl
  · next hopen =>
    rw [recording_eq]
    refine .silent (hafter _ ((cancel_guarded d notified h).setRecorder fun hquiet => ?_)) id rfl
    exact absurd hquiet.finished hopen

theorem sent_keeps {inner : Turn (SessionUpdate D F) (ToolCallUpdate F)} {d : Drain}
    {result : Except String Unit} (h : s.Guarded)
    (hstep : s.inner.step (.sent d result) = some inner) :
    Keeps m protocol s e ({ s with inner }.doSent m text result) := by
  obtain ⟨hphase, rfl⟩ := Turn.inPhase_eq hstep
  cases result with
  | ok =>
    refine .silent (h.setInner (fun hwaiting => by cases hwaiting) fun hdoomed => ?_) id rfl
    cases hdoomed with
    | inl hretired => exact .inl hretired
    | inr hlive => exact Turn.doomed_of_phase .idle hlive.1 rfl (by decide)
  | error e =>
    dsimp only [doSent]
    rw [recording_eq]
    exact .silent (h.lost rfl (fun hwaiting => by cases hwaiting) id) id rfl

/-- One event of a recorded run, when the agent's end can be recorded. -/
theorem step_keeps (h : s.Guarded) (hstep : s.step m protocol text e = some s')
    (hend : ∀ reason, s.ends e = some reason →
      ((observe m protocol (.finished reason)).exec (s.recorder, s.store)).1 = .ok ()) :
    Keeps m protocol s e s' := by
  cases e with
  | connection e =>
    rw [step] at hstep
    split at hstep
    · next hconnection =>
      obtain ⟨inner, hinner, rfl⟩ := Option.map_eq_some_iff.mp hstep
      obtain ⟨hsession, hsettled, hphase⟩ := Turn.connection_frame hconnection hinner
      refine .silent (h.setInner (fun hwaiting => ?_) fun hdoomed => ?_) id rfl
      · rw [hsettled]
        exact h.waits (hphase.symm.trans hwaiting)
      · exact hdoomed.congr (fun hretired => by rw [hsession, hretired]) hsettled hphase
    · cases hstep
  | sent d result =>
    obtain ⟨inner, hinner, rfl⟩ := Option.map_eq_some_iff.mp hstep
    exact sent_keeps h hinner
  | next d =>
    obtain ⟨-, rfl⟩ := whenIdle_eq hstep
    exact next_keeps d h
  | receive =>
    obtain ⟨inner, hinner, rfl⟩ := Option.map_eq_some_iff.mp hstep
    rw [Turn.step] at hinner
    split at hinner
    · next delivery htaken =>
      obtain ⟨hphase, rfl⟩ := Turn.inPhase_eq hinner
      refine proceed_keeps h hphase (Turn.receive_returns delivery s.inner) fun reason hresult => ?_
      have hends : s.ends .receive = some reason := by
        rw [ends, takes, htaken]
        exact Delivery.reason_of_result hresult
      exact ⟨hends, hend reason hends⟩
    · cases hinner
  | receiveClosed d =>
    obtain ⟨inner, hinner, rfl⟩ := Option.map_eq_some_iff.mp hstep
    rw [Turn.step] at hinner
    split at hinner
    · obtain ⟨hphase, rfl⟩ := Turn.inPhase_eq hinner
      refine proceed_keeps h hphase (Turn.receiveClosed_returns d s.inner) fun reason hresult => ?_
      have hends : s.ends (.receiveClosed d) = some reason := ends_of_closed hresult
      exact ⟨hends, hend reason hends⟩
    · cases hinner
  | abandon =>
    obtain ⟨inner, hinner, rfl⟩ := Option.map_eq_some_iff.mp hstep
    obtain ⟨hphase, rfl⟩ := Turn.inPhase_eq hinner
    refine .silent (h.setInner (fun hwaiting => by cases hwaiting) fun _ => ?_) id rfl
    exact Turn.doomed_of_phase .idle (h.waits hphase).2 rfl (by decide)
  | giveUp d notified =>
    rw [step] at hstep
    split at hstep
    · next result hcall =>
      obtain rfl := Option.some.inj hstep
      have hfailed := h.cancels result hcall
      refine ⟨(cancel_guarded d notified h).return_ fun _ => hfailed, id, fun _ hopen => ?_⟩
      cases hfailed.symm.trans hopen
    · cases hstep
  | checkpoint =>
    obtain ⟨hphase, rfl⟩ := whenIdle_eq hstep
    exact checkpoint_keeps h hphase
  | respond id option =>
    obtain ⟨-, rfl⟩ := whenIdle_eq hstep
    exact respond_keeps id option h
  | decide d sent =>
    rw [step] at hstep
    split at hstep
    · next id option hcall =>
      obtain rfl := Option.some.inj hstep
      have hguarded : Guarded { s with inner := s.inner.onRoute fun route =>
          (route.respond d id option sent).2 } :=
        h.setInner h.waits fun hdoomed => hdoomed.congr (fun hretired => hretired) rfl rfl
      exact .returned (hguarded.return_ fun hfailure => by cases hfailure) (fun hfailed => hfailed) rfl
        fun _ h => by cases h
    · cases hstep
  | cancel d notified =>
    obtain ⟨-, rfl⟩ := whenIdle_eq hstep
    exact .returned ((cancel_guarded d notified h).return_ fun hfailure => by cases hfailure) id rfl
      fun _ h => by cases h
  | drop d notified d' notified' =>
    obtain ⟨-, rfl⟩ := whenIdle_eq hstep
    exact drop_keeps d notified d' notified' h
  | release d =>
    obtain ⟨inner, hinner, rfl⟩ := Option.map_eq_some_iff.mp hstep
    obtain ⟨hphase, rfl⟩ := Turn.inPhase_eq hinner
    refine .silent (h.setInner (fun hwaiting => by cases hwaiting) fun hdoomed => ?_) id rfl
    cases hdoomed with
    | inl hretired => exact .inl hretired
    | inr hlive => exact absurd hphase hlive.2.1

end RecordedRun

end Acp

end AgentBridge
