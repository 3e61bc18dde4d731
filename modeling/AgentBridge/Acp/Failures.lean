import AgentBridge.Acp.Guarded
import AgentBridge.Acp.Starts
import AgentBridge.Records.Memory

/-!
# A recording failure retires the session

What a recorded run leaves when it is dropped decides whether its session can be used again.  The
end of the agent frees the session before that end is recorded, so that a failure in recording the
end, or in writing the receipt of the result, leaves a session that the next start is dispatched on.
-/

namespace AgentBridge

open Reasoning

namespace Acp

/-! ## Runs with a JSON result -/

namespace RecordedJsonRun

variable {D F σ V : Type} {m : StoreMachine σ} {protocol : Protocol D F} {text : Fault → String}
variable {library : ResultLibrary V} {s s' : RecordedJsonRun D F σ V} {e : RecordedRun.Event D F}

/-- The receipt of the result is written at once. -/
theorem settleResult_quiet (library : ResultLibrary V) (c : JsonContract V)
    (reason : Option StopReason) {x : Recorder D × σ} (h : x.1.Quiet) :
    Prog.wp (settleResult m library c reason) (fun _ t => t.1.Quiet) (fun _ t => t.1.Quiet) x := by
  unfold settleResult resultEvidence
  rw [Prog.wp_bind, wp_recorder, Prog.wp_bind]
  exact evidence_quiet _ _ _ h

/-- The invariant of such a run: when one of its calls failed, so did the recorded run in it. -/
structure Guarded (s : RecordedJsonRun D F σ V) : Prop where
  inner : s.inner.Guarded
  failed : s.failed = true → s.inner.failed = true
  reported : ∀ result ∈ s.returned, result.isFailure = true → s.inner.failed = true

theorem Guarded.return_ {result : Returned D F} (h : s.Guarded)
    (hresult : result.isFailure = true → s.inner.failed = true) : (s.return_ result).Guarded where
  inner := h.inner
  failed := h.failed
  reported r hr hfailure := by
    cases List.mem_append.mp hr with
    | inl hr => exact h.reported r hr hfailure
    | inr hr =>
      rw [List.mem_singleton.mp hr] at hfailure
      exact hresult hfailure

/-- The receipt, whether it is written or not. -/
theorem settle_guarded (library : ResultLibrary V) (reason : Option StopReason) (h : s.Guarded) :
    (s.settle m library reason).2.Guarded ∧
      (s.settle m library reason).2.inner.failed = s.inner.failed := by
  unfold settle
  rw [RecordedRun.recording_eq]
  generalize hout : (settleResult m library s.contract reason).exec
    (s.inner.recorder, s.inner.store) = out
  obtain ⟨out, recorder, store⟩ := out
  have hrule (hquiet : s.inner.recorder.Quiet) :=
    settleResult_quiet (m := m) library s.contract reason (x := (s.inner.recorder, s.inner.store))
      hquiet
  cases out with
  | ok result =>
    have hinner : RecordedRun.Guarded { s.inner with recorder, store } :=
      h.inner.setRecorder fun hquiet => (hrule hquiet).ok hout
    exact ⟨⟨hinner, h.failed, h.reported⟩, rfl⟩
  | error f =>
    have hinner : RecordedRun.Guarded { s.inner with recorder, store } :=
      h.inner.setRecorder fun hquiet => (hrule hquiet).error hout
    exact ⟨⟨hinner, h.failed, h.reported⟩, rfl⟩

/-- `next` goes on once the inner call has returned. -/
theorem settleNext_guarded {result : Except RecordingFault (Option (RecordedEvent D F))}
    (h : s.Guarded) (herror : ∀ e, result = .error (.error e) → s.inner.failed = true)
    (hend : ∀ reason, result = .ok (some (.finished reason)) → s.inner.failed = false →
      (s.settle m library (some reason)).1 = .ok ()) :
    (s.settleNext m library result).Guarded := by
  unfold settleNext
  split
  · exact h.return_ fun hfailure => by cases hfailure
  · next e =>
    have hfailed := herror e rfl
    have hguarded : Guarded { s with failed := true } := ⟨h.inner, fun _ => hfailed, h.reported⟩
    obtain ⟨hsettled, hsame⟩ := settle_guarded (m := m) library none hguarded
    split
    · next t heq =>
      rw [heq] at hsettled hsame
      exact hsettled.return_ fun _ => hsame.trans hfailed
    · next f t heq =>
      rw [heq] at hsettled hsame
      exact hsettled.return_ fun _ => hsame.trans hfailed
  · next reason =>
    split
    · exact h.return_ fun hfailure => by cases hfailure
    · obtain ⟨hsettled, hsame⟩ := settle_guarded (m := m) library (some reason) h
      split
      · next t heq =>
        rw [heq] at hsettled
        exact hsettled.return_ fun hfailure => by cases hfailure
      · next t heq =>
        rw [heq] at hsettled
        exact hsettled.return_ fun hfailure => by cases hfailure
      · next e t heq =>
        rw [heq] at hsettled hsame
        have hfailed : t.inner.failed = true := by
          by_contra hopen
          have hok := hend reason rfl (hsame.symm.trans (by simpa using hopen))
          rw [heq] at hok
          cases hok
        have hguarded : Guarded { t with failed := true } :=
          ⟨hsettled.inner, fun _ => hfailed, hsettled.reported⟩
        exact hguarded.return_ fun _ => hfailed
  · exact h.return_ fun hfailure => by cases hfailure

end RecordedJsonRun

/-! ## Every recorded run -/

section

variable {D F σ V : Type} (m : StoreMachine σ) (protocol : Protocol D F) (library : ResultLibrary V)

/-- What is recorded of the agent's end, with the receipt of the result if there is a contract. -/
def endRecords (contract : Option (JsonContract V)) (reason : StopReason) : Recording D σ Unit := do
  observe m protocol (.finished reason)
  match contract with
  | none => pure ()
  | some c =>
      let _ ← settleResult m library c (some reason)

end

namespace HostedRun

variable {D F σ V : Type} {m : StoreMachine σ} {protocol : Protocol D F} {text : Fault → String}
variable {library : ResultLibrary V} {s s' : HostedRun D F σ V} {e : RecordedRun.Event D F}

def contract : HostedRun D F σ V → Option (JsonContract V)
  | .plain _ => none
  | .json run => some run.contract

variable (m protocol library) in
/-- The store takes every write for the agent's end, if that is what the event has `next` show. -/
def recordsEnd (s : HostedRun D F σ V) (e : RecordedRun.Event D F) : Bool :=
  match s.recorded.ends e with
  | some reason => ((endRecords m protocol library s.contract reason).exec
      (s.recorded.recorder, s.recorded.store)).1.isOk
  | none => true

def Guarded : HostedRun D F σ V → Prop
  | .plain run => run.Guarded
  | .json run => run.Guarded

/-- A call of `next` or `checkpoint` returned an error. -/
def Failed (s : HostedRun D F σ V) : Prop := ∃ result ∈ s.returned, result.isFailure = true

theorem Guarded.setStore (store : σ) (h : s.Guarded) : (s.setStore store).Guarded := by
  cases s with
  | plain run => exact RecordedRun.Guarded.setRecorder h fun hquiet => hquiet
  | json run => exact ⟨h.inner.setRecorder fun hquiet => hquiet, h.failed, h.reported⟩

/-- A run that failed and is over has retired its session. -/
theorem Guarded.retired (h : s.Guarded) (hfailed : s.Failed) (hover : s.turn.acp.Over) :
    s.turn.session.retired = true := by
  obtain ⟨result, hresult, hfailure⟩ := hfailed
  cases s with
  | plain run => exact (h.failing (h.reported result hresult hfailure)).retired hover
  | json run => exact (h.inner.failing (h.reported result hresult hfailure)).retired hover

theorem dispatched_guarded (contract : Option (JsonContract V)) (closed : Bool) (wire : String)
    (r : Recorder D) (store : σ) :
    (dispatched contract closed wire r store : HostedRun D F σ V).Guarded := by
  have hinner := RecordedRun.dispatched_guarded (F := F) closed wire r store
  cases contract with
  | none => exact hinner
  | some c =>
    exact ⟨hinner, (fun h => by cases h), fun _ hresult => absurd hresult List.not_mem_nil⟩

/-- What the condition says of a step that shows the end. -/
theorem recordsEnd_spec (h : s.recordsEnd m protocol library e = true) {reason : StopReason}
    (hends : s.recorded.ends e = some reason) :
    ∃ recorder store, (observe m protocol (.finished reason)).exec
        (s.recorded.recorder, s.recorded.store) = (.ok (), recorder, store) ∧
      ∀ c, s.contract = some c →
        ((settleResult m library c (some reason)).exec (recorder, store)).1.isOk = true := by
  unfold recordsEnd at h
  rw [hends] at h
  obtain ⟨_, ⟨recorder, store⟩, hobserve, hrest⟩ := Prog.isOk_bind h
  refine ⟨recorder, store, hobserve, fun c hc => ?_⟩
  rw [hc] at hrest
  obtain ⟨a, t, hsettle, -⟩ := Prog.isOk_bind hrest
  rw [hsettle]
  rfl

theorem json_step_guarded {run run' : RecordedJsonRun D F σ V} (h : run.Guarded)
    (hstep : run.step m protocol text library e = some run')
    (hend : (HostedRun.json run).recordsEnd m protocol library e = true) : run'.Guarded := by
  rw [RecordedJsonRun.step] at hstep
  split at hstep
  · next hclosed =>
    rw [Bool.and_eq_true] at hclosed
    obtain ⟨inner, hinner, rfl⟩ := Option.map_eq_some_iff.mp hstep
    obtain ⟨-, rfl⟩ := RecordedRun.whenIdle_eq hinner
    exact h.return_ fun _ => h.failed hclosed.1
  · obtain ⟨inner, hinner, rfl⟩ := Option.map_eq_some_iff.mp hstep
    have hkeeps := RecordedRun.step_keeps h.inner hinner fun reason hends => by
      obtain ⟨recorder, store, hobserve, -⟩ := recordsEnd_spec hend hends
      exact congrArg Prod.fst hobserve
    have hguarded : RecordedJsonRun.Guarded { run with inner } :=
      ⟨hkeeps.guarded, fun hfailed => hkeeps.failed (h.failed hfailed),
        fun result hresult hfailure => hkeeps.failed (h.reported result hresult hfailure)⟩
    unfold RecordedJsonRun.proceed
    split
    · next result hreturned =>
      refine RecordedJsonRun.settleNext_guarded hguarded (fun e he => ?_) fun reason hreason hopen => ?_
      · rw [he] at hreturned
        exact hkeeps.guarded.reported _ (List.mem_of_getElem? hreturned) rfl
      · rw [hreason] at hreturned
        obtain ⟨hends, hobserve⟩ := hkeeps.ended reason hopen hreturned
        obtain ⟨recorder, store, hobserve', hsettle⟩ := recordsEnd_spec hend hends
        obtain ⟨rfl, rfl⟩ : inner.recorder = recorder ∧ inner.store = store := by
          simpa using hobserve.symm.trans hobserve'
        have hok := hsettle run.contract rfl
        unfold RecordedJsonRun.settle
        rw [RecordedRun.recording_eq]
        generalize (settleResult m library run.contract (some reason)).exec
          (inner.recorder, inner.store) = out at hok ⊢
        obtain ⟨out, t⟩ := out
        cases out with
        | ok => rfl
        | error f => cases hok
    · next result hnext hreturned =>
      exact hguarded.return_ fun hfailure =>
        hkeeps.guarded.reported result (List.mem_of_getElem? hreturned) hfailure
    · exact hguarded

theorem step_guarded (h : s.Guarded) (hstep : s.step m protocol text library e = some s')
    (hend : s.recordsEnd m protocol library e = true) : s'.Guarded := by
  cases s with
  | plain run =>
    obtain ⟨run', hrun, rfl⟩ := Option.map_eq_some_iff.mp hstep
    refine (RecordedRun.step_keeps h hrun fun reason hends => ?_).guarded
    obtain ⟨recorder, store, hobserve, -⟩ := recordsEnd_spec hend hends
    exact congrArg Prod.fst hobserve
  | json run =>
    obtain ⟨run', hrun, rfl⟩ := Option.map_eq_some_iff.mp hstep
    exact json_step_guarded h hrun hend

end HostedRun

/-! ## The session -/

/-- Nothing but the session is in the way of the start. -/
def StartCall.Proper {V : Type} (x : StartCall V) : Prop :=
  match x.kind with
  | .bare => isBlank x.wire = false ∧ ∃ config, x.config = .ok config
  | .recorded _ prompt _ => isBlank prompt = false ∧ x.before = .ok ()

namespace HostedSession

section

variable {D F σ V : Type} (m : StoreMachine σ) (text : Fault → String) (protocol : Protocol D F)
  (library : ResultLibrary V)

/-- No run is there, and no start dispatches one: it fails, with `sessionUnavailable` when it is not
for the call itself, and changes nothing. -/
def Refuses (s : HostedSession D F σ V) : Prop :=
  s.current = none ∧ ∀ x, ∃ e, s.start m text x = (.error (.error e), s) ∧
    (x.Proper → e = .agent .sessionUnavailable)

/-- Once a run that `next` or `checkpoint` returned an error of is dropped, the session refuses every
start, whatever happens later. -/
def FailuresRetire (s : HostedSession D F σ V) : Prop :=
  ∀ run, .hosted run ∈ s.past → run.Failed → ∀ later t,
    Next.run (step m text protocol library) later s = some t → t.Refuses m text

/-- The store takes every write for the end of a run, if the event has `next` show one. -/
def recordsEnd (s : HostedSession D F σ V) : Event D F σ V → Bool
  | .hosted e =>
      match s.current with
      | some (.hosted run) => run.recordsEnd m protocol library e
      | _ => true
  | _ => true

variable {m text protocol library} {s s' : HostedSession D F σ V}

/-! ### A session that is retired -/

theorem dispatchBlocks_retired {U T : Type} (session : NativeSession U T) (x : Dispatch)
    (h : session.flags.retired = true) : ∃ e, session.dispatchBlocks x = (.error e, session) ∧
      (isBlank x.text = false → e = .sessionUnavailable) := by
  unfold NativeSession.dispatchBlocks
  by_cases hblank : isBlank x.text = true
  · rw [if_pos hblank]
    refine ⟨.emptyPrompt, rfl, fun hnot => ?_⟩
    rw [hblank] at hnot
    cases hnot
  · rw [if_neg hblank, if_pos (by rw [h]; rfl)]
    exact ⟨.sessionUnavailable, rfl, fun _ => rfl⟩

theorem dispatch_retired {flags : SessionFlags} (x : Dispatch) (h : flags.retired = true) :
    ∃ e, dispatch x flags = .error e ∧ (isBlank x.text = false → e = .sessionUnavailable) := by
  obtain ⟨e, he, hkind⟩ :=
    dispatchBlocks_retired (⟨"", flags, [], true⟩ : NativeSession Unit Unit) x h
  refine ⟨e, ?_, hkind⟩
  unfold dispatch
  dsimp only
  rw [he]

theorem check_retired {flags : SessionFlags} (start : RecordedStart V) (closed : Bool)
    (prompt : String) (h : flags.retired = true) :
    ∃ e, start.check flags closed prompt = .error e ∧
      (isBlank prompt = false → e = .sessionUnavailable) := by
  have hother : ∃ e, (if isBlank prompt then Except.error .emptyPrompt
      else if flags.retired || !flags.quiescent then .error .sessionUnavailable
      else if closed then .error .closed
      else .ok ()) = (.error e : Except AcpError Unit) ∧
      (isBlank prompt = false → e = .sessionUnavailable) := by
    by_cases hblank : isBlank prompt = true
    · rw [if_pos hblank]
      refine ⟨.emptyPrompt, rfl, fun hnot => ?_⟩
      rw [hblank] at hnot
      cases hnot
    · rw [if_neg hblank, if_pos (by rw [h]; rfl)]
      exact ⟨.sessionUnavailable, rfl, fun _ => rfl⟩
  cases start with
  | child relation receipt =>
    refine ⟨.sessionUnavailable, ?_, fun _ => rfl⟩
    rw [RecordedStart.check, if_pos (by rw [h]; simp)]
  | plain report => exact hother
  | context receipt report => exact hother
  | json contract receipt => exact hother

variable (m text) in
/-- Every start finds that the session is retired, if nothing else is wrong before. -/
theorem start_retired (x : StartCall V) (h : s.flags.retired = true) :
    ∃ e, s.start m text x = (.error (.error e), s) ∧
      (x.Proper → e = .agent .sessionUnavailable) := by
  unfold start checked StartCall.Proper
  cases x.kind with
  | bare =>
    cases x.config with
    | error e => exact ⟨.agent e, rfl, fun hproper => by obtain ⟨-, config, hconfig⟩ := hproper; cases hconfig⟩
    | ok config =>
      obtain ⟨e, he, hkind⟩ := dispatch_retired ⟨{ x.spec with config }, x.wire, s.closed, x.reported⟩ h
      refine ⟨.agent e, ?_, fun hproper => congrArg _ (hkind hproper.1)⟩
      show s.startBare { x.spec with config } x = _
      unfold startBare
      rw [he]
  | recorded start prompt actors =>
    cases x.before with
    | error e => exact ⟨e, rfl, fun hproper => by cases hproper.2⟩
    | ok =>
      obtain ⟨e, he, hkind⟩ := check_retired start s.closed prompt h
      refine ⟨.agent e, ?_, fun hproper => congrArg _ (hkind hproper.1)⟩
      dsimp only
      rw [he]
      rfl

/-- Retired, with no run there: so it stays. -/
def Retired (s : HostedSession D F σ V) : Prop := s.flags.retired = true ∧ s.current = none

theorem Retired.refuses (h : s.Retired) : s.Refuses m text := ⟨h.2, fun x => start_retired m text x h.1⟩

theorem Retired.step {e : Event D F σ V} (h : s.Retired)
    (hstep : s.step m text protocol library e = some s') : s'.Retired := by
  obtain ⟨hretired, hnone⟩ := h
  cases e with
  | start x =>
    obtain ⟨e, he, -⟩ := start_retired m text x hretired
    rw [HostedSession.step, hnone] at hstep
    obtain rfl := Option.some.inj hstep
    rw [he]
    exact ⟨hretired, hnone⟩
  | close =>
    rw [HostedSession.step, hnone] at hstep
    obtain rfl := Option.some.inj hstep
    exact ⟨hretired, rfl⟩
  | others store =>
    obtain rfl := Option.some.inj hstep
    exact ⟨hretired, by rw [hnone]; rfl⟩
  | bare e =>
    rw [HostedSession.step, hnone] at hstep
    cases hstep
  | hosted e =>
    rw [HostedSession.step, hnone] at hstep
    cases hstep

/-! ### The invariant of a session -/

structure Guarded (s : HostedSession D F σ V) : Prop where
  current : ∀ run, s.current = some (.hosted run) → run.Guarded
  past : ∀ run, .hosted run ∈ s.past → run.Failed → s.Retired

theorem new_guarded (fresh : Bool) (store : σ) : (new fresh store : HostedSession D F σ V).Guarded :=
  ⟨(fun run h => by cases h), fun run h => absurd h List.not_mem_nil⟩

/-- While a run borrows the session, none of the earlier ones failed. -/
theorem Guarded.fresh (h : s.Guarded) {b : Borrower D F σ V} (hcurrent : s.current = some b)
    {run : HostedRun D F σ V} (hpast : .hosted run ∈ s.past) : ¬ run.Failed := by
  intro hfailed
  have hnone := (h.past run hpast hfailed).2
  rw [hcurrent] at hnone
  cases hnone

/-- What the run left when it is over. -/
theorem Guarded.lend {b b' : Borrower D F σ V} (h : s.Guarded) (hcurrent : s.current = some b)
    (hguarded : ∀ run, b' = .hosted run → run.Guarded) : (s.lend b').Guarded := by
  unfold HostedSession.lend
  dsimp only
  split
  · next hover =>
    refine ⟨(fun run hrun => by cases hrun), fun run hpast hfailed => ?_⟩
    cases List.mem_append.mp hpast with
    | inl hpast => exact absurd hfailed (h.fresh hcurrent hpast)
    | inr hpast =>
      obtain rfl := List.mem_singleton.mp hpast
      exact ⟨(hguarded run rfl).retired hfailed hover, rfl⟩
  · refine ⟨fun run hrun => hguarded run (Option.some.inj hrun), fun run hpast hfailed => ?_⟩
    exact absurd hfailed (h.fresh hcurrent hpast)

variable (m text) in
/-- A start lends the session to a new run, or leaves all but the store alone. -/
theorem start_current (x : StartCall V) (hnone : s.current = none) :
    (s.start m text x).2.past = s.past ∧
      ∀ run, (s.start m text x).2.current = some (.hosted run) → run.Guarded := by
  have hsame (store : σ) : ({ s with store } : HostedSession D F σ V).past = s.past ∧
      ∀ run, ({ s with store } : HostedSession D F σ V).current = some (.hosted run) →
        run.Guarded := by
    refine ⟨rfl, fun run hrun => ?_⟩
    rw [show s.current = some (.hosted run) from hrun] at hnone
    cases hnone
  unfold start
  split
  · exact hsame s.store
  · next spec _ =>
    split
    · unfold startBare
      split
      · exact hsame s.store
      · exact ⟨rfl, fun run hrun => by cases hrun⟩
    · unfold startRecorded
      split
      · exact hsame _
      · split
        · split
          · exact hsame _
          · exact hsame _
        · refine ⟨rfl, fun run hrun => ?_⟩
          cases hrun
          exact HostedRun.dispatched_guarded _ _ _ _ _

theorem start_guarded (x : StartCall V) (h : s.Guarded) (hnone : s.current = none) :
    (s.start m text x).2.Guarded := by
  obtain ⟨hpast, hcurrent⟩ := start_current m text x hnone
  refine ⟨hcurrent, fun run hrun hfailed => ?_⟩
  rw [hpast] at hrun
  have hretired := h.past run hrun hfailed
  obtain ⟨e, he, -⟩ := start_retired m text x hretired.1
  rwa [he]

/-- One event of a session, when the store takes the end of a run that comes then. -/
theorem step_guarded {e : Event D F σ V} (h : s.Guarded)
    (hstep : s.step m text protocol library e = some s')
    (hend : s.recordsEnd m protocol library e = true) : s'.Guarded := by
  cases e with
  | start x =>
    rw [step] at hstep
    split at hstep
    · next hnone =>
      obtain rfl := Option.some.inj hstep
      exact start_guarded x h (Option.isNone_iff_eq_none.mp hnone)
    · cases hstep
  | close =>
    rw [step] at hstep
    split at hstep
    · obtain rfl := Option.some.inj hstep
      exact ⟨h.current, h.past⟩
    · cases hstep
  | others store =>
    obtain rfl := Option.some.inj hstep
    refine ⟨fun run hrun => ?_, fun run hpast hfailed => ?_⟩
    · obtain ⟨b, hb, hset⟩ := Option.map_eq_some_iff.mp hrun
      cases b with
      | bare turn => cases hset
      | hosted run' =>
        cases hset
        exact (h.current run' hb).setStore store
    · obtain ⟨hretired, hnone⟩ := h.past run hpast hfailed
      exact ⟨hretired, by rw [hnone]; rfl⟩
  | bare e =>
    rw [step] at hstep
    split at hstep
    · next turn hcurrent =>
      obtain ⟨turn', -, rfl⟩ := Option.map_eq_some_iff.mp hstep
      exact h.lend hcurrent fun run hrun => by cases hrun
    · cases hstep
  | hosted e =>
    rw [step] at hstep
    split at hstep
    · next run hcurrent =>
      obtain ⟨run', hrun, rfl⟩ := Option.map_eq_some_iff.mp hstep
      refine h.lend hcurrent fun run'' hsame => ?_
      cases hsame
      refine HostedRun.step_guarded (h.current run hcurrent) hrun ?_
      unfold recordsEnd at hend
      rwa [hcurrent] at hend
    · cases hstep

/-- Over every run of a session in which the store takes what is written for the ends of its runs. -/
theorem recording_failures_retire (m : StoreMachine σ) (text : Fault → String)
    (protocol : Protocol D F) (library : ResultLibrary V) (fresh : Bool) (store : σ)
    (events : List (Event D F σ V)) (s : HostedSession D F σ V)
    (hrun : Next.run (step m text protocol library) events (new fresh store) = some s)
    (hends : Next.Each (step m text protocol library)
      (fun s e => s.recordsEnd m protocol library e = true) events (new fresh store)) :
    s.FailuresRetire m text protocol library := by
  have hguarded : s.Guarded := hends.invariant (fun _ _ _ h hend hstep => step_guarded h hstep hend)
    (new_guarded fresh store) hrun
  intro run hpast hfailed later t hlater
  refine Retired.refuses ?_
  exact Next.run_invariant (fun _ _ _ h hstep => h.step hstep) (hguarded.past run hpast hfailed) hlater

end

/-! A store that times out in a run, once before the agent's end and twice while it is recorded. -/

namespace Sample

/-- A store whose calls time out where the list says so. -/
def flaky {σ : Type} (m : StoreMachine σ) : StoreMachine (σ × List Bool) where
  exec c s :=
    match s.2 with
    | true :: rest => (.error (.error .storageTimedOut), s.1, rest)
    | rest => ((m.exec c s.1).1, (m.exec c s.1).2, rest.tail)

abbrev Store := MemoryStore.State × List Bool

def machine : StoreMachine Store := flaky MemoryStore.machine

def protocol : Protocol Unit Unit where
  new _ := ()
  update _ d := d
  setMeta _ d := d
  title _ := "Tool activity"
  status _ := .pending
  rawInput _ := none
  rawOutput _ := none
  value _ := .ok ⟨.obj [], rfl⟩
  fieldsTitle _ := none
  stopReason _ := ⟨.str "end_turn", rfl⟩

def storeText (_ : Fault) : String := "StorageTimedOut"

/-- A reader of texts. -/
def library : ResultLibrary String where
  read := .ok
  debug _ := "EndTurn"

def actors : RecordActors where
  user := ⟨"user", (rfl : false = false)⟩
  agent := ⟨"agent", (rfl : false = false)⟩
  host := ⟨"host", (rfl : false = false)⟩

def contract : JsonContract String where
  name := "answer"
  revision := "1"
  instructions := "Return one JSON string."
  maxValidationBytes := 1024
  check := none
  named := by decide
  revised := by decide
  instructed := by decide
  bounded := by decide

def starting (run : RunId) (start : RecordedStart String) : StartCall String where
  kind := .recorded start "go on" actors
  wire := "go on"
  spec := { Acp.Sample.spec with id := run }
  config := .ok .default
  before := .ok ()
  context := .ok ()
  prepared := .ok ()
  reported := .ok .default

def first : StartCall String := starting ⟨"run-1", (rfl : false = false)⟩ (.plain none)

def answering : StartCall String := starting ⟨"run-1", (rfl : false = false)⟩ (.json contract none)

def second : StartCall String := starting ⟨"run-2", (rfl : false = false)⟩ (.plain none)

def ending : List (RecordedRun.Event Unit Unit) :=
  [.sent Acp.Sample.inOrder (.ok ()),
    .connection (.complete Acp.Sample.inOrder (.ok .endTurn)), .next Acp.Sample.inOrder, .receive]

def dropping : List (RecordedRun.Event Unit Unit) :=
  [.drop Acp.Sample.inOrder (.ok ()) Acp.Sample.inOrder (.ok ()), .release Acp.Sample.inOrder]

def givingUp : RecordedRun.Event Unit Unit := .giveUp Acp.Sample.inOrder (.ok ())

def saying : List (RecordedRun.Event Unit Unit) :=
  [.sent Acp.Sample.inOrder (.ok ()),
    .connection (.update Acp.Sample.inOrder (.agentMessageChunk ⟨some "yes", none, .ok ⟨.null, rfl⟩⟩)),
    .next Acp.Sample.inOrder, .receive]

/-- The calls that the store takes before it times out once. -/
def start (taken : Nat) : HostedSession Unit Unit Store String :=
  .new true (.default, List.replicate taken false ++ [true])

def run (events : List (Event Unit Unit Store String)) (taken : Nat) :
    Option (HostedSession Unit Unit Store String) :=
  Next.run (step machine storeText protocol library) events (start taken)

/-- The record of the agent's end is not taken. -/
def unfinished : List (Event Unit Unit Store String) :=
  .start first :: (ending ++ givingUp :: dropping).map .hosted

/-- The receipt of the result is not taken. -/
def unvalidated : List (Event Unit Unit Store String) :=
  .start answering :: (ending ++ dropping).map .hosted

/-- A run that is recorded to its end, then one that fails in the middle. -/
def interrupted : List (Event Unit Unit Store String) :=
  .start answering :: (ending ++ dropping).map .hosted ++
    .start second :: (saying ++ givingUp :: dropping).map .hosted

def timedOut : Returned Unit Unit → Bool
  | .next (.error (.error (.store .storageTimedOut))) => true
  | _ => false

theorem timedOut_eq {result : Returned Unit Unit} (h : timedOut result = true) :
    result = .next (.error (.error (.store .storageTimedOut))) := by
  unfold timedOut at h
  split at h
  · rfl
  · cases h

/-- A run that returned the error is over. -/
def reports (s : HostedSession Unit Unit Store String) : Bool :=
  s.past.any fun
    | .bare _ => false
    | .hosted run => run.returned.any timedOut

theorem reports_spec {s : HostedSession Unit Unit Store String} (h : reports s = true) :
    ∃ run, .hosted run ∈ s.past ∧
      .next (.error (.error (.store .storageTimedOut))) ∈ run.returned := by
  obtain ⟨b, hb, hreports⟩ := List.any_eq_true.mp h
  cases b with
  | bare turn => cases hreports
  | hosted run =>
    obtain ⟨result, hresult, htimedOut⟩ := List.any_eq_true.mp hreports
    exact ⟨run, hb, timedOut_eq htimedOut ▸ hresult⟩

/-- A run reported the error, and the session that it left takes the next start. -/
structure Kept (s : HostedSession Unit Unit Store String) : Prop where
  reported : ∃ run, .hosted run ∈ s.past ∧
    .next (.error (.error (.store .storageTimedOut))) ∈ run.returned
  dispatched : (s.start machine storeText second).1 = .ok ()
  fails : ¬ s.FailuresRetire machine storeText protocol library

theorem kept {events : List (Event Unit Unit Store String)} {taken : Nat}
    (h : (run events taken).any (fun s => reports s && (s.start machine storeText second).1.isOk) =
      true) : ∃ s, run events taken = some s ∧ Kept s := by
  obtain ⟨s, hs, hboth⟩ := (Option.any_eq_true _ _).mp h
  rw [Bool.and_eq_true] at hboth
  have hdispatched : (s.start machine storeText second).1 = .ok () := by
    cases hstart : (s.start machine storeText second).1 with
    | ok => rfl
    | error f =>
      rw [hstart] at hboth
      cases hboth.2
  obtain ⟨run, hpast, hreturned⟩ := reports_spec hboth.1
  refine ⟨s, hs, ⟨run, hpast, hreturned⟩, hdispatched, fun hretire => ?_⟩
  obtain ⟨-, hrefused⟩ := hretire run hpast ⟨_, hreturned, rfl⟩ [] s rfl
  obtain ⟨e, he, -⟩ := hrefused second
  rw [he] at hdispatched
  cases hdispatched

end Sample

/-- A session outlives a run whose end was not recorded, and one whose result was not. -/
theorem unrecorded_ends_keep_the_session :
    (∃ s, Sample.run Sample.unfinished 5 = some s ∧ Sample.Kept s) ∧
      ∃ s, Sample.run Sample.unvalidated 7 = some s ∧ Sample.Kept s :=
  ⟨Sample.kept (by decide +kernel), Sample.kept (by decide +kernel)⟩

theorem interrupted_recording_retires :
    ∃ s, Sample.run Sample.interrupted 13 = some s ∧
      s.Refuses Sample.machine Sample.storeText := by
  have hsome : (Sample.run Sample.interrupted 13).isSome = true := by decide +kernel
  have hrun := Next.run_getD hsome (Sample.start 13)
  have hreports : Sample.reports ((Sample.run Sample.interrupted 13).getD (Sample.start 13)) = true := by
    decide +kernel
  obtain ⟨run, hpast, hreturned⟩ := Sample.reports_spec hreports
  refine ⟨_, hrun, ?_⟩
  exact recording_failures_retire Sample.machine Sample.storeText Sample.protocol Sample.library true _
    Sample.interrupted _ hrun (Next.Each.of_check (fun _ _ h => h) (by decide +kernel)) run hpast
    ⟨_, hreturned, rfl⟩ [] _ rfl

end HostedSession

end Acp

end AgentBridge
