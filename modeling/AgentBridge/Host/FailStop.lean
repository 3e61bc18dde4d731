import AgentBridge.Host.StorageSteps
import Mathlib.Data.List.Nodup

/-!
# Storage threads stop at the first failure

A writer starts its jobs in the order they were queued, each once, and answers a call only with what
its job returned.  After a failure it starts no further job and serves no further call.  Its thread
is counted by the budget until its work has ended, and no other writer of its path runs a job at the
same time.
-/

namespace AgentBridge

open Reasoning

namespace Host

namespace Storage

variable {α : Type} {s t : System α} {i k : Nat} {w : Worker α}

/-! ## Runs -/

theorem run_sound {es : List (Event α)} (h : s.Sound) (hrun : Next.run next es s = some t) :
    t.Sound :=
  Next.run_invariant (P := System.Sound) (fun _ _ _ h hnext => (next_follows h hnext).sound) h hrun

theorem run_limit {es : List (Event α)} (h : s.Sound) (hrun : Next.run next es s = some t) :
    t.limit = s.limit :=
  Next.run_relation (R := fun s t => t.limit = s.limit) (P := System.Sound) (fun _ => rfl)
    (fun {a b c} (hab : b.limit = a.limit) (hbc : c.limit = b.limit) => hbc.trans hab)
    (fun _ _ _ h hnext => (next_follows h hnext).sound)
    (fun _ _ _ h hnext => (next_follows h hnext).limit) h hrun

theorem run_later {es : List (Event α)} (h : s.Sound) (hrun : Next.run next es s = some t) :
    s.Later t :=
  Next.run_relation (R := System.Later) (P := System.Sound) .refl .trans
    (fun _ _ _ h hnext => (next_follows h hnext).sound)
    (fun _ _ _ h hnext => (next_follows h hnext).later) h hrun

/-! ## Calls on a writer that failed -/

/-- The call that an event is a step of. -/
def Event.stepOf : Event α → Option Nat
  | .call k _ => some k
  | .proceed k => some k
  | .timesOut k => some k
  | _ => none

/-- The call stands where it stood, with the same writer. -/
def System.SameCall (s t : System α) (k : Nat) : Prop :=
  (t.calls k).worker = (s.calls k).worker ∧ (t.calls k).phase = (s.calls k).phase

theorem System.SameCall.of_eq (h : t.calls = s.calls) (k : Nat) : s.SameCall t k := by
  unfold System.SameCall
  rw [h]
  exact ⟨rfl, rfl⟩

theorem setReply_sameCall (j : Nat) (reply : Reply (Answer α)) (k : Nat) :
    s.SameCall (s.setReply j reply) k := by
  by_cases hkj : k = j
  · subst hkj
    unfold System.SameCall System.setReply
    rw [System.setCall_calls_self]
    exact ⟨rfl, rfl⟩
  · unfold System.SameCall System.setReply
    rw [System.setCall_calls_of_ne hkj]
    exact ⟨rfl, rfl⟩

theorem dropJobs_sameCall (jobs : List Nat) (k : Nat) : s.SameCall (s.dropJobs jobs) k := by
  unfold System.SameCall System.dropJobs
  simp only
  split
  · exact ⟨rfl, rfl⟩
  · exact ⟨rfl, rfl⟩

theorem setPhase_sameCall {j : Nat} (hkj : k ≠ j) (phase : Phase α) :
    s.SameCall (s.setPhase j phase) k := by
  unfold System.SameCall System.setPhase
  rw [System.setCall_calls_of_ne hkj]
  exact ⟨rfl, rfl⟩

theorem reserve_sameCall (k : Nat) (h : reserve s = some t) : s.SameCall t k := by
  unfold reserve at h
  split at h
  · exact Option.some.inj h ▸ .of_eq rfl k
  · cases h

theorem enter_sameCall {entered failed : Thread α} (k : Nat)
    (hnext : enter s i w entered failed = some t) : s.SameCall t k := by
  unfold enter at hnext
  split at hnext
  · cases hnext
  · split at hnext
    · exact Option.some.inj hnext ▸ .of_eq rfl k
    · exact Option.some.inj hnext ▸ .of_eq rfl k

theorem advance_sameCall (k : Nat) (hnext : advance s i w = some t) : s.SameCall t k := by
  unfold advance at hnext
  cases hthread : w.thread with
  | spawned =>
    simp only [hthread] at hnext
    exact enter_sameCall k hnext
  | received job =>
    simp only [hthread] at hnext
    exact enter_sameCall k hnext
  | completed job answer =>
    simp only [hthread] at hnext
    obtain rfl := Option.some.inj hnext
    exact setReply_sameCall job (.sent answer) k
  | released =>
    simp only [hthread] at hnext
    obtain rfl := Option.some.inj hnext
    exact dropJobs_sameCall w.queue k
  | leaving discarded =>
    cases discarded with
    | some job =>
      simp only [hthread] at hnext
      obtain rfl := Option.some.inj hnext
      exact setReply_sameCall job .dropped k
    | none =>
      simp only [hthread] at hnext
      exact Option.some.inj hnext ▸ .of_eq rfl k
  | _ =>
    simp only [hthread] at hnext
    repeat' split at hnext
    all_goals first
      | exact Option.some.inj hnext ▸ .of_eq rfl k
      | cases hnext

theorem proceed_sameCall {j : Nat} {call : Call α} (hkj : k ≠ j)
    (hnext : proceed s j call w = some t) : s.SameCall t k := by
  have hphase := fun phase : Phase α => setPhase_sameCall (s := s) hkj phase
  unfold proceed at hnext
  split at hnext
  · split at hnext
    · exact Option.some.inj hnext ▸ hphase _
    · exact Option.some.inj hnext ▸ hphase _
  · obtain rfl := Option.some.inj hnext
    unfold trySend
    split
    · exact hphase _
    · split
      · exact hphase _
      · exact hphase _
  · split at hnext
    · exact Option.some.inj hnext ▸ hphase _
    · exact Option.some.inj hnext ▸ hphase _
    · cases hnext
  · exact Option.some.inj hnext ▸ hphase _
  · cases hnext

theorem writerGate_calls (s : System α) (path : String) :
    (writerGate s path).2.calls = s.calls := by
  unfold writerGate
  simp only
  split
  · rfl
  · rfl

theorem next_sameCall {e : Event α} (hk : e.stepOf ≠ some k) (hnext : next s e = some t) :
    s.SameCall t k := by
  cases e with
  | «open» path =>
    obtain rfl := Option.some.inj hnext
    exact .of_eq (writerGate_calls s path) k
  | advance i =>
    obtain ⟨w, -, hnext⟩ := Option.bind_eq_some_iff.mp hnext
    exact advance_sameCall k hnext
  | panics i =>
    obtain ⟨w, -, hnext⟩ := Option.bind_eq_some_iff.mp hnext
    unfold panics at hnext
    split at hnext
    · exact Option.some.inj hnext ▸ .of_eq rfl k
    · next job _ =>
      obtain rfl := Option.some.inj hnext
      exact setReply_sameCall job .dropped k
    · cases hnext
  | call j i =>
    obtain ⟨w, -, hnext⟩ := Option.bind_eq_some_iff.mp hnext
    have hkj : k ≠ j := fun h => hk (congrArg some h.symm)
    split at hnext
    · obtain rfl := Option.some.inj hnext
      unfold System.SameCall
      rw [System.setCall_calls_of_ne hkj]
      exact ⟨rfl, rfl⟩
    · cases hnext
  | proceed j =>
    obtain ⟨w, -, hnext⟩ := Option.bind_eq_some_iff.mp hnext
    exact proceed_sameCall (fun h => hk (congrArg some h.symm)) hnext
  | timesOut j =>
    simp only [next] at hnext
    split at hnext
    · obtain rfl := Option.some.inj hnext
      exact setPhase_sameCall (fun h => hk (congrArg some h.symm)) _
    · cases hnext
  | execute =>
    simp only [next] at hnext
    split at hnext
    · next s' hreserve =>
      obtain rfl := Option.some.inj hnext
      have hsame : s.SameCall s' k := reserve_sameCall k hreserve
      exact hsame
    · exact Option.some.inj hnext ▸ .of_eq rfl k
  | reserve i =>
    obtain ⟨w, -, hnext⟩ := Option.bind_eq_some_iff.mp hnext
    split at hnext
    · split at hnext
      · next s' hreserve =>
        obtain rfl := Option.some.inj hnext
        have hsame : s.SameCall s' k := reserve_sameCall k hreserve
        exact hsame
      · exact Option.some.inj hnext ▸ .of_eq rfl k
    · cases hnext
  | receiveReady i =>
    obtain ⟨w, -, hnext⟩ := Option.bind_eq_some_iff.mp hnext
    unfold receiveReady at hnext
    repeat' split at hnext
    all_goals first
      | exact Option.some.inj hnext ▸ .of_eq rfl k
      | cases hnext
  | _ =>
    obtain ⟨w, -, hnext⟩ := Option.bind_eq_some_iff.mp hnext
    repeat' split at hnext
    all_goals first
      | exact Option.some.inj hnext ▸ .of_eq rfl k
      | cases hnext

/-- Where a call can stand that was made after its writer had failed. -/
def Phase.isLate (w : Worker α) : Phase α → Prop
  | .called => True
  | .admitted => w.thread.hasEnded = true
  | .returned outcome => outcome = .refused .storageUnavailable
  | _ => False

def System.Late (s : System α) (k : Nat) : Prop :=
  ∃ w, s.workers[(s.calls k).worker]? = some w ∧ w.Broken ∧ (s.calls k).phase.isLate w

theorem System.Late.same (h : s.Late k) (hlater : s.Later t) (hsame : s.SameCall t k) : t.Late k := by
  obtain ⟨w, hw, hbroken, hlate⟩ := h
  obtain ⟨w', hw', hl⟩ := hlater _ w hw
  refine ⟨w', by rw [hsame.1]; exact hw', hl.broken hbroken, ?_⟩
  rw [hsame.2]
  cases hphase : (s.calls k).phase with
  | called => trivial
  | admitted =>
    rw [hphase] at hlate
    exact hl.ended hlate
  | returned outcome =>
    rw [hphase] at hlate
    exact hlate
  | _ =>
    rw [hphase] at hlate
    cases hlate

theorem System.Late.setPhase {phase : Phase α} (hw : s.workers[(s.calls k).worker]? = some w)
    (hbroken : w.Broken) (hphase : phase.isLate w) : (s.setPhase k phase).Late k := by
  unfold System.Late System.setPhase
  rw [System.setCall_calls_self]
  exact ⟨w, hw, hbroken, hphase⟩

/-- A late call is refused. -/
theorem proceed_late (h : s.Late k) (hw : s.workers[(s.calls k).worker]? = some w)
    (hnext : proceed s k (s.calls k) w = some t) : t.Late k := by
  obtain ⟨w', hw', hbroken, hlate⟩ := h
  obtain rfl : w' = w := Option.some.inj (hw'.symm.trans hw)
  unfold proceed at hnext
  cases hphase : (s.calls k).phase with
  | called =>
    simp only [hphase] at hnext
    split at hnext
    · obtain rfl := Option.some.inj hnext
      exact .setPhase hw hbroken rfl
    · next hfailed =>
      obtain rfl := Option.some.inj hnext
      -- the handle has not failed, so the thread itself is gone
      rcases hbroken with hfailed' | hended
      · exact absurd hfailed' hfailed
      · exact .setPhase hw (.inr hended) hended
  | admitted =>
    simp only [hphase] at hnext
    rw [hphase] at hlate
    have hended : w'.thread.hasEnded = true := hlate
    obtain rfl := Option.some.inj hnext
    unfold trySend
    rw [if_pos hended]
    exact .setPhase hw hbroken rfl
  | waiting =>
    rw [hphase] at hlate
    cases hlate
  | failing e =>
    rw [hphase] at hlate
    cases hlate
  | _ =>
    simp only [hphase] at hnext
    cases hnext

theorem next_late {e : Event α} (hs : s.Sound) (h : s.Late k) (hnext : next s e = some t) :
    t.Late k := by
  have hlater := (next_follows hs hnext).later
  by_cases hk : e.stepOf = some k
  · have hlate := h
    obtain ⟨w, hw, hbroken, hphase⟩ := hlate
    cases e with
    | call j i =>
      obtain rfl := Option.some.inj hk
      obtain ⟨v, -, hnext⟩ := Option.bind_eq_some_iff.mp hnext
      split at hnext
      · next hidle =>
        rw [hidle] at hphase
        cases hphase
      · cases hnext
    | proceed j =>
      obtain rfl := Option.some.inj hk
      obtain ⟨v, hv, hnext⟩ := Option.bind_eq_some_iff.mp hnext
      exact proceed_late h hv hnext
    | timesOut j =>
      obtain rfl := Option.some.inj hk
      simp only [next] at hnext
      split at hnext
      · next hwaiting _ =>
        rw [hwaiting] at hphase
        cases hphase
      · cases hnext
    | _ => cases hk
  · exact h.same hlater (next_sameCall hk hnext)

/-- A call that has not begun stays so or is made. -/
theorem next_idle {e : Event α} (hidle : (s.calls k).phase = .idle) (hnext : next s e = some t) :
    (t.calls k).phase = .idle ∨ (t.calls k).phase = .called := by
  by_cases hk : e.stepOf = some k
  · cases e with
    | call j i =>
      obtain rfl := Option.some.inj hk
      obtain ⟨v, -, hnext⟩ := Option.bind_eq_some_iff.mp hnext
      split at hnext
      · obtain rfl := Option.some.inj hnext
        rw [System.setCall_calls_self]
        exact .inr rfl
      · cases hnext
    | proceed j =>
      obtain rfl := Option.some.inj hk
      obtain ⟨v, hv, hnext⟩ := Option.bind_eq_some_iff.mp hnext
      simp only [proceed, hidle] at hnext
      cases hnext
    | timesOut j =>
      obtain rfl := Option.some.inj hk
      simp only [next, hidle] at hnext
      cases hnext
    | _ => cases hk
  · rw [(next_sameCall hk hnext).2, hidle]
    exact .inl rfl

theorem proceed_worker {call : Call α} (hnext : proceed s k call w = some t) :
    (t.calls k).worker = (s.calls k).worker ∧ (t.calls k).phase ≠ .idle := by
  have hphase : ∀ phase : Phase α, phase ≠ .idle →
      ((s.setPhase k phase).calls k).worker = (s.calls k).worker ∧
        ((s.setPhase k phase).calls k).phase ≠ .idle := by
    intro phase hne
    unfold System.setPhase
    rw [System.setCall_calls_self]
    exact ⟨rfl, hne⟩
  unfold proceed at hnext
  split at hnext
  · split at hnext
    · exact Option.some.inj hnext ▸ hphase _ (by simp)
    · exact Option.some.inj hnext ▸ hphase _ (by simp)
  · obtain rfl := Option.some.inj hnext
    unfold trySend
    split
    · exact hphase _ (by simp)
    · split
      · exact hphase _ (by simp)
      · exact hphase .waiting (by simp)
  · split at hnext
    · exact Option.some.inj hnext ▸ hphase _ (by simp)
    · exact Option.some.inj hnext ▸ hphase _ (by simp)
    · cases hnext
  · next e _ => exact Option.some.inj hnext ▸ hphase (.returned (.gaveUp e)) (by simp)
  · cases hnext

/-- A call that has begun keeps its writer. -/
theorem next_worker {e : Event α} (hbegun : (s.calls k).phase ≠ .idle)
    (hnext : next s e = some t) :
    (t.calls k).worker = (s.calls k).worker ∧ (t.calls k).phase ≠ .idle := by
  by_cases hk : e.stepOf = some k
  · cases e with
    | call j i =>
      obtain rfl := Option.some.inj hk
      obtain ⟨v, -, hnext⟩ := Option.bind_eq_some_iff.mp hnext
      split at hnext
      · next hidle => exact absurd hidle hbegun
      · cases hnext
    | proceed j =>
      obtain rfl := Option.some.inj hk
      obtain ⟨v, hv, hnext⟩ := Option.bind_eq_some_iff.mp hnext
      exact proceed_worker hnext
    | timesOut j =>
      obtain rfl := Option.some.inj hk
      simp only [next] at hnext
      split at hnext
      · obtain rfl := Option.some.inj hnext
        unfold System.setPhase
        rw [System.setCall_calls_self]
        exact ⟨rfl, by simp⟩
      · cases hnext
    | _ => cases hk
  · have hsame := next_sameCall hk hnext
    exact ⟨hsame.1, by rw [hsame.2]; exact hbegun⟩

/-- The calls made since the writer failed. -/
theorem run_late {es : List (Event α)} (hs : s.Sound) (hw : s.workers[i]? = some w)
    (hbroken : w.Broken) (hidle : (s.calls k).phase = .idle) (hrun : Next.run next es s = some t)
    (hworker : (t.calls k).worker = i) (hmade : (t.calls k).phase ≠ .idle) : t.Late k := by
  have hinv : t.Sound ∧ s.Later t ∧ ((t.calls k).phase = .idle ∨
      (t.calls k).phase ≠ .idle ∧ ((t.calls k).worker = i → t.Late k)) := by
    apply Next.run_invariant (P := fun t => t.Sound ∧ s.Later t ∧ ((t.calls k).phase = .idle ∨
      (t.calls k).phase ≠ .idle ∧ ((t.calls k).worker = i → t.Late k))) _
      ⟨hs, .refl s, .inl hidle⟩ hrun
    rintro a e b ⟨ha, hsa, hstate⟩ hnext
    have hfollows := next_follows ha hnext
    have hsb := hsa.trans hfollows.later
    refine ⟨hfollows.sound, hsb, ?_⟩
    rcases hstate with hstill | ⟨hbegun, hlate⟩
    · rcases next_idle hstill hnext with hidle' | hcalled
      · exact .inl hidle'
      · right
        refine ⟨by rw [hcalled]; simp, ?_⟩
        intro hi
        obtain ⟨w', hw', hl⟩ := hsb i w hw
        exact ⟨w', hi ▸ hw', hl.broken hbroken, by rw [hcalled]; trivial⟩
    · obtain ⟨hsame, hbegun'⟩ := next_worker hbegun hnext
      exact .inr ⟨hbegun', fun hi => next_late ha (hlate (hsame.symm.trans hi)) hnext⟩
  rcases hinv.2.2 with hstill | ⟨-, hlate⟩
  · exact absurd hstill hmade
  · exact hlate hworker

theorem next_returned {e : Event α} {outcome : Outcome α}
    (hreturned : (s.calls k).phase = .returned outcome) (hnext : next s e = some t) :
    (t.calls k).phase = .returned outcome := by
  by_cases hk : e.stepOf = some k
  · cases e with
    | call j i =>
      obtain rfl := Option.some.inj hk
      obtain ⟨v, -, hnext⟩ := Option.bind_eq_some_iff.mp hnext
      split at hnext
      · next hidle =>
        rw [hidle] at hreturned
        cases hreturned
      · cases hnext
    | proceed j =>
      obtain rfl := Option.some.inj hk
      obtain ⟨v, hv, hnext⟩ := Option.bind_eq_some_iff.mp hnext
      simp only [proceed, hreturned] at hnext
      cases hnext
    | timesOut j =>
      obtain rfl := Option.some.inj hk
      simp only [next, hreturned] at hnext
      cases hnext
    | _ => cases hk
  · rw [(next_sameCall hk hnext).2]
    exact hreturned

/-! ## What a call leaves behind -/

/-- The job of the call completed, and what it did was committed. -/
def System.Stored (s : System α) (k : Nat) : Prop :=
  ∃ answer a, s.Completed k answer ∧ answer.result = .ok a

/-- The job of the call has started. -/
def System.Started (s : System α) (k : Nat) : Prop :=
  ∃ (i : Nat) (w : Worker α), s.workers[i]? = some w ∧ k ∈ w.started

/-- What the job of the call did may be there, now or later: the job has started, and has not
completed with an error. -/
def System.MayBeStored (s : System α) (k : Nat) : Prop :=
  s.Started k ∧ ¬∃ answer e, s.Completed k answer ∧ answer.result = .error e

/-- The call has returned, and what its job would have done is not there. -/
def System.Void (s : System α) (k : Nat) : Prop :=
  (∃ e, (s.calls k).phase = .returned (.refused e)) ∨
    ∃ answer e, s.Completed k answer ∧ answer.result = .error e

/-- The call has returned an error. -/
def System.HasFailed (s : System α) (k : Nat) : Prop :=
  ∃ outcome e, (s.calls k).phase = .returned outcome ∧ outcome.result = .error e

theorem System.Sound.unsent (h : s.Sound) (hsent : (s.calls k).phase.isSent = false) :
    ¬s.Started k := by
  rintro ⟨i, w, hw, hstarted⟩
  have hqueued := (h.workers i w hw).started.subset hstarted
  have hphase := (h.sent i w hw k hqueued).2
  rw [hsent] at hphase
  cases hphase

/-- A job completes once. -/
theorem System.Sound.completed_unique (hs : s.Sound) {answer answer' : Answer α}
    (h : s.Completed k answer) (h' : s.Completed k answer') : answer = answer' := by
  obtain ⟨w, hw, hmem⟩ := h
  obtain ⟨w', hw', hmem'⟩ := h'
  obtain rfl : w = w' := Option.some.inj (hw.symm.trans hw')
  have heq := List.inj_on_of_nodup_map (hs.workers _ w hw).once hmem hmem' rfl
  exact (Prod.mk.inj heq).2

theorem System.Stored.mayBeStored (hs : s.Sound) (h : s.Stored k) : s.MayBeStored k := by
  obtain ⟨answer, a, hcompleted, hresult⟩ := h
  constructor
  · obtain ⟨w, hw, hmem⟩ := hcompleted
    have hworker := hs.workers _ w hw
    refine ⟨_, w, hw, ?_⟩
    rw [hworker.ended]
    exact List.mem_append_left _ (hworker.completed _ hmem)
  · rintro ⟨answer', e, hcompleted', hresult'⟩
    rw [hs.completed_unique hcompleted hcompleted', hresult'] at hresult
    cases hresult

theorem System.Void.not_mayBeStored (hs : s.Sound) (h : s.Void k) : ¬s.MayBeStored k := by
  rintro ⟨hstarted, hfailed⟩
  rcases h with ⟨e, hrefused⟩ | hrejected
  · exact hs.unsent (by rw [hrefused]; rfl) hstarted
  · exact hfailed hrejected

theorem System.Late.not_mayBeStored (hs : s.Sound) (h : s.Late k) : ¬s.MayBeStored k := by
  rintro ⟨hstarted, -⟩
  obtain ⟨w, -, -, hlate⟩ := h
  apply hs.unsent _ hstarted
  cases hphase : (s.calls k).phase with
  | called => rfl
  | admitted => rfl
  | returned outcome =>
    rw [hphase] at hlate
    have houtcome : outcome = .refused .storageUnavailable := hlate
    rw [houtcome]
    rfl
  | _ =>
    rw [hphase] at hlate
    cases hlate

/-- A call that failed left nothing, or its writer serves no call any more. -/
theorem System.HasFailed.void_or_broken (hs : s.Sound) (h : s.HasFailed k) :
    s.Void k ∨ s.IsBroken k := by
  obtain ⟨outcome, e, hreturned, hresult⟩ := h
  cases outcome with
  | answered answer => exact .inl (.inr ⟨answer, e, (hs.calls k).answered answer hreturned, hresult⟩)
  | refused error => exact .inl (.inl ⟨error, hreturned⟩)
  | gaveUp error => exact .inr ((hs.calls k).final _ hreturned rfl)

/-- A call that returned a value. -/
theorem System.Sound.stored (hs : s.Sound) {outcome : Outcome α} {a : α}
    (hreturned : (s.calls k).phase = .returned outcome) (hresult : outcome.result = .ok a) :
    s.Stored k := by
  cases outcome with
  | answered answer => exact ⟨answer, a, (hs.calls k).answered answer hreturned, hresult⟩
  | refused error => cases hresult
  | gaveUp error => cases hresult

/-- What no step takes back of the calls that have begun. -/
structure System.Onward (s t : System α) : Prop where
  later : s.Later t
  begun : ∀ k, (s.calls k).phase ≠ .idle →
    (t.calls k).worker = (s.calls k).worker ∧ (t.calls k).phase ≠ .idle
  returned : ∀ k outcome, (s.calls k).phase = .returned outcome →
    (t.calls k).phase = .returned outcome
  late : ∀ k, s.Late k → t.Late k

theorem next_onward {e : Event α} (hs : s.Sound) (hnext : next s e = some t) : s.Onward t where
  later := (next_follows hs hnext).later
  begun := fun _ hbegun => next_worker hbegun hnext
  returned := fun _ _ hreturned => next_returned hreturned hnext
  late := fun _ hlate => next_late hs hlate hnext

theorem System.Onward.refl (s : System α) : s.Onward s :=
  ⟨.refl s, fun _ h => ⟨rfl, h⟩, fun _ _ h => h, fun _ h => h⟩

section Onward

variable (h : s.Onward t) (hbegun : (s.calls k).phase ≠ .idle)

include h hbegun

theorem System.Onward.completed {answer : Answer α} (hc : s.Completed k answer) :
    t.Completed k answer := hc.later h.later (h.begun k hbegun).1

theorem System.Onward.stored (hc : s.Stored k) : t.Stored k := by
  obtain ⟨answer, a, hcompleted, hresult⟩ := hc
  exact ⟨answer, a, h.completed hbegun hcompleted, hresult⟩

theorem System.Onward.void (hv : s.Void k) : t.Void k := by
  rcases hv with ⟨e, hrefused⟩ | ⟨answer, e, hcompleted, hresult⟩
  · exact .inl ⟨e, h.returned k _ hrefused⟩
  · exact .inr ⟨answer, e, h.completed hbegun hcompleted, hresult⟩

end Onward

theorem System.Onward.hasFailed (h : s.Onward t) (hf : s.HasFailed k) : t.HasFailed k := by
  obtain ⟨outcome, e, hreturned, hresult⟩ := hf
  exact ⟨outcome, e, h.returned k _ hreturned, hresult⟩

/-- A call made on a writer that serves no call any more. -/
theorem call_late {w : Worker α} (hw : s.workers[i]? = some w) (hbroken : w.Broken)
    (hnext : next s (.call k i) = some t) : t.Late k := by
  obtain ⟨v, hv, hnext⟩ := Option.bind_eq_some_iff.mp hnext
  split at hnext
  · obtain rfl := Option.some.inj hnext
    unfold System.Late
    rw [System.setCall_calls_self]
    exact ⟨w, hw, hbroken, trivial⟩
  · cases hnext

theorem call_begun (hnext : next s (.call k i) = some t) :
    (s.calls k).phase = .idle ∧ (t.calls k).phase = .called ∧ (t.calls k).worker = i := by
  obtain ⟨v, hv, hnext⟩ := Option.bind_eq_some_iff.mp hnext
  split at hnext
  · next hidle =>
    obtain rfl := Option.some.inj hnext
    rw [System.setCall_calls_self]
    exact ⟨hidle, rfl, rfl⟩
  · cases hnext

/-! ## The rules of a budget -/

/-- What holds of the storage threads in a state `s` and in every later state `t`. -/
structure FailStop (limit : Nat) (s t : System α) : Prop where
  /-- The jobs of a writer start in the order they were queued, each once, and each after all
  earlier ones have ended. -/
  inOrder : ∀ (i : Nat) (w : Worker α), t.workers[i]? = some w →
    w.started <+: w.queued ∧ w.queued.Nodup ∧ w.started = w.ended ++ w.thread.current
  /-- What a call returns of its job is what the job answered when it completed. -/
  answered : ∀ k answer, (t.calls k).phase = .returned (.answered answer) →
    ∃ w, t.workers[(t.calls k).worker]? = some w ∧ (k, answer) ∈ w.completed ∧ k ∈ w.ended
  /-- Once `failed` is set only the job that is past the stop check starts. -/
  stopped : ∀ (i : Nat) (w : Worker α), s.workers[i]? = some w → w.failed = true →
    ∃ w', t.workers[i]? = some w' ∧ w'.failed = true ∧
      w'.started <+: w.started ++ w.thread.cleared
  /-- After one call that timed out or found its storage unavailable, every call made on the same
  handle finds it unavailable. -/
  refused : ∀ k outcome, (s.calls k).phase = .returned outcome →
    outcome.result = .error .storageTimedOut ∨ outcome.result = .error .storageUnavailable →
    ∀ k' outcome', (s.calls k').phase = .idle → (t.calls k').worker = (s.calls k).worker →
      (t.calls k').phase = .returned outcome' → outcome'.result = .error .storageUnavailable
  /-- Every thread whose work goes on has a permit, and there are no more than the limit. -/
  budget : t.active = t.permits ∧ t.active ≤ limit ∧
    t.workers.countP (·.thread.isLive) + t.readers.countP (·.thread.isLive) ≤ t.active
  /-- Jobs of one path run one at a time. -/
  apart : ∀ (i j : Nat) (v w : Worker α), t.workers[i]? = some v → t.workers[j]? = some w →
    v.path = w.path → v.thread.current ≠ [] → w.thread.current ≠ [] → i = j

/-- An error of the thread itself leaves its writer broken. -/
theorem System.Sound.broken (h : s.Sound) {outcome : Outcome α}
    (hreturned : (s.calls k).phase = .returned outcome)
    (hresult : outcome.result = .error .storageTimedOut ∨
      outcome.result = .error .storageUnavailable) : s.IsBroken k := by
  cases outcome with
  | answered answer =>
    rcases hresult with hresult | hresult
    · have hown := answer.own _ hresult
      cases hown
    · have hown := answer.own _ hresult
      cases hown
  | refused e =>
    apply (h.calls k).final (.refused e) hreturned
    rcases hresult with hresult | hresult
    · obtain rfl := Except.error.inj hresult
      rfl
    · obtain rfl := Except.error.inj hresult
      rfl
  | gaveUp e => exact (h.calls k).final (.gaveUp e) hreturned rfl

theorem System.Sound.live_le (h : s.Sound) :
    s.workers.countP (·.thread.isLive) + s.readers.countP (·.thread.isLive) ≤ s.active := by
  have hworkers : s.workers.countP (·.thread.isLive) ≤ s.workers.countP (·.thread.hasPermit) :=
    List.countP_mono_left fun _ _ hlive => Thread.hasPermit_of_isLive hlive
  have hreaders : s.readers.countP (·.thread.isLive) ≤ s.readers.countP (·.thread.hasPermit) :=
    List.countP_mono_left fun _ _ hlive => ReadThread.hasPermit_of_isLive hlive
  have hactive := h.active
  unfold System.permits at hactive
  omega

theorem Thread.gate_of_current {thread : Thread α} (h : thread.current ≠ []) :
    thread.holdsGate = true ∧ thread.keepsGate = true := by
  cases thread with
  | running job => exact ⟨rfl, rfl⟩
  | _ => exact absurd rfl h

/-- The gate of a path has one holder. -/
theorem System.Sound.apart (h : s.Sound) {j : Nat} {v w : Worker α}
    (hv : s.workers[i]? = some v) (hw : s.workers[j]? = some w) (hpath : v.path = w.path)
    (hrunV : v.thread.current ≠ []) (hrunW : w.thread.current ≠ []) : i = j := by
  obtain ⟨hholdsV, hkeepsV⟩ := Thread.gate_of_current hrunV
  obtain ⟨hholdsW, hkeepsW⟩ := Thread.gate_of_current hrunW
  have hgateV := h.kept i v hv hkeepsV
  have hgateW := h.kept j w hw hkeepsW
  rw [hpath, hgateW] at hgateV
  have hgate : w.gate = v.gate := Option.some.inj hgateV
  have hi := h.gates i v hv hholdsV
  have hj := h.gates j w hw hholdsW
  rw [hgate, hi] at hj
  exact Option.some.inj hj

/-- For every interleaving of openers, callers, timeouts, panics and storage threads. -/
theorem storage_worker_is_fail_stop {limit : Nat} {before after : List (Event α)} {s t : System α}
    (hs : Next.run next before (System.start limit) = some s)
    (ht : Next.run next after s = some t) : FailStop limit s t := by
  have hsound := run_sound (System.start_sound limit) hs
  have hsoundT := run_sound hsound ht
  have hlater := run_later hsound ht
  exact {
    inOrder := by
      intro i w hw
      have hworker := hsoundT.workers i w hw
      exact ⟨hworker.started, hworker.nodup, hworker.ended⟩
    answered := by
      intro k answer hreturned
      obtain ⟨w, hw, hmem⟩ := (hsoundT.calls k).answered answer hreturned
      exact ⟨w, hw, hmem, (hsoundT.workers _ w hw).completed _ hmem⟩
    stopped := by
      intro i w hw hfailed
      obtain ⟨w', hw', hl⟩ := hlater i w hw
      exact ⟨w', hw', hl.failed hfailed, (List.prefix_append _ _).trans (hl.stopped hfailed)⟩
    refused := by
      intro k outcome hreturned hresult k' outcome' hidle hworker hreturned'
      obtain ⟨w, hw, hbroken⟩ := hsound.broken hreturned hresult
      have hmade : (t.calls k').phase ≠ .idle := by
        rw [hreturned']
        simp
      obtain ⟨w', -, -, hlate⟩ := run_late hsound hw hbroken hidle ht hworker hmade
      rw [hreturned'] at hlate
      have houtcome : outcome' = .refused .storageUnavailable := hlate
      rw [houtcome]
      rfl
    budget := by
      have hlimit : t.limit = limit :=
        (run_limit hsound ht).trans (run_limit (System.start_sound limit) hs)
      exact ⟨hsoundT.active, hlimit ▸ hsoundT.bound, hsoundT.live_le⟩
    apart := fun i j v w hv hw hpath hrunV hrunW => hsoundT.apart hv hw hpath hrunV hrunW }

namespace Sample

/-- A writer is opened, and its first call stops waiting while the job is still queued. -/
def timedOut : List (Event Unit) :=
  [.open "bridge.db", .reserve 0, .spawn 0 true, .advance 0, .advance 0, .created 0 (.ok ()),
    .advance 0, .receiveReady 0, .call 0 0, .proceed 0, .proceed 0, .advance 0, .timesOut 0,
    .proceed 0]

/-- The thread drops the job and ends, and a second call is made. -/
def refused : List (Event Unit) :=
  [.advance 0, .advance 0, .advance 0, .advance 0, .advance 0, .call 1 0, .proceed 1]

end Sample

theorem second_call_is_refused : ∃ s t : System Unit,
    Next.run next Sample.timedOut (System.start 1) = some s ∧
    Next.run next Sample.refused s = some t ∧ FailStop 1 s t ∧
    (s.calls 0).phase = .returned (.gaveUp .storageTimedOut) ∧
    (t.calls 1).phase = .returned (.refused .storageUnavailable) :=
  ⟨_, _, rfl, rfl, @storage_worker_is_fail_stop Unit 1 Sample.timedOut Sample.refused _ _ rfl rfl, rfl,
    rfl⟩

end Storage

end Host

end AgentBridge
