import AgentBridge.Host.Storage
import AgentBridge.Reasoning.Slots

/-!
# Steps of the storage threads

What one step keeps: the jobs of each writer stay in the order they were queued, an answer is one of
a job that completed, the gate of a path has one holder, and the budget counts the permits alive.
Nothing that a step adds to a writer is taken back.
-/

namespace AgentBridge

open Reasoning

namespace Host

namespace Storage

variable {α : Type}

/-! ## Threads -/

/-- A permit belongs to the thread, or to the opener that will start it. -/
@[simp] def Thread.hasPermit : Thread α → Bool
  | .gated => false
  | .released => false
  | .ended => false
  | _ => true

/-- The thread is alive, and its work has not ended. -/
@[simp] def Thread.isLive : Thread α → Bool
  | .gated => false
  | .reserved => false
  | .released => false
  | .ended => false
  | _ => true

@[simp] def Thread.holdsGate : Thread α → Bool
  | .opening => true
  | .creating => true
  | .entered _ => true
  | .checked _ => true
  | .running _ => true
  | .completed _ _ => true
  | .ran => true
  | _ => false

/-- The thread has not left its loop. -/
@[simp] def Thread.inLoop : Thread α → Bool
  | .leaving _ => false
  | .released => false
  | .ended => false
  | _ => true

/-- The job taken from the queue and not yet started. -/
@[simp] def Thread.hand : Thread α → List Nat
  | .received job => [job]
  | .entered job => [job]
  | .checked job => [job]
  | _ => []

/-- The job that has passed the stop check. -/
@[simp] def Thread.cleared : Thread α → List Nat
  | .checked job => [job]
  | _ => []

/-- The job that runs. -/
@[simp] def Thread.current : Thread α → List Nat
  | .running job => [job]
  | _ => []

@[simp] def ReadThread.hasPermit : ReadThread → Bool
  | .ended => false
  | _ => true

/-- The thread is alive, and its work has not ended. -/
@[simp] def ReadThread.isLive : ReadThread → Bool
  | .running => true
  | .leaving => true
  | _ => false

theorem Thread.hasPermit_of_isLive {thread : Thread α} (h : thread.isLive = true) :
    thread.hasPermit = true := by
  cases thread <;> simp_all [isLive, hasPermit]

theorem ReadThread.hasPermit_of_isLive {thread : ReadThread} (h : thread.isLive = true) :
    thread.hasPermit = true := by
  cases thread <;> simp_all [isLive, hasPermit]

/-! ## One writer -/

/-- The jobs of a writer, wherever they are. -/
structure Worker.Sound (w : Worker α) : Prop where
  order : w.thread.inLoop = true → w.queued = w.started ++ w.thread.hand ++ w.queue
  started : w.started <+: w.queued
  nodup : w.queued.Nodup
  ended : w.started = w.ended ++ w.thread.current
  completed : ∀ p ∈ w.completed, p.1 ∈ w.ended
  once : (w.completed.map Prod.fst).Nodup
  answer : ∀ job answer, w.thread = .completed job answer → (job, answer) ∈ w.completed

/-- What no step takes back of a writer. -/
structure Worker.Later (w w' : Worker α) : Prop where
  path : w'.path = w.path
  gate : w'.gate = w.gate
  queued : w.queued <+: w'.queued
  completed : w.completed <+: w'.completed
  started : w.started <+: w'.started
  failed : w.failed = true → w'.failed = true
  ended : w.thread.hasEnded = true → w'.thread.hasEnded = true
  keeps : w'.thread.keepsGate = true → w.thread.keepsGate = true
  /-- After a failure only the job that has passed the stop check starts. -/
  stopped : w.failed = true → w'.started ++ w'.thread.cleared <+: w.started ++ w.thread.cleared

theorem Worker.Later.refl (w : Worker α) : w.Later w where
  path := rfl
  gate := rfl
  queued := List.prefix_refl _
  completed := List.prefix_refl _
  started := List.prefix_refl _
  failed := id
  ended := id
  keeps := id
  stopped := fun _ => List.prefix_refl _

theorem Worker.Later.trans {a b c : Worker α} (hab : a.Later b) (hbc : b.Later c) : a.Later c where
  path := hbc.path.trans hab.path
  gate := hbc.gate.trans hab.gate
  queued := hab.queued.trans hbc.queued
  completed := hab.completed.trans hbc.completed
  started := hab.started.trans hbc.started
  failed := fun h => hbc.failed (hab.failed h)
  ended := fun h => hbc.ended (hab.ended h)
  keeps := fun h => hab.keeps (hbc.keeps h)
  stopped := fun h => (hbc.stopped (hab.failed h)).trans (hab.stopped h)

/-- No call is served any more. -/
def Worker.Broken (w : Worker α) : Prop := w.failed = true ∨ w.thread.hasEnded = true

theorem Worker.Later.broken {w w' : Worker α} (h : w.Later w') (hb : w.Broken) : w'.Broken := by
  rcases hb with hfailed | hended
  · exact .inl (h.failed hfailed)
  · exact .inr (h.ended hended)

/-- A step of a writer's own. -/
structure Worker.Step (w w' : Worker α) : Prop where
  later : w.Later w'
  sound : w.Sound → w'.Sound
  quiet : w'.queued = w.queued

variable {w : Worker α}

/-- The thread goes on, and leaves the jobs where they are. -/
theorem Worker.Step.thread {thread : Thread α} {opening : Opening} {failed : Bool}
    {ready : Option (Except StoreError Unit)} (hfailed : w.failed = true → failed = true)
    (hloop : thread.inLoop = true → w.thread.inLoop = true ∧ thread.hand = w.thread.hand)
    (hcurrent : thread.current = w.thread.current)
    (hcleared : w.failed = true → thread.cleared <+: w.thread.cleared)
    (hended : w.thread.hasEnded = true → thread.hasEnded = true)
    (hkeeps : thread.keepsGate = true → w.thread.keepsGate = true)
    (hanswer : ∀ job answer, thread = .completed job answer → w.thread = thread) :
    w.Step { w with thread, opening, failed, ready } where
  later := {
    path := rfl
    gate := rfl
    queued := List.prefix_refl _
    completed := List.prefix_refl _
    started := List.prefix_refl _
    failed := hfailed
    ended := hended
    keeps := hkeeps
    stopped := fun h => List.prefix_append_right_inj w.started |>.mpr (hcleared h) }
  sound := fun h => {
    order := by
      intro hin
      obtain ⟨hwas, hhand⟩ := hloop hin
      rw [h.order hwas, hhand]
    started := h.started
    nodup := h.nodup
    ended := by rw [hcurrent]; exact h.ended
    completed := h.completed
    once := h.once
    answer := by
      intro job answer hthread
      exact h.answer job answer ((hanswer job answer hthread).trans hthread) }
  quiet := rfl

/-- The opener goes on. -/
theorem Worker.Step.opening {opening : Opening} {failed : Bool}
    (hfailed : w.failed = true → failed = true) : w.Step { w with opening, failed } :=
  .thread hfailed (fun h => ⟨h, rfl⟩) rfl (fun _ => List.prefix_refl _) id id fun _ _ _ => rfl

theorem Worker.Step.receive {job : Nat} {queue : List Nat} (hthread : w.thread = .idle)
    (hqueue : w.queue = job :: queue) : w.Step { w with queue, thread := .received job } where
  later := {
    path := rfl
    gate := rfl
    queued := List.prefix_refl _
    completed := List.prefix_refl _
    started := List.prefix_refl _
    failed := id
    ended := by rw [hthread]; exact fun h => h
    keeps := fun _ => by rw [hthread]; rfl
    stopped := fun _ => by rw [hthread]; exact List.prefix_refl _ }
  sound := fun h => {
    order := by
      intro _
      have horder := h.order (by rw [hthread]; rfl)
      rw [horder, hthread, hqueue]
      simp [Thread.hand]
    started := h.started
    nodup := h.nodup
    ended := by rw [h.ended, hthread]; rfl
    completed := h.completed
    once := h.once
    answer := fun _ _ h => by cases h }
  quiet := rfl

theorem Worker.Step.start {job : Nat} (hthread : w.thread = .checked job) :
    w.Step { w with thread := .running job, started := w.started ++ [job] } where
  later := {
    path := rfl
    gate := rfl
    queued := List.prefix_refl _
    completed := List.prefix_refl _
    started := List.prefix_append _ _
    failed := id
    ended := by rw [hthread]; exact fun h => h
    keeps := fun _ => by rw [hthread]; rfl
    stopped := fun _ => by rw [hthread]; simp [Thread.cleared] }
  sound := fun h => by
    have horder := h.order (by rw [hthread]; rfl)
    rw [hthread] at horder
    exact {
      order := fun _ => by simpa [Thread.hand] using horder
      started := by rw [horder]; exact List.prefix_append _ _
      nodup := h.nodup
      ended := by
        have hended := h.ended
        rw [hthread] at hended
        simp only [Thread.current, List.append_nil] at hended ⊢
        rw [hended]
      completed := h.completed
      once := h.once
      answer := fun _ _ h => by cases h }
  quiet := rfl

/-- The job that runs ends, with an answer or in a panic. -/
theorem Worker.Step.finish {job : Nat} {thread : Thread α} {more : List (Nat × Answer α)}
    (hthread : w.thread = .running job)
    (hloop : thread.hand = []) (hcurrent : thread.current = []) (hcleared : thread.cleared = [])
    (hmore : ∀ p ∈ more, p.1 = job) (honce : (more.map Prod.fst).Nodup)
    (hanswer : ∀ j answer, thread = .completed j answer → (j, answer) ∈ more) :
    w.Step { w with thread, ended := w.ended ++ [job], completed := w.completed ++ more } where
  later := {
    path := rfl
    gate := rfl
    queued := List.prefix_refl _
    completed := List.prefix_append _ _
    started := List.prefix_refl _
    failed := id
    ended := by rw [hthread]; intro h; cases h
    keeps := fun _ => by rw [hthread]; rfl
    stopped := fun _ => by rw [hthread, hcleared]; exact List.prefix_refl _ }
  sound := fun h => {
    order := by
      intro _
      rw [h.order (by rw [hthread]; rfl), hthread, hloop]
      rfl
    started := h.started
    nodup := h.nodup
    ended := by rw [h.ended, hthread, hcurrent]; simp [Thread.current]
    completed := by
      intro p hp
      rcases List.mem_append.mp hp with hold | hnew
      · exact List.mem_append_left _ (h.completed p hold)
      · rw [hmore p hnew]
        exact List.mem_append_right _ (List.mem_singleton.mpr rfl)
    once := by
      rw [List.map_append, List.nodup_append]
      refine ⟨h.once, honce, ?_⟩
      rintro a ha b hb rfl
      obtain ⟨p, hp, rfl⟩ := List.mem_map.mp ha
      obtain ⟨q, hq, hpq⟩ := List.mem_map.mp hb
      -- the job that runs has not ended before
      have hstarted := h.nodup.sublist h.started.sublist
      rw [h.ended, hthread] at hstarted
      have hnew := (List.nodup_append.mp hstarted).2.2 p.1 (h.completed p hp) job
        (List.mem_singleton.mpr rfl)
      exact hnew (hpq.symm.trans (hmore q hq))
    answer := by
      intro j answer hdone
      exact List.mem_append_right _ (hanswer j answer hdone) }
  quiet := rfl

/-- The thread ends, and drops what waits in its queue. -/
theorem Worker.Step.finalize (hthread : w.thread = .released) :
    w.Step { w with queue := [], thread := .ended } where
  later := {
    path := rfl
    gate := rfl
    queued := List.prefix_refl _
    completed := List.prefix_refl _
    started := List.prefix_refl _
    failed := id
    ended := fun _ => rfl
    keeps := fun h => by cases h
    stopped := fun _ => by rw [hthread]; exact List.prefix_refl _ }
  sound := fun h => {
    order := fun h => by cases h
    started := h.started
    nodup := h.nodup
    ended := by rw [h.ended, hthread]; rfl
    completed := h.completed
    once := h.once
    answer := fun _ _ h => by cases h }
  quiet := rfl

/-! ## The system -/

/-- The call has handed its job over. -/
def Phase.isSent : Phase α → Bool
  | .waiting => true
  | .failing _ => true
  | .returned (.answered _) => true
  | .returned (.gaveUp _) => true
  | _ => false

/-- The job of the call ran to completion with this answer. -/
def System.Completed (s : System α) (k : Nat) (answer : Answer α) : Prop :=
  ∃ w, s.workers[(s.calls k).worker]? = some w ∧ (k, answer) ∈ w.completed

/-- The writer that the call was made on serves no call any more. -/
def System.IsBroken (s : System α) (k : Nat) : Prop :=
  ∃ w, s.workers[(s.calls k).worker]? = some w ∧ w.Broken

structure System.CallSound (s : System α) (k : Nat) : Prop where
  sent : ∀ answer, (s.calls k).reply = .sent answer → s.Completed k answer
  answered : ∀ answer, (s.calls k).phase = .returned (.answered answer) → s.Completed k answer
  final : ∀ outcome, (s.calls k).phase = .returned outcome → outcome.isFinal = true → s.IsBroken k

/-- The permits of writers and readers that are alive. -/
def System.permits (s : System α) : Nat :=
  s.workers.countP (·.thread.hasPermit) + s.readers.countP (·.thread.hasPermit)

structure System.Sound (s : System α) : Prop where
  workers : ∀ (i : Nat) (w : Worker α), s.workers[i]? = some w → w.Sound
  active : s.active = s.permits
  bound : s.active ≤ s.limit
  gates : ∀ (i : Nat) (w : Worker α), s.workers[i]? = some w → w.thread.holdsGate = true →
    (s.gates w.gate).holder = some i
  kept : ∀ (i : Nat) (w : Worker α), s.workers[i]? = some w → w.thread.keepsGate = true →
    s.writers w.path = some w.gate
  known : ∀ (i : Nat) (w : Worker α), s.workers[i]? = some w → w.gate < s.gateCount
  sent : ∀ (i : Nat) (w : Worker α), s.workers[i]? = some w → ∀ k ∈ w.queued,
    (s.calls k).worker = i ∧ (s.calls k).phase.isSent = true
  calls : ∀ k, s.CallSound k

theorem System.start_sound (limit : Nat) : (System.start limit : System α).Sound where
  workers := fun _ _ h => by cases h
  active := rfl
  bound := Nat.zero_le _
  gates := fun _ _ h => by cases h
  kept := fun _ _ h => by cases h
  known := fun _ _ h => by cases h
  sent := fun _ _ h => by cases h
  calls := fun _ => ⟨fun _ h => (by cases h), fun _ h => (by cases h), fun _ h => (by cases h)⟩

/-- Every writer of `s` is in `t` with nothing taken back. -/
def System.Later (s t : System α) : Prop :=
  ∀ (i : Nat) (w : Worker α), s.workers[i]? = some w → ∃ w', t.workers[i]? = some w' ∧ w.Later w'

theorem System.Later.refl (s : System α) : s.Later s := fun _ w h => ⟨w, h, .refl w⟩

theorem System.Later.trans {a b c : System α} (hab : a.Later b) (hbc : b.Later c) : a.Later c := by
  intro i w hw
  obtain ⟨mid, hmid, hfirst⟩ := hab i w hw
  obtain ⟨last, hlast, hsecond⟩ := hbc i mid hmid
  exact ⟨last, hlast, hfirst.trans hsecond⟩

theorem System.Later.set {s : System α} {i : Nat} {w w' : Worker α} {t : System α}
    (hw : s.workers[i]? = some w) (hworkers : t.workers = s.workers.set i w')
    (hlater : w.Later w') : s.Later t := by
  intro j v hv
  rw [hworkers, getElem?_set_slot hw]
  by_cases hij : i = j
  · subst hij
    have hvw : v = w := Option.some.inj (hv.symm.trans hw)
    rw [if_pos rfl, hvw]
    exact ⟨w', rfl, hlater⟩
  · rw [if_neg hij]
    exact ⟨v, hv, .refl v⟩

theorem System.Later.of_eq {s t : System α} (hworkers : t.workers = s.workers) : s.Later t := by
  intro i w hw
  rw [hworkers]
  exact ⟨w, hw, .refl w⟩

theorem System.Later.append {s t : System α} {w : Worker α}
    (hworkers : t.workers = s.workers ++ [w]) : s.Later t := by
  intro i v hv
  have hlt : i < s.workers.length := (List.getElem?_eq_some_iff.mp hv).1
  rw [hworkers, List.getElem?_append_left hlt]
  exact ⟨v, hv, .refl v⟩

/-- A step leads to a sound system and takes nothing back. -/
structure System.Follows (s t : System α) : Prop where
  sound : t.Sound
  later : s.Later t
  limit : t.limit = s.limit

theorem System.Follows.trans {a b c : System α} (hab : a.Follows b) (hbc : b.Follows c) :
    a.Follows c :=
  ⟨hbc.sound, hab.later.trans hbc.later, hbc.limit.trans hab.limit⟩

section Calls

variable {s t : System α} {k : Nat}

theorem System.Completed.later {answer : Answer α} (h : s.Completed k answer) (hlater : s.Later t)
    (hworker : (t.calls k).worker = (s.calls k).worker) : t.Completed k answer := by
  obtain ⟨w, hw, hmem⟩ := h
  obtain ⟨w', hw', hl⟩ := hlater _ w hw
  exact ⟨w', hworker ▸ hw', hl.completed.subset hmem⟩

theorem System.IsBroken.later (h : s.IsBroken k) (hlater : s.Later t)
    (hworker : (t.calls k).worker = (s.calls k).worker) : t.IsBroken k := by
  obtain ⟨w, hw, hbroken⟩ := h
  obtain ⟨w', hw', hl⟩ := hlater _ w hw
  exact ⟨w', hworker ▸ hw', hl.broken hbroken⟩

/-- A call that stays as it is. -/
theorem System.CallSound.later (h : s.CallSound k) (hlater : s.Later t)
    (hcall : t.calls k = s.calls k) : t.CallSound k where
  sent := fun answer hreply =>
    (h.sent answer (hcall ▸ hreply)).later hlater (congrArg Call.worker hcall)
  answered := fun answer hphase =>
    (h.answered answer (hcall ▸ hphase)).later hlater (congrArg Call.worker hcall)
  final := fun outcome hphase hfinal =>
    (h.final outcome (hcall ▸ hphase) hfinal).later hlater (congrArg Call.worker hcall)

/-- A call whose reply slot changes. -/
theorem System.CallSound.reply (h : s.CallSound k) (hlater : s.Later t)
    {reply : Reply (Answer α)} (hcall : t.calls k = { s.calls k with reply })
    (hsent : ∀ answer, reply = .sent answer → t.Completed k answer) : t.CallSound k := by
  have hworker : (t.calls k).worker = (s.calls k).worker := by rw [hcall]
  have hphase : (t.calls k).phase = (s.calls k).phase := by rw [hcall]
  have hreply : (t.calls k).reply = reply := by rw [hcall]
  exact {
    sent := fun answer h' => hsent answer (hreply.symm.trans h')
    answered := fun answer h' => (h.answered answer (hphase ▸ h')).later hlater hworker
    final := fun outcome h' hfinal =>
      (h.final outcome (hphase ▸ h') hfinal).later hlater hworker }

/-- A call that moves on. -/
theorem System.CallSound.phase (h : s.CallSound k) (hlater : s.Later t) {phase : Phase α}
    (hcall : t.calls k = { s.calls k with phase })
    (hanswered : ∀ answer, phase = .returned (.answered answer) → s.Completed k answer)
    (hfinal : ∀ outcome, phase = .returned outcome → outcome.isFinal = true → t.IsBroken k) :
    t.CallSound k := by
  have hworker : (t.calls k).worker = (s.calls k).worker := by rw [hcall]
  have hphase : (t.calls k).phase = phase := by rw [hcall]
  have hreply : (t.calls k).reply = (s.calls k).reply := by rw [hcall]
  exact {
    sent := fun answer h' => (h.sent answer (hreply ▸ h')).later hlater hworker
    answered := fun answer h' => (hanswered answer (hphase.symm.trans h')).later hlater hworker
    final := fun outcome h' => hfinal outcome (hphase.symm.trans h') }

end Calls

/-! ## Steps of the system -/

section Steps

variable {s : System α} {i : Nat} {w w' : Worker α}

/-- One writer moves, and with it perhaps its permit and its gate. -/
theorem System.Sound.move (h : s.Sound) (gates : Nat → Gate) (active : Nat)
    (hw : s.workers[i]? = some w) (hlater : w.Later w') (hsound : w'.Sound)
    (hactive : active + w.thread.hasPermit.toNat = s.active + w'.thread.hasPermit.toNat)
    (hbound : active ≤ s.limit)
    (hother : ∀ g j, j ≠ i → (s.gates g).holder = some j → (gates g).holder = some j)
    (hown : w'.thread.holdsGate = true → (gates w'.gate).holder = some i)
    (hsent : ∀ k ∈ w'.queued, (s.calls k).worker = i ∧ (s.calls k).phase.isSent = true) :
    s.Follows { s with gates, active, workers := s.workers.set i w' } := by
  have hget : ∀ (j : Nat) (v : Worker α), (s.workers.set i w')[j]? = some v →
      (j = i ∧ v = w') ∨ (j ≠ i ∧ s.workers[j]? = some v) := by
    intro j v hv
    rw [getElem?_set_slot hw] at hv
    by_cases hij : i = j
    · rw [if_pos hij] at hv
      exact .inl ⟨hij.symm, (Option.some.inj hv).symm⟩
    · rw [if_neg hij] at hv
      exact .inr ⟨fun hji => hij hji.symm, hv⟩
  have hsystem : s.Later { s with gates, active, workers := s.workers.set i w' } :=
    .set hw rfl hlater
  have hnext : ({ s with gates, active, workers := s.workers.set i w' } : System α).Sound := {
    workers := by
      intro j v hv
      rcases hget j v hv with ⟨-, rfl⟩ | ⟨-, hold⟩
      · exact hsound
      · exact h.workers j v hold
    active := by
      have hcount := countP_set_slot (b := w') (p := fun w => w.thread.hasPermit) hw
      have hbefore := h.active
      unfold permits at hbefore ⊢
      simp only
      omega
    bound := hbound
    gates := by
      intro j v hv hholds
      rcases hget j v hv with ⟨rfl, rfl⟩ | ⟨hne, hold⟩
      · exact hown hholds
      · exact hother v.gate j hne (h.gates j v hold hholds)
    kept := by
      intro j v hv hkeeps
      rcases hget j v hv with ⟨-, rfl⟩ | ⟨-, hold⟩
      · have hkept := h.kept i w hw (hlater.keeps hkeeps)
        rw [hlater.path, hlater.gate]
        exact hkept
      · exact h.kept j v hold hkeeps
    known := by
      intro j v hv
      rcases hget j v hv with ⟨-, rfl⟩ | ⟨-, hold⟩
      · have hknown := h.known i w hw
        rw [hlater.gate]
        exact hknown
      · exact h.known j v hold
    sent := by
      intro j v hv
      rcases hget j v hv with ⟨rfl, rfl⟩ | ⟨-, hold⟩
      · exact hsent
      · exact h.sent j v hold
    calls := fun k => (h.calls k).later hsystem rfl }
  exact ⟨hnext, hsystem, rfl⟩

/-- A writer moves on and keeps its permit, and takes no gate. -/
theorem System.Sound.goOn (h : s.Sound) (hw : s.workers[i]? = some w) (hstep : w.Step w')
    (hpermit : w'.thread.hasPermit = w.thread.hasPermit)
    (hgate : w'.thread.holdsGate = true → w.thread.holdsGate = true) :
    s.Follows (s.setWorker i w') := by
  refine h.move s.gates s.active hw hstep.later
    (hstep.sound (h.workers i w hw)) (by rw [hpermit]) h.bound (fun _ _ _ h => h) ?_ ?_
  · intro hholds
    rw [hstep.later.gate]
    exact h.gates i w hw (hgate hholds)
  · rw [hstep.quiet]
    exact h.sent i w hw

/-- A writer takes its gate. -/
theorem System.Sound.enter (h : s.Sound) (hw : s.workers[i]? = some w) (hstep : w.Step w')
    (hpermit : w'.thread.hasPermit = w.thread.hasPermit)
    (hfree : (s.gates w.gate).holder = none) :
    s.Follows ((s.setGate w.gate ⟨some i, false⟩).setWorker i w') := by
  refine h.move _ s.active hw hstep.later (hstep.sound (h.workers i w hw))
    (by rw [hpermit]) h.bound ?_ ?_ ?_
  · intro g j hne hholder
    have hg : g ≠ w.gate := by
      rintro rfl
      rw [hfree] at hholder
      cases hholder
    rw [System.setGate_gates_of_ne hg]
    exact hholder
  · intro _
    rw [hstep.later.gate, System.setGate_gates_self]
  · rw [hstep.quiet]
    exact h.sent i w hw

/-- A writer that holds its gate gives it back, poisoned or not. -/
theorem System.Sound.leave (h : s.Sound) (hw : s.workers[i]? = some w) (hstep : w.Step w')
    (hpermit : w'.thread.hasPermit = w.thread.hasPermit) (hheld : w.thread.holdsGate = true)
    (hgone : w'.thread.holdsGate = false) (poisoned : Bool) :
    s.Follows ((s.setGate w.gate ⟨none, poisoned⟩).setWorker i w') := by
  have hholder := h.gates i w hw hheld
  refine h.move _ s.active hw hstep.later (hstep.sound (h.workers i w hw))
    (by rw [hpermit]) h.bound ?_ ?_ ?_
  · intro g j hne hother
    have hg : g ≠ w.gate := by
      rintro rfl
      rw [hholder] at hother
      exact hne (Option.some.inj hother).symm
    rw [System.setGate_gates_of_ne hg]
    exact hother
  · intro hholds
    rw [hgone] at hholds
    cases hholds
  · rw [hstep.quiet]
    exact h.sent i w hw

/-- A writer that holds a permit drops it. -/
theorem System.Sound.release (h : s.Sound) (hw : s.workers[i]? = some w) (hstep : w.Step w')
    (hheld : w.thread.hasPermit = true) (hgone : w'.thread.hasPermit = false)
    (hgate : w'.thread.holdsGate = false) :
    s.Follows ((Storage.release s).setWorker i w') := by
  have hpositive : 0 < s.active := by
    have hmem : w ∈ s.workers := List.mem_of_getElem? hw
    have hcount : 0 < s.workers.countP (·.thread.hasPermit) :=
      List.countP_pos_iff.mpr ⟨w, hmem, hheld⟩
    have hactive := h.active
    unfold permits at hactive
    omega
  have hbound := h.bound
  refine h.move s.gates (s.active - 1) hw hstep.later
    (hstep.sound (h.workers i w hw)) ?_ (by omega) (fun _ _ _ h => h) ?_ ?_
  · rw [hheld, hgone]
    simp only [Bool.toNat_true, Bool.toNat_false]
    omega
  · intro hholds
    rw [hgate] at hholds
    cases hholds
  · rw [hstep.quiet]
    exact h.sent i w hw

/-- A permit is reserved for a writer. -/
theorem System.Sound.reserve (h : s.Sound) (hw : s.workers[i]? = some w) (hstep : w.Step w')
    (hlimit : s.active < s.limit) (hbefore : w.thread.hasPermit = false)
    (hafter : w'.thread.hasPermit = true) (hgate : w'.thread.holdsGate = false) :
    s.Follows ({ s with active := s.active + 1 }.setWorker i w') := by
  refine h.move s.gates (s.active + 1) hw hstep.later
    (hstep.sound (h.workers i w hw)) ?_ hlimit (fun _ _ _ h => h) ?_ ?_
  · rw [hbefore, hafter]
    rfl
  · intro hholds
    rw [hgate] at hholds
    cases hholds
  · rw [hstep.quiet]
    exact h.sent i w hw

/-- Only a call changes. -/
theorem System.Sound.setCall (h : s.Sound) {k : Nat} {call : Call α}
    (hsent : (s.calls k).phase.isSent = true →
      call.worker = (s.calls k).worker ∧ call.phase.isSent = true)
    (hcall : (s.setCall k call).CallSound k) : s.Follows (s.setCall k call) where
  sound := { h with
    sent := by
      intro i w hw j hj
      obtain ⟨hworker, hphase⟩ := h.sent i w hw j hj
      by_cases hjk : j = k
      · subst hjk
        obtain ⟨hsame, hstill⟩ := hsent hphase
        rw [System.setCall_calls_self]
        exact ⟨hsame.trans hworker, hstill⟩
      · rw [System.setCall_calls_of_ne hjk]
        exact ⟨hworker, hphase⟩
    calls := by
      intro j
      by_cases hjk : j = k
      · subst hjk
        exact hcall
      · exact (h.calls j).later (.of_eq rfl) (System.setCall_calls_of_ne hjk) }
  later := .of_eq rfl
  limit := rfl

/-- A reply slot changes: an answer is one of the job that completed. -/
theorem System.Sound.setReply (h : s.Sound) {k : Nat} {reply : Reply (Answer α)}
    (hreply : ∀ answer, reply = .sent answer → s.Completed k answer) :
    s.Follows (s.setReply k reply) := by
  apply h.setCall
  · intro hsent
    exact ⟨rfl, hsent⟩
  · have hcall : (s.setReply k reply).calls k = { s.calls k with reply } :=
      System.setCall_calls_self _ _ _
    have hworker : ((s.setReply k reply).calls k).worker = (s.calls k).worker := by rw [hcall]
    have hlater : s.Later (s.setReply k reply) := .of_eq rfl
    apply (h.calls k).reply hlater hcall
    intro answer hsent
    exact (hreply answer hsent).later hlater hworker

/-- A call moves on. -/
theorem System.Sound.setPhase (h : s.Sound) {k : Nat} {phase : Phase α}
    (hsent : (s.calls k).phase.isSent = true → phase.isSent = true)
    (hanswered : ∀ answer, phase = .returned (.answered answer) → s.Completed k answer)
    (hfinal : ∀ outcome, phase = .returned outcome → outcome.isFinal = true → s.IsBroken k) :
    s.Follows (s.setPhase k phase) := by
  apply h.setCall
  · intro h'
    exact ⟨rfl, hsent h'⟩
  · have hcall : (s.setPhase k phase).calls k = { s.calls k with phase } :=
      System.setCall_calls_self _ _ _
    have hworker : ((s.setPhase k phase).calls k).worker = (s.calls k).worker := by rw [hcall]
    have hlater : s.Later (s.setPhase k phase) := .of_eq rfl
    apply (h.calls k).phase hlater hcall hanswered
    intro outcome houtcome h'
    exact (hfinal outcome houtcome h').later hlater hworker

theorem System.Sound.dropJobs (h : s.Sound) (jobs : List Nat) : s.Follows (s.dropJobs jobs) where
  sound := { h with
    sent := by
      intro i w hw k hk
      have hbefore := h.sent i w hw k hk
      by_cases hmem : k ∈ jobs
      · simp only [System.dropJobs, if_pos hmem]
        exact hbefore
      · simp only [System.dropJobs, if_neg hmem]
        exact hbefore
    calls := by
      intro k
      have hlater : s.Later (s.dropJobs jobs) := .of_eq rfl
      by_cases hmem : k ∈ jobs
      · have hcall : (s.dropJobs jobs).calls k = { s.calls k with reply := .dropped } := if_pos hmem
        apply (h.calls k).reply hlater hcall
        intro answer hsent
        cases hsent
      · exact (h.calls k).later hlater (if_neg hmem) }
  later := .of_eq rfl
  limit := rfl

/-- Only readers change, with their permits. -/
theorem System.Sound.setReaders (h : s.Sound) (active : Nat) (readers : List (Reader α))
    (hactive : active + s.readers.countP (·.thread.hasPermit) =
      s.active + readers.countP (·.thread.hasPermit)) (hbound : active ≤ s.limit) :
    s.Follows { s with active, readers } where
  sound := { h with
    active := by
      have hbefore := h.active
      unfold permits at hbefore ⊢
      simp only
      omega
    bound := hbound
    calls := fun k => (h.calls k).later (.of_eq rfl) rfl }
  later := .of_eq rfl
  limit := rfl

/-- The gate of a path: the paths of other living gates keep theirs. -/
structure GateFound (s t : System α) (path : String) (gate : Nat) : Prop where
  found : t.writers path = some gate
  kept : ∀ p g, s.writers p = some g → s.isKept g = true → t.writers p = some g
  gates : ∀ g, g < s.gateCount → t.gates g = s.gates g
  known : gate < t.gateCount
  count : s.gateCount ≤ t.gateCount

theorem System.isKept_iff {g : Nat} : s.isKept g = true ↔
    ∃ i : Nat, ∃ w : Worker α, s.workers[i]? = some w ∧ w.thread.keepsGate = true ∧ w.gate = g := by
  unfold System.isKept
  rw [List.any_eq_true]
  constructor
  · rintro ⟨w, hmem, hw⟩
    obtain ⟨i, hi⟩ := List.mem_iff_getElem?.mp hmem
    simp only [Bool.and_eq_true, beq_iff_eq] at hw
    exact ⟨i, w, hi, hw⟩
  · rintro ⟨i, w, hi, hkeeps, hgate⟩
    refine ⟨w, List.mem_of_getElem? hi, ?_⟩
    simp only [hkeeps, hgate, Bool.true_and, beq_self_eq_true]

theorem writerGate_of_kept {path : String} {gate : Nat}
    (hpath : (s.writers path).filter s.isKept = some gate) :
    writerGate s path = (gate, { s with writers := fun p => (s.writers p).filter s.isKept }) := by
  simp only [writerGate, hpath]

theorem writerGate_of_new {path : String} (hpath : (s.writers path).filter s.isKept = none) :
    writerGate s path = (s.gateCount, { s with
      writers := Function.update (fun p => (s.writers p).filter s.isKept) path (some s.gateCount)
      gates := Function.update s.gates s.gateCount ⟨none, false⟩
      gateCount := s.gateCount + 1 }) := by
  simp only [writerGate, hpath]

theorem writerGate_found (h : s.Sound) (path : String) :
    GateFound s (writerGate s path).2 path (writerGate s path).1 := by
  cases hpath : (s.writers path).filter s.isKept with
  | some gate =>
    rw [writerGate_of_kept hpath]
    obtain ⟨-, hkept⟩ := Option.filter_eq_some_iff.mp hpath
    obtain ⟨i, w, hw, -, rfl⟩ := System.isKept_iff.mp hkept
    exact {
      found := hpath
      kept := by
        intro p g hp hg
        simp [hp, hg]
      gates := fun _ _ => rfl
      known := h.known i w hw
      count := Nat.le_refl _ }
  | none =>
    rw [writerGate_of_new hpath]
    exact {
      found := by simp
      kept := by
        intro p g hp hg
        have hne : p ≠ path := by
          rintro rfl
          rw [hp] at hpath
          simp [hg] at hpath
        simp only [Function.update_of_ne hne, hp]
        simp [hg]
      gates := by
        intro g hg
        exact Function.update_of_ne (Nat.ne_of_lt hg) _ _
      known := Nat.lt_succ_self _
      count := Nat.le_succ _ }

theorem Worker.start_sound (path : String) (gate : Nat) : (Worker.start path gate : Worker α).Sound where
  order := fun _ => rfl
  started := List.prefix_refl _
  nodup := List.nodup_nil
  ended := rfl
  completed := fun _ h => by cases h
  once := List.nodup_nil
  answer := fun _ _ h => by cases h

/-- A path gets its gate, and a new writer with it. -/
theorem System.Sound.addWorker (h : s.Sound) {writers : String → Option Nat} {gates : Nat → Gate}
    {gateCount gate : Nat} {path : String}
    (hfound : GateFound s { s with writers, gates, gateCount } path gate) :
    s.Follows { s with
      writers, gates, gateCount, workers := s.workers ++ [Worker.start path gate] } := by
  have hlater : s.Later { s with
      writers, gates, gateCount, workers := s.workers ++ [Worker.start path gate] } := .append rfl
  have hget : ∀ (j : Nat) (v : Worker α),
      (s.workers ++ [Worker.start path gate])[j]? = some v →
        v = Worker.start path gate ∨ s.workers[j]? = some v := by
    intro j v hv
    rw [getElem?_append_slot] at hv
    split at hv
    · exact .inl (Option.some.inj hv).symm
    · exact .inr hv
  refine ⟨?_, hlater, rfl⟩
  exact {
    workers := by
      intro j v hv
      rcases hget j v hv with rfl | hold
      · exact Worker.start_sound path gate
      · exact h.workers j v hold
    active := by
      have hbefore := h.active
      unfold permits at hbefore ⊢
      simp only [List.countP_append, hbefore]
      simp [Worker.start, Thread.hasPermit]
    bound := h.bound
    gates := by
      intro j v hv hholds
      rcases hget j v hv with rfl | hold
      · cases hholds
      · have hknown := h.known j v hold
        have hgate := hfound.gates v.gate hknown
        simp only at hgate ⊢
        rw [hgate]
        exact h.gates j v hold hholds
    kept := by
      intro j v hv hkeeps
      rcases hget j v hv with rfl | hold
      · exact hfound.found
      · apply hfound.kept v.path v.gate (h.kept j v hold hkeeps)
        exact System.isKept_iff.mpr ⟨j, v, hold, hkeeps, rfl⟩
    known := by
      intro j v hv
      rcases hget j v hv with rfl | hold
      · exact hfound.known
      · exact Nat.lt_of_lt_of_le (h.known j v hold) hfound.count
    sent := by
      intro j v hv
      rcases hget j v hv with rfl | hold
      · intro k hk
        cases hk
      · exact h.sent j v hold
    calls := fun k => (h.calls k).later hlater rfl }

theorem addWorker_follows (h : s.Sound) (path : String) :
    s.Follows { (writerGate s path).2 with
      workers := (writerGate s path).2.workers ++ [Worker.start path (writerGate s path).1] } := by
  have hfound := writerGate_found h path
  cases hpath : (s.writers path).filter s.isKept with
  | some gate =>
    rw [writerGate_of_kept hpath] at hfound ⊢
    exact h.addWorker hfound
  | none =>
    rw [writerGate_of_new hpath] at hfound ⊢
    exact h.addWorker hfound

end Steps

/-! ## Every step -/

section Next

variable {s t : System α} {i k : Nat} {w : Worker α}

theorem enter_follows (h : s.Sound) (hw : s.workers[i]? = some w) {entered failed : Thread α}
    (hin : w.Step { w with thread := entered }) (hout : w.Step { w with thread := failed })
    (hpermitIn : entered.hasPermit = w.thread.hasPermit)
    (hpermitOut : failed.hasPermit = w.thread.hasPermit) (hgate : failed.holdsGate = false)
    (hnext : enter s i w entered failed = some t) : s.Follows t := by
  unfold enter at hnext
  cases hfree : (s.gates w.gate).holder with
  | some holder =>
    simp only [hfree] at hnext
    cases hnext
  | none =>
    simp only [hfree] at hnext
    split at hnext
    · obtain rfl := Option.some.inj hnext
      apply h.goOn hw hout hpermitOut
      intro hholds
      simp only at hholds
      rw [hgate] at hholds
      cases hholds
    · obtain rfl := Option.some.inj hnext
      exact h.enter hw hin hpermitIn hfree

theorem advance_follows (h : s.Sound) (hw : s.workers[i]? = some w)
    (hnext : advance s i w = some t) : s.Follows t := by
  unfold advance at hnext
  cases hthread : w.thread with
  | spawned =>
    simp only [hthread] at hnext
    refine enter_follows h hw ?_ ?_ (by simp [hthread]) (by simp [hthread]) rfl hnext
    · apply Worker.Step.thread <;> simp [hthread]
    · apply Worker.Step.thread <;> simp [hthread]
  | opening =>
    simp only [hthread] at hnext
    split at hnext
    · obtain rfl := Option.some.inj hnext
      apply h.leave hw _ (by simp [hthread]) (by simp [hthread]) rfl
      apply Worker.Step.thread <;> simp [hthread]
    · obtain rfl := Option.some.inj hnext
      apply h.goOn hw _ (by simp [hthread]) (by simp [hthread])
      apply Worker.Step.thread <;> simp [hthread]
  | announcing result =>
    simp only [hthread] at hnext
    split at hnext
    · split at hnext
      · obtain rfl := Option.some.inj hnext
        apply h.goOn hw _ (by simp [hthread]) (by simp)
        apply Worker.Step.thread <;> simp [hthread]
      · obtain rfl := Option.some.inj hnext
        apply h.goOn hw _ (by simp [hthread]) (by simp)
        apply Worker.Step.thread <;> simp [hthread]
    · obtain rfl := Option.some.inj hnext
      apply h.goOn hw _ (by simp [hthread]) (by simp)
      apply Worker.Step.thread <;> simp [hthread]
  | idle =>
    simp only [hthread] at hnext
    split at hnext
    · next job queue hqueue =>
      obtain rfl := Option.some.inj hnext
      exact h.goOn hw (.receive hthread hqueue) (by simp [hthread]) (by simp)
    · split at hnext
      · obtain rfl := Option.some.inj hnext
        apply h.goOn hw _ (by simp [hthread]) (by simp)
        apply Worker.Step.thread <;> simp [hthread]
      · cases hnext
  | received job =>
    simp only [hthread] at hnext
    refine enter_follows h hw ?_ ?_ (by simp [hthread]) (by simp [hthread]) rfl hnext
    · apply Worker.Step.thread <;> simp [hthread]
    · apply Worker.Step.thread <;> simp [hthread]
  | entered job =>
    simp only [hthread] at hnext
    split at hnext
    · obtain rfl := Option.some.inj hnext
      apply h.leave hw _ (by simp [hthread]) (by simp [hthread]) rfl
      apply Worker.Step.thread <;> simp [hthread]
    · next hfailed =>
      obtain rfl := Option.some.inj hnext
      apply h.goOn hw _ (by simp [hthread]) (by simp [hthread])
      apply Worker.Step.thread <;> simp [hthread, hfailed]
  | checked job =>
    simp only [hthread] at hnext
    obtain rfl := Option.some.inj hnext
    exact h.goOn hw (.start hthread) (by simp [hthread]) (by simp [hthread])
  | completed job answer =>
    simp only [hthread] at hnext
    obtain rfl := Option.some.inj hnext
    have hsound := h.workers i w hw
    have hdone := hsound.answer job answer hthread
    have hqueued : job ∈ w.queued := by
      have hended := hsound.completed _ hdone
      apply hsound.started.subset
      rw [hsound.ended]
      exact List.mem_append_left _ hended
    -- the job is the writer's own, so its call finds the answer there
    have hreply : s.Follows (s.setReply job (.sent answer)) := by
      apply h.setReply
      intro answer' hsent
      obtain rfl := Reply.sent.inj hsent
      exact ⟨w, (h.sent i w hw job hqueued).1 ▸ hw, hdone⟩
    apply hreply.trans
    apply hreply.sound.goOn hw _ (by simp [hthread]) (by simp [hthread])
    apply Worker.Step.thread <;> simp [hthread]
  | ran =>
    simp only [hthread] at hnext
    split at hnext
    · obtain rfl := Option.some.inj hnext
      apply h.leave hw _ (by simp [hthread]) (by simp [hthread]) rfl
      apply Worker.Step.thread <;> simp [hthread]
    · obtain rfl := Option.some.inj hnext
      apply h.leave hw _ (by simp [hthread]) (by simp [hthread]) rfl
      apply Worker.Step.thread <;> simp [hthread]
  | leaving discarded =>
    cases discarded with
    | some job =>
      simp only [hthread] at hnext
      obtain rfl := Option.some.inj hnext
      have hreply : s.Follows (s.setReply job .dropped) := h.setReply fun _ hsent => by cases hsent
      apply hreply.trans
      apply hreply.sound.goOn hw _ (by simp [hthread]) (by simp)
      apply Worker.Step.thread <;> simp [hthread]
    | none =>
      simp only [hthread] at hnext
      obtain rfl := Option.some.inj hnext
      apply h.release hw _ (by simp [hthread]) rfl rfl
      apply Worker.Step.thread <;> simp [hthread]
  | released =>
    simp only [hthread] at hnext
    obtain rfl := Option.some.inj hnext
    have hdrop := h.dropJobs w.queue
    apply hdrop.trans
    exact hdrop.sound.goOn hw (.finalize hthread) (by simp [hthread]) (by simp)
  | _ =>
    simp only [hthread] at hnext
    cases hnext

theorem panics_follows (h : s.Sound) (hw : s.workers[i]? = some w)
    (hnext : panics s i w = some t) : s.Follows t := by
  unfold panics at hnext
  cases hthread : w.thread with
  | creating =>
    simp only [hthread] at hnext
    obtain rfl := Option.some.inj hnext
    apply h.leave hw _ (by simp [hthread]) (by simp [hthread]) rfl
    apply Worker.Step.thread <;> simp [hthread]
  | running job =>
    simp only [hthread] at hnext
    obtain rfl := Option.some.inj hnext
    have hreply : s.Follows (s.setReply job .dropped) := h.setReply fun _ hsent => by cases hsent
    have hstep : w.Step { w with
        thread := .leaving none, ended := w.ended ++ [job], completed := w.completed ++ [] } :=
      .finish hthread rfl rfl rfl (fun _ h => by cases h) List.nodup_nil (fun _ _ h => by cases h)
    rw [List.append_nil] at hstep
    exact hreply.trans (hreply.sound.leave hw hstep (by simp [hthread]) (by simp [hthread]) rfl true)
  | _ =>
    simp only [hthread] at hnext
    cases hnext

theorem receiveReady_follows (h : s.Sound) (hw : s.workers[i]? = some w)
    (hnext : receiveReady s i w = some t) : s.Follows t := by
  have hopening : ∀ opening, s.Follows (s.setWorker i { w with opening }) := fun opening =>
    h.goOn hw (.opening id) rfl id
  unfold receiveReady at hnext
  split at hnext
  · split at hnext
    · exact Option.some.inj hnext ▸ hopening _
    · exact Option.some.inj hnext ▸ hopening _
    · split at hnext
      · exact Option.some.inj hnext ▸ hopening _
      · cases hnext
  · cases hnext

/-- A call hands its job over: it has not been in the queue before. -/
theorem push_follows (h : s.Sound) (hphase : (s.calls k).phase = .admitted)
    (hw : s.workers[(s.calls k).worker]? = some w) :
    s.Follows ((s.setPhase k .waiting).setWorker (s.calls k).worker
      { w with queue := w.queue ++ [k], queued := w.queued ++ [k] }) := by
  have hsound := h.workers _ w hw
  have hnew : k ∉ w.queued := by
    intro hmem
    have hsent := (h.sent _ w hw k hmem).2
    rw [hphase] at hsent
    cases hsent
  have hphase' : s.Follows (s.setPhase k .waiting) := by
    apply h.setPhase _ (fun _ h => by cases h) (fun _ h => by cases h)
    intro hsent
    rw [hphase] at hsent
    cases hsent
  have hlater : w.Later { w with queue := w.queue ++ [k], queued := w.queued ++ [k] } :=
    { Worker.Later.refl w with queued := List.prefix_append _ _ }
  have hpushed : ({ w with queue := w.queue ++ [k], queued := w.queued ++ [k] } : Worker α).Sound :=
    { hsound with
      order := by
        intro hin
        rw [h.workers _ w hw |>.order hin]
        simp
      started := hsound.started.trans (List.prefix_append _ _)
      nodup := List.nodup_append.mpr ⟨hsound.nodup, by simp, by
        intro a ha b hb hab
        rw [List.mem_singleton.mp hb] at hab
        exact hnew (hab ▸ ha)⟩ }
  apply hphase'.trans
  refine hphase'.sound.move s.gates s.active hw hlater hpushed rfl h.bound
    (fun _ _ _ h => h) (fun hholds => h.gates _ w hw hholds) ?_
  intro j hj
  rcases List.mem_append.mp hj with hold | hlast
  · exact hphase'.sound.sent _ w hw j hold
  · rw [List.mem_singleton.mp hlast]
    rw [System.setPhase, System.setCall_calls_self]
    exact ⟨rfl, rfl⟩

theorem trySend_follows (h : s.Sound) (hphase : (s.calls k).phase = .admitted)
    (hw : s.workers[(s.calls k).worker]? = some w) :
    s.Follows (trySend s k (s.calls k) w) := by
  have hunsent : ∀ {phase : Phase α}, (s.calls k).phase.isSent = true → phase.isSent = true := by
    intro phase hsent
    rw [hphase] at hsent
    cases hsent
  unfold trySend
  cases hended : w.thread.hasEnded with
  | true =>
    rw [if_pos rfl]
    apply h.setPhase hunsent (fun _ h => by cases h)
    intro _ _ _
    exact ⟨w, hw, .inr hended⟩
  | false =>
    rw [if_neg (by simp)]
    split
    · apply h.setPhase hunsent (fun _ h => by cases h)
      intro outcome hreturned hfinal
      obtain rfl := Phase.returned.inj hreturned
      cases hfinal
    · exact push_follows h hphase hw

theorem proceed_follows (h : s.Sound) (hw : s.workers[(s.calls k).worker]? = some w)
    (hnext : proceed s k (s.calls k) w = some t) : s.Follows t := by
  unfold proceed at hnext
  cases hphase : (s.calls k).phase with
  | called =>
    simp only [hphase] at hnext
    have hunsent : ∀ {phase : Phase α}, (s.calls k).phase.isSent = true → phase.isSent = true := by
      intro phase hsent
      rw [hphase] at hsent
      cases hsent
    split at hnext
    · next hfailed =>
      obtain rfl := Option.some.inj hnext
      apply h.setPhase hunsent (fun _ h => by cases h)
      intro _ _ _
      exact ⟨w, hw, .inl hfailed⟩
    · obtain rfl := Option.some.inj hnext
      exact h.setPhase hunsent (fun _ h => by cases h) (fun _ h => by cases h)
  | admitted =>
    simp only [hphase] at hnext
    obtain rfl := Option.some.inj hnext
    exact trySend_follows h hphase hw
  | waiting =>
    simp only [hphase] at hnext
    split at hnext
    · next answer hreply =>
      obtain rfl := Option.some.inj hnext
      apply h.setPhase (fun _ => rfl)
      · intro answer' hreturned
        obtain rfl : answer = answer' := Outcome.answered.inj (Phase.returned.inj hreturned)
        exact (h.calls k).sent answer hreply
      · intro outcome hreturned hfinal
        obtain rfl := Phase.returned.inj hreturned
        cases hfinal
    · obtain rfl := Option.some.inj hnext
      exact h.setPhase (fun _ => rfl) (fun _ h => by cases h) (fun _ h => by cases h)
    · cases hnext
  | failing e =>
    simp only [hphase] at hnext
    obtain rfl := Option.some.inj hnext
    have hfailed : s.Follows (s.setWorker (s.calls k).worker { w with failed := true }) :=
      h.goOn hw (.opening fun _ => rfl) rfl id
    apply hfailed.trans
    apply hfailed.sound.setPhase (fun _ => rfl) (fun _ h => by cases h)
    intro _ _ _
    exact ⟨{ w with failed := true }, getElem?_set_slot_self hw, .inl rfl⟩
  | _ =>
    simp only [hphase] at hnext
    cases hnext

theorem setReader_follows (h : s.Sound) {r : Nat} {reader reader' : Reader α}
    (hr : s.readers[r]? = some reader)
    (hpermit : reader'.thread.hasPermit = reader.thread.hasPermit) :
    s.Follows (s.setReader r reader') := by
  have hcount := countP_set_slot (b := reader') (p := fun r => r.thread.hasPermit) hr
  rw [hpermit] at hcount
  exact h.setReaders s.active (s.readers.set r reader') (by omega) h.bound

theorem releaseReader_follows (h : s.Sound) {r : Nat} {reader reader' : Reader α}
    (hr : s.readers[r]? = some reader) (hheld : reader.thread.hasPermit = true)
    (hgone : reader'.thread.hasPermit = false) :
    s.Follows ((Storage.release s).setReader r reader') := by
  have hcount := countP_set_slot (b := reader') (p := fun r => r.thread.hasPermit) hr
  simp only [hheld, hgone, Bool.toNat_true, Bool.toNat_false] at hcount
  have hactive := h.active
  have hbound := h.bound
  unfold System.permits at hactive
  exact h.setReaders (s.active - 1) (s.readers.set r reader') (by omega) (by omega)

theorem next_follows (h : s.Sound) {e : Event α} (hnext : next s e = some t) : s.Follows t := by
  cases e with
  | «open» path =>
    obtain rfl := Option.some.inj hnext
    exact addWorker_follows h path
  | reserve i =>
    obtain ⟨w, hw, hnext⟩ := Option.bind_eq_some_iff.mp hnext
    cases hthread : w.thread with
    | gated =>
      simp only [hthread] at hnext
      unfold reserve at hnext
      by_cases hlimit : s.active < s.limit
      · rw [if_pos hlimit] at hnext
        obtain rfl := Option.some.inj hnext
        apply h.reserve hw _ hlimit (by simp [hthread]) rfl rfl
        apply Worker.Step.thread <;> simp [hthread]
      · rw [if_neg hlimit] at hnext
        obtain rfl := Option.some.inj hnext
        apply h.goOn hw _ (by simp [hthread]) (by simp)
        apply Worker.Step.thread <;> simp [hthread]
    | _ =>
      simp only [hthread] at hnext
      cases hnext
  | spawn i ok =>
    obtain ⟨w, hw, hnext⟩ := Option.bind_eq_some_iff.mp hnext
    cases hthread : w.thread with
    | reserved =>
      simp only [hthread] at hnext
      split at hnext
      · obtain rfl := Option.some.inj hnext
        apply h.goOn hw _ (by simp [hthread]) (by simp)
        apply Worker.Step.thread <;> simp [hthread]
      · obtain rfl := Option.some.inj hnext
        apply h.release hw _ (by simp [hthread]) rfl rfl
        apply Worker.Step.thread <;> simp [hthread]
    | _ =>
      simp only [hthread] at hnext
      cases hnext
  | receiveReady i =>
    obtain ⟨w, hw, hnext⟩ := Option.bind_eq_some_iff.mp hnext
    exact receiveReady_follows h hw hnext
  | readyTimedOut i =>
    obtain ⟨w, hw, hnext⟩ := Option.bind_eq_some_iff.mp hnext
    split at hnext
    · obtain rfl := Option.some.inj hnext
      exact h.goOn hw (.opening id) rfl id
    · cases hnext
  | close i =>
    obtain ⟨w, hw, hnext⟩ := Option.bind_eq_some_iff.mp hnext
    split at hnext
    · obtain rfl := Option.some.inj hnext
      exact h.goOn hw (.opening fun _ => rfl) rfl id
    · obtain rfl := Option.some.inj hnext
      exact h.goOn hw (.opening id) rfl id
    · cases hnext
  | drop i =>
    obtain ⟨w, hw, hnext⟩ := Option.bind_eq_some_iff.mp hnext
    split at hnext
    · obtain rfl := Option.some.inj hnext
      exact h.goOn hw (.opening fun _ => rfl) rfl id
    · cases hnext
  | advance i =>
    obtain ⟨w, hw, hnext⟩ := Option.bind_eq_some_iff.mp hnext
    exact advance_follows h hw hnext
  | created i result =>
    obtain ⟨w, hw, hnext⟩ := Option.bind_eq_some_iff.mp hnext
    cases hthread : w.thread with
    | creating =>
      simp only [hthread] at hnext
      obtain rfl := Option.some.inj hnext
      apply h.leave hw _ (by simp [hthread]) (by simp [hthread]) rfl
      apply Worker.Step.thread <;> simp [hthread]
    | _ =>
      simp only [hthread] at hnext
      cases hnext
  | completes i answer =>
    obtain ⟨w, hw, hnext⟩ := Option.bind_eq_some_iff.mp hnext
    cases hthread : w.thread with
    | running job =>
      simp only [hthread] at hnext
      obtain rfl := Option.some.inj hnext
      apply h.goOn hw _ (by simp [hthread]) (by simp [hthread])
      apply Worker.Step.finish hthread rfl rfl rfl
      · intro p hp
        rw [List.mem_singleton.mp hp]
      · simp
      · intro j a hdone
        cases hdone
        exact List.mem_singleton.mpr rfl
    | _ =>
      simp only [hthread] at hnext
      cases hnext
  | panics i =>
    obtain ⟨w, hw, hnext⟩ := Option.bind_eq_some_iff.mp hnext
    exact panics_follows h hw hnext
  | call k i =>
    obtain ⟨w, hw, hnext⟩ := Option.bind_eq_some_iff.mp hnext
    split at hnext
    · next hserving hidle =>
      obtain rfl := Option.some.inj hnext
      apply h.setCall
      · intro hsent
        rw [hidle] at hsent
        cases hsent
      · have hcall : (s.setCall k ⟨i, .called, .pending⟩).calls k = ⟨i, .called, .pending⟩ :=
          System.setCall_calls_self _ _ _
        exact {
          sent := fun _ h' => by rw [hcall] at h'; cases h'
          answered := fun _ h' => by rw [hcall] at h'; cases h'
          final := fun _ h' => by rw [hcall] at h'; cases h' }
    · cases hnext
  | proceed k =>
    obtain ⟨w, hw, hnext⟩ := Option.bind_eq_some_iff.mp hnext
    exact proceed_follows h hw hnext
  | timesOut k =>
    simp only [next] at hnext
    split at hnext
    · obtain rfl := Option.some.inj hnext
      exact h.setPhase (fun _ => rfl) (fun _ h => by cases h) (fun _ h => by cases h)
    · cases hnext
  | execute =>
    simp only [next, reserve] at hnext
    by_cases hlimit : s.active < s.limit
    · rw [if_pos hlimit] at hnext
      obtain rfl := Option.some.inj hnext
      apply h.setReaders (s.active + 1) _ _ hlimit
      simp
      omega
    · rw [if_neg hlimit] at hnext
      obtain rfl := Option.some.inj hnext
      apply h.setReaders s.active _ _ h.bound
      simp
  | spawnReader r ok =>
    obtain ⟨reader, hr, hnext⟩ := Option.bind_eq_some_iff.mp hnext
    cases hthread : reader.thread with
    | reserved =>
      simp only [hthread] at hnext
      split at hnext
      · obtain rfl := Option.some.inj hnext
        exact setReader_follows h hr (by simp [hthread])
      · obtain rfl := Option.some.inj hnext
        exact releaseReader_follows h hr (by simp [hthread]) rfl
    | _ =>
      simp only [hthread] at hnext
      cases hnext
  | readEnds r answer =>
    obtain ⟨reader, hr, hnext⟩ := Option.bind_eq_some_iff.mp hnext
    split at hnext
    · next hthread _ =>
      obtain rfl := Option.some.inj hnext
      exact setReader_follows h hr (by simp [hthread])
    · next hthread _ =>
      obtain rfl := Option.some.inj hnext
      exact setReader_follows h hr (by simp [hthread])
    · cases hnext
  | readReleased r =>
    obtain ⟨reader, hr, hnext⟩ := Option.bind_eq_some_iff.mp hnext
    split at hnext
    · next hthread =>
      obtain rfl := Option.some.inj hnext
      exact releaseReader_follows h hr (by simp [hthread]) rfl
    · cases hnext
  | readReturns r =>
    obtain ⟨reader, hr, hnext⟩ := Option.bind_eq_some_iff.mp hnext
    split at hnext
    · obtain rfl := Option.some.inj hnext
      exact setReader_follows h hr rfl
    · obtain rfl := Option.some.inj hnext
      exact setReader_follows h hr rfl
    · cases hnext
  | readTimesOut r =>
    obtain ⟨reader, hr, hnext⟩ := Option.bind_eq_some_iff.mp hnext
    split at hnext
    · cases hnext
    · cases hnext
    · obtain rfl := Option.some.inj hnext
      exact setReader_follows h hr rfl
    · cases hnext

end Next

end Storage

end Host

end AgentBridge
