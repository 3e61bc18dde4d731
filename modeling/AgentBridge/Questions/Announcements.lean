import AgentBridge.Questions.Frames
import AgentBridge.Reasoning.Slots
import Mathlib.Data.List.Nodup

/-!
# What the host announces of its questions

The frames that a host emits are lawful: an invariant ties each task to the frames that its question
has had so far.  A host that stops may lose a frame, so what is announced is announced or the host has
stopped.
-/

namespace AgentBridge

open Reasoning

namespace Host

namespace Questions

variable {ν : Type}

/-- The question that a task asks, by its place. -/
def Task.asker : Task ν → Option Nat
  | .opened q => some q
  | .waiting q => some q
  | .woken q => some q
  | .resolved q => some q
  | .lingering q => some q
  | _ => none

/-- The first access of a request that comes in. -/
def Task.isRequest : Task ν → Bool
  | .asking _ _ => true
  | .answering _ => true
  | .listing _ => true
  | _ => false

namespace Service

variable {s t : Service ν}

def views (s : Service ν) : List QuestionView := s.questions.map Entry.frame

/-- What is true of the question of a task and the frames so far. -/
def Fits (s : Service ν) : Task ν → Prop
  | .asking owner _ => .toolCall owner ∈ s.emitted
  | .opened q => ∀ v, s.views[q]? = some v → .questionOpened v ∉ s.emitted ∧
      ∀ o, .questionClosed v.questionId o ∉ s.emitted
  | .listed views => ∀ v ∈ views, v ∈ s.views
  | task => ∀ q v, task.asker = some q → s.views[q]? = some v →
      .questionOpened v ∈ s.emitted ∨ s.stopped = true

structure Announced (s : Service ν) : Prop where
  calls : (s.calls.map (·.owner.call)).Nodup
  called : ∀ owner, .toolCall owner ∈ s.emitted →
    ∃ call ∈ s.calls, call.owner = owner ∧ call.stage ≠ .admitted ∧ call.stage ≠ .pending
  ids : (s.views.map (·.questionId)).Nodup
  asked : ∀ v ∈ s.views, .toolCall v.owner ∈ s.emitted
  /-- A question is asked by one task. -/
  askers : ∀ (k k' : Nat) (a b : Task ν) (q : Nat), s.tasks[k]? = some a → s.tasks[k']? = some b →
    a.asker = some q → b.asker = some q → k = k'
  places : ∀ task ∈ s.tasks, ∀ q, task.asker = some q → q < s.views.length
  mentioned : ∀ v, Mentioned s.emitted v → v ∈ s.views
  closed : ∀ id o, .questionClosed id o ∈ s.emitted →
    ∃ v ∈ s.views, v.questionId = id ∧ v.owner = o ∧
      (.questionOpened v ∈ s.emitted ∨ s.stopped = true)
  lawful : Lawful s.emitted

/-! ## What a task can do -/

/-- The next access of a task, by what it does to the service. -/
inductive Moved (s : Service ν) (k : Nat) : Task ν → Service ν → Prop
  | ended {task : Task ν} : task.asker = none → Moved s k task (s.setTask k .finished)
  /-- `open` fails after it went through the map. -/
  | refused (owner : QuestionOwner) (params : JsonTree ν) :
      Moved s k (.asking owner params) (s.retain.setTask k .finished)
  | opens (params : JsonTree ν) (entry : Entry) : (∀ e ∈ s.questions, e.id ≠ entry.id) →
      entry.resolved = false → entry.live = true → s.isCancelled entry.owner.call = false →
      s.stopped = false → s.retain.isFull entry.owner.call = false →
      Moved s k (.asking entry.owner params)
        { s.retain.setTask k (.opened s.retain.questions.length) with
          questions := s.retain.questions ++ [entry] }
  | announces (q : Nat) (entry : Entry) (room : Bool) : s.questions[q]? = some entry →
      Moved s k (.opened q) ((s.emit room (.questionOpened entry.frame)).setTask k (.waiting q))
  | wakes (q : Nat) (entry : Entry) (answer : Option (Answerer × AnswerOutcome)) :
      s.questions[q]? = some entry →
      Moved s k (.waiting q) ((s.setEntry q { entry with answer }).setTask k (.woken q))
  /-- The host has stopped: the task ends, the entry stays. -/
  | gives (q : Nat) (entry : Entry) (answer : Option (Answerer × AnswerOutcome)) :
      s.questions[q]? = some entry →
      Moved s k (.waiting q) ((s.setEntry q { entry with answer }).setTask k .finished)
  | resolves (q : Nat) (entry : Entry) : s.questions[q]? = some entry →
      Moved s k (.woken q) ((s.setEntry q { entry with resolved := true }).setTask k (.resolved q))
  | closes (q : Nat) (entry : Entry) (room : Bool) : s.questions[q]? = some entry →
      Moved s k (.resolved q)
        ((s.emit room (.questionClosed entry.id entry.owner)).setTask k (.lingering q))
  | leaves (q : Nat) (entry : Entry) : s.questions[q]? = some entry →
      s.isCancelled entry.owner.call = true ∨ s.stopped = true →
      Moved s k (.lingering q) ((s.setEntry q { entry with live := false }).setTask k .finished)
  | finds (q : Nat) (params : JsonTree ν) : s.find params = some q →
      Moved s k (.answering params) (s.setTask k (.found q params))
  | checks (q : Nat) (entry : Entry) (params : JsonTree ν) (outcome : AnswerOutcome) :
      s.questions[q]? = some entry → s.matchesParams entry params = true →
      Moved s k (.found q params) (s.setTask k (.checked q params outcome))
  /-- The same answer is there already. -/
  | repeats (q : Nat) (params : JsonTree ν) (outcome : AnswerOutcome) :
      Moved s k (.checked q params outcome) (s.setTask k (.answered q))
  | stores (q : Nat) (entry : Entry) (params : JsonTree ν) (outcome : AnswerOutcome) :
      s.questions[q]? = some entry → entry.answer = none →
      Moved s k (.checked q params outcome)
        { (s.setEntry q { entry with answer := some (.user, outcome) }).setTask k (.answered q) with
          stored := s.stored ++ [(q, params)] }
  | flags (q : Nat) (entry : Entry) : s.questions[q]? = some entry →
      Moved s k (.answered q) ((s.setEntry q { entry with resolved := true }).setTask k .finished)
  | lists (params : JsonTree ν) :
      Moved s k (.listing params) (s.setTask k (.listed (s.pendingViews params)))
  | replies (views : List QuestionView) (room : Bool) :
      Moved s k (.listed views) ((s.emit room (.pendingReply views)).setTask k .finished)

theorem moved_of_open {readers : Readers ν} {k : Nat} {owner : QuestionOwner}
    {params : JsonTree ν} {input : Input} (hid : s.questions.any (·.id == input.id) = false) :
    Moved s k (.asking owner params) (openQuestion readers s k owner params input) := by
  unfold openQuestion
  split
  · exact .ended rfl
  rename_i definition _
  dsimp only
  split
  · exact .refused owner params
  rename_i hopen
  simp only [Bool.or_eq_true, not_or, Bool.not_eq_true] at hopen
  obtain ⟨⟨hcancelled, hstopped⟩, hfull⟩ := hopen
  split
  · exact .refused owner params
  rename_i revision _
  refine .opens params ⟨input.id, revision, owner, definition, false, none, true⟩ (fun e he => ?_)
    rfl rfl hcancelled hstopped hfull
  simpa using List.any_eq_false.mp hid e he

theorem moved_of_wake {k q : Nat} {entry : Entry} {input : Input}
    (hentry : s.questions[q]? = some entry) (h : s.wake k q entry input = some t) :
    Moved s k (.waiting q) t := by
  unfold wake at h
  split at h
  · obtain rfl := Option.some.inj h
    have hsame : s.setEntry q { entry with answer := entry.answer } = s := by
      obtain ⟨hlt, rfl⟩ := List.getElem?_eq_some_iff.mp hentry
      show { s with questions := s.questions.set q s.questions[q] } = s
      rw [List.set_getElem_self]
    have hmoved := Moved.wakes (k := k) q entry entry.answer hentry
    rwa [hsame] at hmoved
  split at h
  · obtain rfl := Option.some.inj h
    exact .wakes q entry _ hentry
  split at h
  · obtain rfl := Option.some.inj h
    exact .gives q entry _ hentry
  · cases h

theorem advance_moved {readers : Readers ν} {k : Nat} {input : Input}
    (h : s.advance readers k input = some t) :
    ∃ task, s.tasks[k]? = some task ∧ Moved s k task t := by
  unfold advance at h
  cases hk : s.tasks[k]? with
  | none =>
    rw [hk] at h
    cases h
  | some task =>
    refine ⟨task, rfl, ?_⟩
    simp only [hk, Option.bind_eq_bind, Option.bind_some] at h
    cases task with
    | asking owner params =>
      dsimp only at h
      split at h
      · cases h
      · rename_i hid
        exact Option.some.inj h ▸ moved_of_open (Bool.eq_false_iff.mpr hid)
    | opened q =>
      obtain ⟨entry, hentry, h⟩ := Option.bind_eq_some_iff.mp h
      exact Option.some.inj h ▸ .announces q entry input.room hentry
    | waiting q =>
      obtain ⟨entry, hentry, h⟩ := Option.bind_eq_some_iff.mp h
      exact moved_of_wake hentry h
    | woken q =>
      obtain ⟨entry, hentry, h⟩ := Option.bind_eq_some_iff.mp h
      exact Option.some.inj h ▸ .resolves q entry hentry
    | resolved q =>
      obtain ⟨entry, hentry, h⟩ := Option.bind_eq_some_iff.mp h
      exact Option.some.inj h ▸ .closes q entry input.room hentry
    | lingering q =>
      obtain ⟨entry, hentry, h⟩ := Option.bind_eq_some_iff.mp h
      split at h
      · rename_i hends
        exact Option.some.inj h ▸ .leaves q entry hentry (by simpa using hends)
      · cases h
    | answering params =>
      dsimp only at h
      split at h
      · exact Option.some.inj h ▸ .ended rfl
      · rename_i q hfind
        exact Option.some.inj h ▸ .finds q params hfind
    | found q params =>
      obtain ⟨entry, hentry, h⟩ := Option.bind_eq_some_iff.mp h
      split at h
      · exact Option.some.inj h ▸ .ended rfl
      · rename_i hmatches
        split at h
        · exact Option.some.inj h ▸ .ended rfl
        · rename_i outcome _
          exact Option.some.inj h ▸ .checks q entry params outcome hentry (by simpa using hmatches)
    | checked q params outcome =>
      obtain ⟨entry, hentry, h⟩ := Option.bind_eq_some_iff.mp h
      obtain rfl := Option.some.inj h
      unfold storeAnswer
      split
      · split
        · exact .repeats q params outcome
        · exact .ended rfl
      · rename_i hnone
        split
        · exact .stores q entry params outcome hentry hnone
        · exact .ended rfl
    | answered q =>
      obtain ⟨entry, hentry, h⟩ := Option.bind_eq_some_iff.mp h
      exact Option.some.inj h ▸ .flags q entry hentry
    | listing params => exact Option.some.inj h ▸ .lists params
    | listed views => exact Option.some.inj h ▸ .replies views input.room
    | finished => cases h

/-! ## What a step can do -/

/-- A step that concerns calls alone. -/
structure CallStep (s t : Service ν) : Prop where
  questions : t.questions = s.questions
  tasks : t.tasks = s.tasks
  stored : t.stored = s.stored
  emitted : s.emitted <+: t.emitted
  stopped : s.stopped = true → t.stopped = true
  cancelled : ∀ call, s.isCancelled call = true → t.isCancelled call = true

theorem CallStep.refl (s : Service ν) : CallStep s s :=
  ⟨rfl, rfl, rfl, List.prefix_rfl, id, fun _ => id⟩

theorem CallStep.emit (h : CallStep s t) (room : Bool) (f : Frame) : CallStep s (t.emit room f) := by
  cases room with
  | false => exact ⟨h.questions, h.tasks, h.stored, h.emitted, fun _ => rfl, h.cancelled⟩
  | true =>
    exact ⟨h.questions, h.tasks, h.stored, h.emitted.trans (List.prefix_append _ _), h.stopped,
      h.cancelled⟩

theorem callStep_setStage {i : Nat} {call : HostCall} {stage : CallStage}
    (hget : s.calls[i]? = some call)
    (hstage : call.stage.isCancelled = true → stage.isCancelled = true) :
    CallStep s (s.setStage i call stage) := by
  refine ⟨rfl, rfl, rfl, List.prefix_rfl, id, fun id hid => ?_⟩
  obtain ⟨c, hc, hcancelled⟩ := List.any_eq_true.mp hid
  rw [Bool.and_eq_true, beq_iff_eq] at hcancelled
  obtain ⟨j, hj⟩ := List.mem_iff_getElem?.mp hc
  have hset := @getElem?_set_slot HostCall s.calls i j call { call with stage } hget
  refine List.any_eq_true.mpr ?_
  by_cases hij : i = j
  · subst hij
    obtain rfl := Option.some.inj (hget.symm.trans hj)
    refine ⟨_, List.mem_of_getElem? (hset.trans (if_pos rfl)), ?_⟩
    rw [Bool.and_eq_true, beq_iff_eq]
    exact ⟨hcancelled.1, hstage hcancelled.2⟩
  · refine ⟨c, List.mem_of_getElem? ((hset.trans (if_neg hij)).trans hj), ?_⟩
    rw [Bool.and_eq_true, beq_iff_eq]
    exact hcancelled

/-- A step of the service: of a call, of a request that comes in, or of a task. -/
inductive Stepped (s t : Service ν) : Prop
  | call : CallStep s t → Stepped s t
  | dispatched (task : Task ν) : t = s.dispatch task → Stepped s t
  | moved (k : Nat) (task : Task ν) : s.tasks[k]? = some task → Moved s k task t → Stepped s t

/-- What happens outside of the tasks. -/
theorem next_outside {readers : Readers ν} {e : Event ν}
    (hnext : Service.next readers s e = some t) (houtside : ∀ k input, e ≠ .advance k input) :
    CallStep s t ∨ ∃ task, t = s.dispatch task ∧ task.isRequest = true := by
  cases e with
  | invoke owner =>
    left
    simp only [Service.next] at hnext
    split at hnext
    · cases hnext
    split at hnext
    · obtain rfl := Option.some.inj hnext
      refine ⟨rfl, rfl, rfl, List.prefix_rfl, id, fun call hcall => ?_⟩
      obtain ⟨c, hc, hcancelled⟩ := List.any_eq_true.mp hcall
      exact List.any_eq_true.mpr ⟨c, List.mem_append_left _ hc, hcancelled⟩
    · exact Option.some.inj hnext ▸ .refl s
  | access i room =>
    obtain ⟨call, hget, hnext⟩ := Option.bind_eq_some_iff.mp hnext
    left
    split at hnext
    · rename_i hstage
      exact Option.some.inj hnext ▸ callStep_setStage hget (by simp [hstage, CallStage.isCancelled])
    · rename_i hstage
      exact Option.some.inj hnext ▸
        (callStep_setStage hget (by simp [hstage, CallStage.isCancelled])).emit room _
    · exact Option.some.inj hnext ▸ callStep_setStage hget fun _ => rfl
    · exact Option.some.inj hnext ▸ callStep_setStage hget fun _ => rfl
    · exact Option.some.inj hnext ▸ (callStep_setStage hget fun _ => rfl).emit room _
    · exact Option.some.inj hnext ▸ callStep_setStage hget fun _ => rfl
    · cases hnext
  | reply i =>
    obtain ⟨call, hget, hnext⟩ := Option.bind_eq_some_iff.mp hnext
    left
    split at hnext
    · rename_i hstage
      exact Option.some.inj hnext ▸
        callStep_setStage hget (by simp [hstage, CallStage.isCancelled])
    · cases hnext
  | cancel i settled =>
    obtain ⟨call, hget, hnext⟩ := Option.bind_eq_some_iff.mp hnext
    left
    split at hnext
    · exact Option.some.inj hnext ▸ callStep_setStage hget fun _ => rfl
    · exact Option.some.inj hnext ▸ callStep_setStage hget fun _ => rfl
    · exact Option.some.inj hnext ▸ callStep_setStage hget fun _ => rfl
    · cases hnext
  | ask params =>
    simp only [Service.next] at hnext
    split at hnext
    · exact Or.inl (Option.some.inj hnext ▸ .refl s)
    · exact Or.inr ⟨_, (Option.some.inj hnext).symm, rfl⟩
  | answer params => exact Or.inr ⟨_, (Option.some.inj hnext).symm, rfl⟩
  | pending params => exact Or.inr ⟨_, (Option.some.inj hnext).symm, rfl⟩
  | advance k input => exact absurd rfl (houtside k input)
  | stop =>
    exact Or.inl (Option.some.inj hnext ▸
      ⟨rfl, rfl, rfl, List.prefix_rfl, fun _ => rfl, fun _ => id⟩)

theorem next_stepped {readers : Readers ν} {e : Event ν}
    (hnext : Service.next readers s e = some t) : Stepped s t := by
  by_cases hadvance : ∃ k input, e = .advance k input
  · obtain ⟨k, input, rfl⟩ := hadvance
    obtain ⟨task, hget, hmoved⟩ := advance_moved hnext
    exact .moved k task hget hmoved
  · rcases next_outside hnext fun k input heq => hadvance ⟨k, input, heq⟩ with hcall | ⟨task, heq, -⟩
    · exact .call hcall
    · exact .dispatched task heq

/-- The output only grows. -/
theorem Stepped.emitted_grows (h : Stepped s t) : s.emitted <+: t.emitted := by
  have hemit : ∀ (room : Bool) (f : Frame), s.emitted <+: (s.emit room f).emitted :=
    fun room f => ((CallStep.refl s).emit room f).emitted
  cases h with
  | call hcall => exact hcall.emitted
  | dispatched task heq =>
    rw [heq, Service.dispatch]
    split <;> exact List.prefix_rfl
  | moved k task hget hmoved =>
    cases hmoved with
    | announces q entry room _ => exact hemit room _
    | closes q entry room _ => exact hemit room _
    | replies views room => exact hemit room _
    | _ => exact List.prefix_rfl

/-! ## The parts of a step -/

@[simp] theorem views_setTask {k : Nat} {task : Task ν} : (s.setTask k task).views = s.views := rfl

@[simp] theorem views_setStage {i : Nat} {call : HostCall} {stage : CallStage} :
    (s.setStage i call stage).views = s.views := rfl

theorem views_setEntry {q : Nat} {entry entry' : Entry} (hget : s.questions[q]? = some entry)
    (hframe : entry'.frame = entry.frame) : (s.setEntry q entry').views = s.views := by
  obtain ⟨hlt, rfl⟩ := List.getElem?_eq_some_iff.mp hget
  show (s.questions.set q entry').map Entry.frame = s.questions.map Entry.frame
  rw [List.map_set, hframe, ← List.map_set, List.set_getElem_self]

@[simp] theorem views_retain : s.retain.views = s.views := by
  show (s.questions.map _).map Entry.frame = s.questions.map Entry.frame
  rw [List.map_map]
  rfl

theorem views_get {q : Nat} {entry : Entry} (hget : s.questions[q]? = some entry) :
    s.views[q]? = some entry.frame := by
  rw [views, List.getElem?_map, hget]
  rfl

/-- What a task relies on stays as frames follow that are not about its question. -/
theorem Fits.mono {task : Task ν} (h : s.Fits task) (hviews : ∀ v ∈ s.views, v ∈ t.views)
    (hget : ∀ q v, task.asker = some q → t.views[q]? = some v → s.views[q]? = some v)
    (hemitted : ∀ f ∈ s.emitted, f ∈ t.emitted) (hstopped : s.stopped = true → t.stopped = true)
    (hopened : ∀ q v, task = .opened q → s.views[q]? = some v → .questionOpened v ∈ t.emitted →
      .questionOpened v ∈ s.emitted)
    (hclosed : ∀ q v o, task = .opened q → s.views[q]? = some v →
      .questionClosed v.questionId o ∈ t.emitted → .questionClosed v.questionId o ∈ s.emitted) :
    t.Fits task := by
  cases task with
  | asking owner params => exact hemitted _ h
  | opened q =>
    intro v hv
    have hs := hget q v rfl hv
    exact ⟨fun hmem => (h v hs).1 (hopened q v rfl hs hmem),
      fun o hmem => (h v hs).2 o (hclosed q v o rfl hs hmem)⟩
  | listed views => exact fun v hv => hviews v (h v hv)
  | waiting | woken | resolved | lingering =>
    intro q v hq hv
    exact (h q v hq (hget q v hq hv)).imp (hemitted _) hstopped
  | answering | found | checked | answered | listing | finished => exact nofun

/-- The task at a place is followed by one that asks nothing else. -/
theorem Announced.setTask (h : s.Announced) {k : Nat} {task next : Task ν}
    (hget : s.tasks[k]? = some task) (hasker : ∀ q, next.asker = some q → task.asker = some q) :
    (s.setTask k next).Announced where
  calls := h.calls
  called := h.called
  ids := h.ids
  asked := h.asked
  askers i j a b q hi hj ha hb := by
    have hi' : (s.tasks.set k next)[i]? = some a := hi
    have hj' : (s.tasks.set k next)[j]? = some b := hj
    rw [getElem?_set_slot hget] at hi' hj'
    split at hi' <;> split at hj'
    · omega
    · obtain rfl := Option.some.inj hi'
      subst k
      exact h.askers i j task b q hget hj' (hasker q ha) hb
    · obtain rfl := Option.some.inj hj'
      subst k
      exact h.askers i j a task q hi' hget ha (hasker q hb)
    · exact h.askers i j a b q hi' hj' ha hb
  places a ha q hq := by
    rcases List.mem_or_eq_of_mem_set ha with ha | rfl
    · exact h.places a ha q hq
    · exact h.places task (List.mem_of_getElem? hget) q (hasker q hq)
  mentioned := h.mentioned
  closed := h.closed
  lawful := h.lawful

/-- Entries may change in what their frames do not say. -/
theorem Announced.of_views (h : s.Announced) (hcalls : t.calls = s.calls)
    (hviews : t.views = s.views) (htasks : t.tasks = s.tasks) (hemitted : t.emitted = s.emitted)
    (hstopped : s.stopped = true → t.stopped = true) : t.Announced where
  calls := hcalls ▸ h.calls
  called := by rw [hcalls, hemitted]; exact h.called
  ids := hviews ▸ h.ids
  asked := by rw [hviews, hemitted]; exact h.asked
  askers := by rw [htasks]; exact h.askers
  places := by rw [htasks, hviews]; exact h.places
  mentioned := by rw [hemitted, hviews]; exact h.mentioned
  closed id o hmem := by
    obtain ⟨v, hv, hid, ho, hopened⟩ := h.closed id o (hemitted ▸ hmem)
    refine ⟨v, hviews ▸ hv, hid, ho, ?_⟩
    rw [hemitted]
    exact hopened.imp_right hstopped
  lawful := hemitted ▸ h.lawful

theorem Announced.setEntry (h : s.Announced) {q : Nat} {entry entry' : Entry}
    (hget : s.questions[q]? = some entry) (hframe : entry'.frame = entry.frame) :
    (s.setEntry q entry').Announced :=
  h.of_views rfl (views_setEntry hget hframe) rfl rfl id

theorem Announced.retain (h : s.Announced) : s.retain.Announced :=
  h.of_views rfl views_retain rfl rfl id

theorem Announced.stop (h : s.Announced) : Announced { s with stopped := true } :=
  h.of_views rfl rfl rfl rfl fun _ => rfl

/-- A frame follows. -/
theorem Announced.frame (h : s.Announced) {f : Frame} (hcall : ∀ o, f = .toolCall o →
      ∃ call ∈ s.calls, call.owner = o ∧ call.stage ≠ .admitted ∧ call.stage ≠ .pending)
    (hmentions : ∀ v, f.Mentions v → v ∈ s.views)
    (hclosed : ∀ id o, f = .questionClosed id o → ∃ v ∈ s.views, v.questionId = id ∧ v.owner = o ∧
      (.questionOpened v ∈ s.emitted ∨ s.stopped = true))
    (hlawful : Lawful (s.emitted ++ [f])) :
    Announced { s with emitted := s.emitted ++ [f] } where
  calls := h.calls
  called o ho := by
    rcases List.mem_append.mp ho with ho | ho
    · exact h.called o ho
    · exact hcall o (List.mem_singleton.mp ho).symm
  ids := h.ids
  asked v hv := List.mem_append_left _ (h.asked v hv)
  askers := h.askers
  places := h.places
  mentioned v hv := (mentioned_concat.mp hv).elim (h.mentioned v) (hmentions v)
  closed id o hmem := by
    have hsome : ∃ v ∈ s.views, v.questionId = id ∧ v.owner = o ∧
        (.questionOpened v ∈ s.emitted ∨ s.stopped = true) := by
      rcases List.mem_append.mp hmem with hmem | hmem
      · exact h.closed id o hmem
      · exact hclosed id o (List.mem_singleton.mp hmem).symm
    obtain ⟨v, hv, hid, ho, hopened⟩ := hsome
    exact ⟨v, hv, hid, ho, hopened.imp_left (List.mem_append_left _)⟩
  lawful := hlawful

theorem Announced.cancel_frame (h : s.Announced) {owner : QuestionOwner} :
    Announced { s with emitted := s.emitted ++ [.toolCancel owner] } :=
  h.frame nofun nofun nofun (h.lawful.concat_quiet nofun nofun)

theorem Announced.closed_frame (h : s.Announced) {v : QuestionView} (hv : v ∈ s.views)
    (hopened : .questionOpened v ∈ s.emitted ∨ s.stopped = true) :
    Announced { s with emitted := s.emitted ++ [.questionClosed v.questionId v.owner] } := by
  refine h.frame nofun nofun (fun id o heq => ?_) (h.lawful.concat_quiet nofun nofun)
  injection heq with hid ho
  exact ⟨v, hv, hid, ho, hopened⟩

/-- Two views of one question are one view. -/
theorem Announced.view_eq (h : s.Announced) {v v' : QuestionView} (hv : v ∈ s.views)
    (hv' : v' ∈ s.views) (hid : v.questionId = v'.questionId) : v = v' :=
  List.inj_on_of_nodup_map h.ids hv hv' hid

/-- A frame about questions that are there is lawful, unless it announces one again. -/
theorem Announced.lawful_frame (h : s.Announced) {f : Frame} (hcall : ∀ o, f ≠ .toolCall o)
    (hmentions : ∀ v, f.Mentions v → v ∈ s.views)
    (hopened : ∀ v, f = .questionOpened v → .questionOpened v ∉ s.emitted ∧
      ∀ o, .questionClosed v.questionId o ∉ s.emitted) : Lawful (s.emitted ++ [f]) where
  calls := h.lawful.calls.concat fun o _ hf => absurd hf (hcall o)
  owners := h.lawful.owners.concat fun v hv => h.asked v (hmentions v hv)
  opened := h.lawful.opened.concat hopened
  unique v v' hv hv' := by
    refine h.view_eq ?_ ?_
    · exact (mentioned_concat.mp hv).elim (h.mentioned v) (hmentions v)
    · exact (mentioned_concat.mp hv').elim (h.mentioned v') (hmentions v')

theorem Announced.reply_frame (h : s.Announced) {views : List QuestionView}
    (hviews : ∀ v ∈ views, v ∈ s.views) :
    Announced { s with emitted := s.emitted ++ [.pendingReply views] } :=
  h.frame nofun hviews nofun (h.lawful_frame nofun hviews nofun)

theorem Announced.opened_frame (h : s.Announced) {v : QuestionView} (hv : v ∈ s.views)
    (hfresh : .questionOpened v ∉ s.emitted ∧ ∀ o, .questionClosed v.questionId o ∉ s.emitted) :
    Announced { s with emitted := s.emitted ++ [.questionOpened v] } := by
  have hmentions : ∀ w, w = v → w ∈ s.views := fun w hw => hw ▸ hv
  refine h.frame nofun hmentions nofun (h.lawful_frame nofun hmentions fun w hw => ?_)
  exact Frame.questionOpened.inj hw ▸ hfresh

/-! ## Calls -/

theorem Announced.setStage (h : s.Announced) {i : Nat} {call : HostCall} {stage : CallStage}
    (hget : s.calls[i]? = some call) (hstage : stage = .admitted ∨ stage = .pending →
      call.stage = .admitted ∨ call.stage = .pending) : (s.setStage i call stage).Announced where
  calls := by
    obtain ⟨hlt, rfl⟩ := List.getElem?_eq_some_iff.mp hget
    have hmap : (s.calls.set i { s.calls[i] with stage }).map (·.owner.call) =
        s.calls.map (·.owner.call) := by
      rw [List.map_set]
      show (s.calls.map (·.owner.call)).set i s.calls[i].owner.call = _
      rw [← List.getElem_map (fun c : HostCall => c.owner.call) (h := by simpa using hlt),
        List.set_getElem_self]
    exact hmap ▸ h.calls
  called o ho := by
    obtain ⟨c, hc, rfl, hadmitted, hpending⟩ := h.called o ho
    obtain ⟨j, hj⟩ := List.mem_iff_getElem?.mp hc
    have hset := @getElem?_set_slot HostCall s.calls i j call { call with stage } hget
    by_cases hij : i = j
    · subst hij
      obtain rfl := Option.some.inj (hget.symm.trans hj)
      refine ⟨{ call with stage }, List.mem_of_getElem? (hset.trans (if_pos rfl)), rfl, ?_, ?_⟩
      · exact fun hst => (hstage (Or.inl hst)).elim hadmitted hpending
      · exact fun hst => (hstage (Or.inr hst)).elim hadmitted hpending
    · have hother := (hset.trans (if_neg hij)).trans hj
      exact ⟨c, List.mem_of_getElem? hother, rfl, hadmitted, hpending⟩
  ids := h.ids
  asked := h.asked
  askers := h.askers
  places := h.places
  mentioned := h.mentioned
  closed := h.closed
  lawful := h.lawful

/-- A call that is pending and not announced has no frame yet. -/
theorem Announced.announce (h : s.Announced) {i : Nat} {call : HostCall}
    (hget : s.calls[i]? = some call) (hstage : call.stage = .pending) :
    Announced { s.setStage i call .announced with
      emitted := s.emitted ++ [.toolCall call.owner] } := by
  have hset : (s.setStage i call .announced).Announced := h.setStage hget (by simp)
  refine hset.frame (fun o ho => ?_) nofun nofun (h.lawful.concat_call fun o ho hcall => ?_)
  · obtain rfl := Frame.toolCall.inj ho
    exact ⟨{ call with stage := .announced },
      List.mem_of_getElem? (getElem?_set_slot_self hget), rfl, by simp, by simp⟩
  · obtain ⟨c, hc, rfl, -, hpending⟩ := h.called o ho
    have heq := List.inj_on_of_nodup_map h.calls hc (List.mem_of_getElem? hget) hcall
    exact hpending (heq ▸ hstage)

theorem Announced.invoke (h : s.Announced) {owner : QuestionOwner}
    (hnew : s.calls.any (·.owner.call == owner.call) = false) :
    Announced { s with calls := s.calls ++ [⟨owner, .admitted⟩] } where
  calls := by
    show ((s.calls ++ [(⟨owner, .admitted⟩ : HostCall)]).map (·.owner.call)).Nodup
    rw [List.map_append, List.nodup_append]
    refine ⟨h.calls, by simp, fun id hid id' hid' => ?_⟩
    obtain ⟨c, hc, rfl⟩ := List.mem_map.mp hid
    rw [List.map_singleton, List.mem_singleton] at hid'
    subst hid'
    have := List.any_eq_false.mp hnew c hc
    simpa using this
  called o ho := by
    obtain ⟨c, hc, hrest⟩ := h.called o ho
    exact ⟨c, List.mem_append_left _ hc, hrest⟩
  ids := h.ids
  asked := h.asked
  askers := h.askers
  places := h.places
  mentioned := h.mentioned
  closed := h.closed
  lawful := h.lawful

/-! ## Tasks -/

/-- Every task stands where the frames of its question say. -/
def AllFit (s : Service ν) : Prop := ∀ task ∈ s.tasks, s.Fits task

theorem AllFit.setTask (h : s.AllFit) {k : Nat} {task : Task ν} (hfits : s.Fits task) :
    (s.setTask k task).AllFit := by
  intro a ha
  rcases List.mem_or_eq_of_mem_set ha with ha | rfl
  · exact h a ha
  · exact hfits

theorem AllFit.of_views (h : s.AllFit) (hviews : t.views = s.views) (htasks : t.tasks = s.tasks)
    (hemitted : t.emitted = s.emitted) (hstopped : s.stopped = true → t.stopped = true) :
    t.AllFit := fun task htask =>
  (h task (htasks ▸ htask)).mono (fun _ hv => hviews ▸ hv) (fun _ _ _ hv => hviews ▸ hv)
    (fun _ hf => hemitted ▸ hf) hstopped (fun _ _ _ _ hf => hemitted ▸ hf)
    (fun _ _ _ _ _ hf => hemitted ▸ hf)

theorem AllFit.setEntry (h : s.AllFit) {q : Nat} {entry entry' : Entry}
    (hget : s.questions[q]? = some entry) (hframe : entry'.frame = entry.frame) :
    (s.setEntry q entry').AllFit :=
  h.of_views (views_setEntry hget hframe) rfl rfl id

/-- A frame follows that neither announces nor closes a question. -/
theorem AllFit.frame (h : s.AllFit) {f : Frame} (hopened : ∀ v, f ≠ .questionOpened v)
    (hclosed : ∀ id o, f ≠ .questionClosed id o) :
    AllFit { s with emitted := s.emitted ++ [f] } := by
  refine fun task htask => (h task htask).mono (fun _ hv => hv) (fun _ _ _ hv => hv)
    (fun _ hf => List.mem_append_left _ hf) (fun hs => hs) ?_ ?_
  · intro q v _ _ hmem
    rcases List.mem_append.mp hmem with hmem | hmem
    · exact hmem
    · exact absurd (List.mem_singleton.mp hmem).symm (hopened v)
  · intro q v o _ _ hmem
    rcases List.mem_append.mp hmem with hmem | hmem
    · exact hmem
    · exact absurd (List.mem_singleton.mp hmem).symm (hclosed _ o)

/-- The frame of an asking task is about its own question, so that the other tasks still fit. -/
theorem AllFit.asker_frame (h : s.AllFit) (ha : s.Announced) {k q : Nat} {task next : Task ν}
    {v : QuestionView} {f : Frame} (hget : s.tasks[k]? = some task) (hq : task.asker = some q)
    (hv : s.views[q]? = some v)
    (hf : f = .questionOpened v ∨ f = .questionClosed v.questionId v.owner)
    (hnext : Fits { s with emitted := s.emitted ++ [f] } next) :
    AllFit (Service.setTask { s with emitted := s.emitted ++ [f] } k next) := by
  intro a hmem
  obtain ⟨j, hj⟩ := List.mem_iff_getElem?.mp hmem
  have hset : (s.tasks.set k next)[j]? = some a := hj
  rw [getElem?_set_slot hget] at hset
  split at hset
  · exact Option.some.inj hset ▸ hnext
  rename_i hne
  -- another question than that of the frame, hence another id
  have hother : ∀ q' w, a = .opened q' → s.views[q']? = some w → w.questionId ≠ v.questionId := by
    rintro q' w rfl hw hid
    obtain rfl := ha.view_eq (List.mem_of_getElem? hw) (List.mem_of_getElem? hv) hid
    obtain ⟨hlt, hwget⟩ := List.getElem?_eq_some_iff.mp hw
    obtain ⟨hlt', hvget⟩ := List.getElem?_eq_some_iff.mp hv
    have hnodup : s.views.Nodup := List.Nodup.of_map _ ha.ids
    have heq : q' = q := (List.Nodup.getElem_inj_iff hnodup).mp (hwget.trans hvget.symm)
    exact hne (ha.askers k j task _ q hget hset hq (congrArg some heq))
  refine (h a (List.mem_of_getElem? hset)).mono (fun _ hv => hv) (fun _ _ _ hv => hv)
    (fun _ hf => List.mem_append_left _ hf) (fun hs => hs) ?_ ?_
  · intro q' w hopen hw hmem
    rcases List.mem_append.mp hmem with hmem | hmem
    · exact hmem
    rw [List.mem_singleton] at hmem
    rcases hf with rfl | rfl
    · exact absurd (congrArg _ (Frame.questionOpened.inj hmem)) (hother q' w hopen hw)
    · exact nomatch hmem
  · intro q' w o hopen hw hmem
    rcases List.mem_append.mp hmem with hmem | hmem
    · exact hmem
    rw [List.mem_singleton] at hmem
    rcases hf with rfl | rfl
    · exact nomatch hmem
    · exact absurd (Frame.questionClosed.inj hmem).1 (hother q' w hopen hw)

theorem Announced.dispatch (h : s.Announced) {task : Task ν} (hasker : task.asker = none) :
    (s.dispatch task).Announced := by
  unfold Service.dispatch
  split
  · exact h
  refine ⟨h.calls, h.called, h.ids, h.asked, fun i j a b q hi hj ha hb => ?_, fun a hmem q hq => ?_,
    h.mentioned, h.closed, h.lawful⟩
  · have hi' : (s.tasks ++ [task])[i]? = some a := hi
    have hj' : (s.tasks ++ [task])[j]? = some b := hj
    rw [getElem?_append_slot] at hi' hj'
    split at hi'
    · rw [← Option.some.inj hi', hasker] at ha
      cases ha
    split at hj'
    · rw [← Option.some.inj hj', hasker] at hb
      cases hb
    exact h.askers i j a b q hi' hj' ha hb
  · rcases List.mem_append.mp hmem with hmem | hmem
    · exact h.places a hmem q hq
    · rw [List.mem_singleton.mp hmem, hasker] at hq
      cases hq

theorem AllFit.dispatch (h : s.AllFit) {task : Task ν} (hfits : s.Fits task) :
    (s.dispatch task).AllFit := by
  unfold Service.dispatch
  split
  · exact h
  intro a hmem
  rcases List.mem_append.mp hmem with hmem | hmem
  · exact h a hmem
  · exact List.mem_singleton.mp hmem ▸ hfits

/-- A question is opened under an id that no other one has, for a call that was announced. -/
theorem Announced.open (h : s.Announced) {k : Nat} {task : Task ν} {entry : Entry}
    (hget : s.tasks[k]? = some task)
    (hid : ∀ v ∈ s.views, v.questionId ≠ entry.id) (hcall : .toolCall entry.owner ∈ s.emitted) :
    Announced { s.setTask k (.opened s.questions.length) with
      questions := s.questions ++ [entry] } := by
  have hviews : (s.questions ++ [entry]).map Entry.frame = s.views ++ [entry.frame] := by
    rw [List.map_append]
    rfl
  have hlength : s.views.length = s.questions.length := List.length_map _
  refine ⟨h.calls, h.called, ?_, ?_, fun i j a b q hi hj ha hb => ?_, fun a hmem q hq => ?_,
    fun v hv => ?_, fun id o hmem => ?_, h.lawful⟩
  · show (((s.questions ++ [entry]).map Entry.frame).map (·.questionId)).Nodup
    rw [hviews, List.map_append, List.nodup_append]
    refine ⟨h.ids, by simp, fun id hmem id' hid' heq => ?_⟩
    obtain ⟨v, hv, rfl⟩ := List.mem_map.mp hmem
    rw [List.map_singleton, List.mem_singleton] at hid'
    exact hid v hv (heq.trans hid')
  · intro v hv
    have hmem : v ∈ (s.questions ++ [entry]).map Entry.frame := hv
    rw [hviews] at hmem
    rcases List.mem_append.mp hmem with hmem | hmem
    · exact h.asked v hmem
    · exact List.mem_singleton.mp hmem ▸ hcall
  · have hi' : (s.tasks.set k (.opened s.questions.length))[i]? = some a := hi
    have hj' : (s.tasks.set k (.opened s.questions.length))[j]? = some b := hj
    rw [getElem?_set_slot hget] at hi' hj'
    have hold : ∀ c ∈ s.tasks, c.asker ≠ some s.questions.length := by
      intro c hc heq
      have hplace := h.places c hc _ heq
      omega
    split at hi' <;> split at hj'
    · omega
    · obtain rfl := Option.some.inj hi'
      rw [← Option.some.inj ha] at hb
      exact absurd hb (hold b (List.mem_of_getElem? hj'))
    · obtain rfl := Option.some.inj hj'
      rw [← Option.some.inj hb] at ha
      exact absurd ha (hold a (List.mem_of_getElem? hi'))
    · exact h.askers i j a b q hi' hj' ha hb
  · show q < ((s.questions ++ [entry]).map Entry.frame).length
    rw [hviews, List.length_append, List.length_singleton]
    rcases List.mem_or_eq_of_mem_set hmem with hmem | rfl
    · have hplace := h.places a hmem q hq
      omega
    · rw [← Option.some.inj hq]
      omega
  · show v ∈ (s.questions ++ [entry]).map Entry.frame
    rw [hviews]
    exact List.mem_append_left _ (h.mentioned v hv)
  · obtain ⟨v, hv, hrest⟩ := h.closed id o hmem
    refine ⟨v, ?_, hrest⟩
    show v ∈ (s.questions ++ [entry]).map Entry.frame
    rw [hviews]
    exact List.mem_append_left _ hv

theorem AllFit.open (h : s.AllFit) (ha : s.Announced) {k : Nat} {entry : Entry}
    (hid : ∀ v ∈ s.views, v.questionId ≠ entry.id) :
    AllFit { s.setTask k (.opened s.questions.length) with
      questions := s.questions ++ [entry] } := by
  have hlength : s.views.length = s.questions.length := List.length_map _
  have hviews : ∀ q, ((s.questions ++ [entry]).map Entry.frame)[q]? =
      if q = s.questions.length then some entry.frame else s.views[q]? := by
    intro q
    rw [List.map_append, List.map_singleton, getElem?_append_slot, List.length_map]
    rfl
  intro a hmem
  rcases List.mem_or_eq_of_mem_set hmem with hmem | rfl
  · refine (h a hmem).mono (fun v hv => ?_) (fun q v hq hv => ?_) (fun _ hf => hf) (fun hs => hs)
      (fun _ _ _ _ hf => hf) (fun _ _ _ _ _ hf => hf)
    · show v ∈ (s.questions ++ [entry]).map Entry.frame
      rw [List.map_append]
      exact List.mem_append_left _ hv
    · have hplace := ha.places a hmem q hq
      have hv' : ((s.questions ++ [entry]).map Entry.frame)[q]? = some v := hv
      rwa [hviews, if_neg (by omega)] at hv'
  · intro v hv
    have hv' : ((s.questions ++ [entry]).map Entry.frame)[s.questions.length]? = some v := hv
    rw [hviews, if_pos rfl] at hv'
    obtain rfl := Option.some.inj hv'
    constructor
    · exact fun hopened => hid _ (ha.mentioned _ (mentioned_of_opened hopened)) rfl
    · intro o hclosed
      obtain ⟨w, hw, hwid, -⟩ := ha.closed _ o hclosed
      exact hid w hw hwid

/-! ## Every step -/

structure Sound (s : Service ν) : Prop where
  announced : s.Announced
  fits : s.AllFit

theorem Sound.stop (h : s.Sound) : Sound { s with stopped := true } :=
  ⟨h.announced.stop, h.fits.of_views rfl rfl rfl fun _ => rfl⟩

theorem Sound.setTask (h : s.Sound) {k : Nat} {task next : Task ν}
    (hget : s.tasks[k]? = some task) (hasker : ∀ q, next.asker = some q → task.asker = some q)
    (hfits : s.Fits next) : (s.setTask k next).Sound :=
  ⟨h.announced.setTask hget hasker, h.fits.setTask hfits⟩

/-- A task changes an entry in what its frame does not say. -/
theorem Sound.update (h : s.Sound) {k q : Nat} {task next : Task ν} {entry entry' : Entry}
    (hget : s.tasks[k]? = some task) (hentry : s.questions[q]? = some entry)
    (hframe : entry'.frame = entry.frame) (hasker : ∀ q, next.asker = some q → task.asker = some q)
    (hfits : s.Fits next) : ((s.setEntry q entry').setTask k next).Sound := by
  have hset : (s.setEntry q entry').Sound :=
    ⟨h.announced.setEntry hentry hframe, h.fits.setEntry hentry hframe⟩
  have hviews := views_setEntry hentry hframe
  exact hset.setTask hget hasker (hfits.mono (fun _ hv => hviews ▸ hv) (fun _ _ _ hv => hviews ▸ hv)
    (fun _ hf => hf) (fun hs => hs) (fun _ _ _ _ hf => hf) (fun _ _ _ _ _ hf => hf))

theorem Sound.retain (h : s.Sound) : s.retain.Sound :=
  ⟨h.announced.retain, h.fits.of_views views_retain rfl rfl id⟩

/-- What a task that asks relies on, once its question is announced. -/
theorem Sound.announced_of_fits (h : s.Sound) {task : Task ν} {k q : Nat} {v : QuestionView}
    (hget : s.tasks[k]? = some task) (hq : task.asker = some q) (hne : ∀ q, task ≠ .opened q)
    (hv : s.views[q]? = some v) : .questionOpened v ∈ s.emitted ∨ s.stopped = true := by
  have hfits := h.fits task (List.mem_of_getElem? hget)
  cases task with
  | opened q => exact absurd rfl (hne q)
  | waiting | woken | resolved | lingering => exact hfits q v hq hv
  | asking | answering | found | checked | answered | listing | listed | finished => cases hq

theorem Sound.moved (h : s.Sound) {k : Nat} {task : Task ν} (hget : s.tasks[k]? = some task)
    (hmoved : Moved s k task t) : t.Sound := by
  have hmem := List.mem_of_getElem? hget
  cases hmoved with
  | ended _ => exact h.setTask hget nofun nofun
  | refused owner params => exact h.retain.setTask hget nofun nofun
  | opens params entry hid _ _ _ _ _ =>
    have hids : ∀ v ∈ s.retain.views, v.questionId ≠ entry.id := by
      intro v hv
      rw [views_retain] at hv
      obtain ⟨e, he, rfl⟩ := List.mem_map.mp hv
      exact hid e he
    exact ⟨h.retain.announced.open hget hids (h.fits _ hmem),
      h.retain.fits.open h.retain.announced hids⟩
  | announces q entry room hentry =>
    have hv := views_get hentry
    have hfresh := h.fits _ hmem entry.frame hv
    cases room with
    | false =>
      refine h.stop.setTask hget (fun q hq => hq) fun q v _ _ => Or.inr rfl
    | true =>
      refine ⟨(h.announced.opened_frame (List.mem_of_getElem? hv) hfresh).setTask hget
        (fun q hq => hq), h.fits.asker_frame h.announced hget rfl hv (Or.inl rfl) ?_⟩
      rintro q' v hq hv'
      obtain rfl := Option.some.inj hq
      obtain rfl := Option.some.inj (hv.symm.trans hv')
      exact Or.inl (List.mem_append_right _ (List.mem_singleton_self _))
  | wakes q entry answer hentry =>
    exact h.update hget hentry rfl (fun q hq => hq) fun q' v hq hv =>
      h.announced_of_fits hget hq nofun hv
  | gives q entry answer hentry => exact h.update hget hentry rfl nofun nofun
  | resolves q entry hentry =>
    exact h.update hget hentry rfl (fun q hq => hq) fun q' v hq hv =>
      h.announced_of_fits hget hq nofun hv
  | closes q entry room hentry =>
    have hv := views_get hentry
    have hopened := h.announced_of_fits hget rfl nofun hv
    cases room with
    | false => exact h.stop.setTask hget (fun q hq => hq) fun q v _ _ => Or.inr rfl
    | true =>
      refine ⟨(h.announced.closed_frame (List.mem_of_getElem? hv) hopened).setTask hget
        (fun q hq => hq), h.fits.asker_frame h.announced hget rfl hv (Or.inr rfl) ?_⟩
      rintro q' v hq hv'
      exact (h.announced_of_fits hget hq nofun hv').imp_left (List.mem_append_left _)
  | leaves q entry hentry _ => exact h.update hget hentry rfl nofun nofun
  | finds q params _ => exact h.setTask hget nofun nofun
  | checks q entry params outcome _ _ => exact h.setTask hget nofun nofun
  | repeats q params outcome => exact h.setTask hget nofun nofun
  | stores q entry params outcome hentry _ =>
    have hset : Sound ((s.setEntry q { entry with answer := some (.user, outcome) }).setTask k
        (.answered q)) := h.update hget hentry rfl nofun nofun
    exact ⟨hset.announced.of_views rfl rfl rfl rfl id, hset.fits.of_views rfl rfl rfl id⟩
  | flags q entry hentry => exact h.update hget hentry rfl nofun nofun
  | lists params =>
    refine h.setTask hget nofun fun v hv => ?_
    obtain ⟨entry, hentry, rfl⟩ := List.mem_map.mp ((List.mem_insertionSort _).mp hv)
    exact List.mem_map_of_mem (List.mem_filter.mp (List.mem_filter.mp hentry).1).1
  | replies views room =>
    have hviews := h.fits _ hmem
    cases room with
    | false => exact h.stop.setTask hget nofun nofun
    | true =>
      have hframe : Sound { s with emitted := s.emitted ++ [.pendingReply views] } :=
        ⟨h.announced.reply_frame hviews, h.fits.frame nofun nofun⟩
      exact hframe.setTask hget nofun nofun

theorem Sound.setStage (h : s.Sound) {i : Nat} {call : HostCall} {stage : CallStage}
    (hget : s.calls[i]? = some call) (hstage : stage = .admitted ∨ stage = .pending →
      call.stage = .admitted ∨ call.stage = .pending) : (s.setStage i call stage).Sound :=
  ⟨h.announced.setStage hget hstage, h.fits.of_views rfl rfl rfl id⟩

theorem Sound.dispatch (h : s.Sound) {task : Task ν} (hasker : task.asker = none)
    (hfits : s.Fits task) : (s.dispatch task).Sound :=
  ⟨h.announced.dispatch hasker, h.fits.dispatch hfits⟩

theorem Sound.access (h : s.Sound) {i : Nat} {room : Bool} (hnext : s.access i room = some t) :
    t.Sound := by
  obtain ⟨call, hget, hnext⟩ := Option.bind_eq_some_iff.mp hnext
  split at hnext
  · rename_i hstage
    exact Option.some.inj hnext ▸ h.setStage hget fun _ => Or.inl hstage
  · rename_i hstage
    obtain rfl := Option.some.inj hnext
    have hset : (s.setStage i call .announced).Sound := h.setStage hget (by simp)
    cases room with
    | false => exact hset.stop
    | true => exact ⟨h.announced.announce hget hstage, hset.fits.frame nofun nofun⟩
  · exact Option.some.inj hnext ▸ h.setStage hget (by simp)
  · exact Option.some.inj hnext ▸ h.setStage hget (by simp)
  · obtain rfl := Option.some.inj hnext
    have hset : (s.setStage i call .reported).Sound := h.setStage hget (by simp)
    cases room with
    | false => exact hset.stop
    | true => exact ⟨hset.announced.cancel_frame, hset.fits.frame nofun nofun⟩
  · exact Option.some.inj hnext ▸ h.setStage hget (by simp)
  · cases hnext

theorem Sound.cancel (h : s.Sound) {i : Nat} {settled : Bool} (hnext : s.cancel i settled = some t) :
    t.Sound := by
  obtain ⟨call, hget, hnext⟩ := Option.bind_eq_some_iff.mp hnext
  split at hnext
  · exact Option.some.inj hnext ▸ h.setStage hget (by simp)
  · exact Option.some.inj hnext ▸ h.setStage hget (by simp)
  · exact Option.some.inj hnext ▸ h.setStage hget (by simp)
  · cases hnext

/-- Every step keeps the invariant, if only announced calls ask. -/
theorem Sound.next {readers : Readers ν} {e : Event ν} (h : s.Sound)
    (hasked : ∀ params owner, e = .ask params → s.questionOwner params = some owner →
      .toolCall owner ∈ s.emitted) (hnext : Service.next readers s e = some t) : t.Sound := by
  cases e with
  | invoke owner =>
    simp only [Service.next] at hnext
    split at hnext
    · cases hnext
    rename_i hnew
    split at hnext
    · obtain rfl := Option.some.inj hnext
      exact ⟨h.announced.invoke (Bool.eq_false_iff.mpr hnew), h.fits.of_views rfl rfl rfl id⟩
    · exact Option.some.inj hnext ▸ h
  | access i room => exact h.access hnext
  | reply i =>
    obtain ⟨call, hget, hnext⟩ := Option.bind_eq_some_iff.mp hnext
    split at hnext
    · exact Option.some.inj hnext ▸ h.setStage hget (by simp)
    · cases hnext
  | cancel i settled => exact h.cancel hnext
  | ask params =>
    simp only [Service.next] at hnext
    split at hnext
    · exact Option.some.inj hnext ▸ h
    · rename_i owner howner
      exact Option.some.inj hnext ▸ h.dispatch rfl (hasked params owner rfl howner)
  | answer params => exact Option.some.inj hnext ▸ h.dispatch rfl nofun
  | pending params => exact Option.some.inj hnext ▸ h.dispatch rfl nofun
  | advance k input =>
    obtain ⟨task, hget, hmoved⟩ := advance_moved hnext
    exact h.moved hget hmoved
  | stop => exact Option.some.inj hnext ▸ h.stop

theorem Sound.start : (start : Service ν).Sound where
  announced := {
    calls := List.nodup_nil
    called := nofun
    ids := List.nodup_nil
    asked := nofun
    askers := nofun
    places := nofun
    mentioned := fun v hv => by
      obtain ⟨f, hf, -⟩ := hv
      cases hf
    closed := nofun
    lawful := Lawful.nil }
  fits := nofun

/-- The call that asks is one that was announced, if one of its id was. -/
theorem Sound.toolCall_of_questionOwner (h : s.Sound) {params : JsonTree ν}
    {owner announced : QuestionOwner} (howner : s.questionOwner params = some owner)
    (hmem : .toolCall announced ∈ s.emitted)
    (hid : (params.index "call_id").asStr = some announced.call) : .toolCall owner ∈ s.emitted := by
  obtain ⟨call, hfind, hrest⟩ := Option.bind_eq_some_iff.mp howner
  split at hrest
  · obtain rfl := Option.some.inj hrest
    have hcall := List.find?_some hfind
    simp only [Bool.and_eq_true, beq_iff_eq, hid, Option.some.injEq] at hcall
    obtain ⟨c, hc, hco, -⟩ := h.announced.called announced hmem
    have heq := List.inj_on_of_nodup_map h.announced.calls hc (List.mem_of_find?_eq_some hfind)
      (by rw [hco]; exact hcall.1)
    rw [← heq, hco]
    exact hmem
  · cases hrest

end Service

end Questions

end Host

end AgentBridge
