import AgentBridge.Questions.Announcements
import AgentBridge.Reasoning.Counting

/-!
# The entries of the host

An entry stays the same question, leaves the map for good, and stays resolved.  The limits of `open`
hold whatever the tasks do, and an answer is stored through an entry that was found and matched.
-/

namespace AgentBridge

open Reasoning

namespace Host

namespace Questions

variable {ν : Type}

/-- What a step of a service makes of an entry. -/
structure Entry.Ages (s : Service ν) (e e' : Entry) : Prop where
  frame : e'.frame = e.frame
  live : e'.live = true → e.live = true
  resolved : e.resolved = true → e'.resolved = true
  left : e.live = true → e'.live = false → s.isCancelled e.owner.call = true ∨ s.stopped = true

theorem Entry.Ages.refl (s : Service ν) (e : Entry) : e.Ages s e :=
  ⟨rfl, fun h => h, fun h => h, fun hlive hleft => by rw [hlive] at hleft; cases hleft⟩

theorem Entry.Ages.owner {s : Service ν} {e e' : Entry} (h : e.Ages s e') : e'.owner = e.owner :=
  congrArg QuestionView.owner h.frame

/-- An entry that changes in its answer, or becomes resolved. -/
theorem Entry.Ages.of_live {s : Service ν} {e e' : Entry} (hframe : e'.frame = e.frame)
    (hlive : e'.live = e.live) (hresolved : e.resolved = true → e'.resolved = true) :
    e.Ages s e' :=
  ⟨hframe, fun h => hlive ▸ h, hresolved, fun h h' => by rw [hlive, h] at h'; cases h'⟩

namespace Service

variable {s t : Service ν}

/-- What every step does to what the tasks share, the entries apart. -/
structure Follows (s t : Service ν) : Prop where
  views : s.views <+: t.views
  emitted : s.emitted <+: t.emitted
  stopped : s.stopped = true → t.stopped = true
  cancelled : ∀ call, s.isCancelled call = true → t.isCancelled call = true

theorem Follows.refl (s : Service ν) : Follows s s :=
  ⟨List.prefix_rfl, List.prefix_rfl, id, fun _ => id⟩

theorem Follows.trans {u : Service ν} (h : Follows s t) (h' : Follows t u) : Follows s u :=
  ⟨h.views.trans h'.views, h.emitted.trans h'.emitted, fun hs => h'.stopped (h.stopped hs),
    fun call hc => h'.cancelled call (h.cancelled call hc)⟩

/-- A step that opens no question. -/
structure Aged (s t : Service ν) : Prop where
  entries : List.Forall₂ (Entry.Ages s) s.questions t.questions
  emitted : s.emitted <+: t.emitted
  stopped : s.stopped = true → t.stopped = true
  cancelled : ∀ call, s.isCancelled call = true → t.isCancelled call = true

theorem Aged.views (h : Aged s t) : t.views = s.views := by
  have hframes : List.Forall₂ (fun e e' : Entry => e'.frame = e.frame) s.questions t.questions :=
    h.entries.imp fun _ _ hages => hages.frame
  unfold Service.views
  generalize s.questions = l at hframes
  generalize t.questions = l' at hframes
  induction hframes with
  | nil => rfl
  | cons hframe _ ih => rw [List.map_cons, List.map_cons, hframe, ih]

theorem Aged.follows (h : Aged s t) : Follows s t :=
  ⟨h.views ▸ List.prefix_rfl, h.emitted, h.stopped, h.cancelled⟩

theorem aged_of_questions (hquestions : t.questions = s.questions) (hemitted : s.emitted <+: t.emitted)
    (hstopped : s.stopped = true → t.stopped = true)
    (hcancelled : ∀ call, s.isCancelled call = true → t.isCancelled call = true) : Aged s t :=
  ⟨hquestions ▸ List.forall₂_same.mpr fun e _ => .refl s e, hemitted, hstopped, hcancelled⟩

theorem aged_emit (room : Bool) (f : Frame) : Aged s (s.emit room f) := by
  have h := (CallStep.refl s).emit room f
  exact aged_of_questions h.questions h.emitted h.stopped h.cancelled

theorem aged_setTask (h : Aged s t) (k : Nat) (task : Task ν) : Aged s (t.setTask k task) :=
  ⟨h.entries, h.emitted, h.stopped, h.cancelled⟩

theorem aged_setEntry {q : Nat} {entry entry' : Entry} (hget : s.questions[q]? = some entry)
    (hages : entry.Ages s entry') : Aged s (s.setEntry q entry') :=
  ⟨forall₂_set (.refl s) hget hages, List.prefix_rfl, id, fun _ => id⟩

theorem aged_answer {q : Nat} {entry : Entry} (hget : s.questions[q]? = some entry)
    (answer : Option (Answerer × AnswerOutcome)) : Aged s (s.setEntry q { entry with answer }) :=
  aged_setEntry hget (.of_live rfl rfl fun h => h)

theorem aged_resolve {q : Nat} {entry : Entry} (hget : s.questions[q]? = some entry) :
    Aged s (s.setEntry q { entry with resolved := true }) :=
  aged_setEntry hget (.of_live rfl rfl fun _ => rfl)

theorem aged_leave {q : Nat} {entry : Entry} (hget : s.questions[q]? = some entry)
    (hleft : s.isCancelled entry.owner.call = true ∨ s.stopped = true) :
    Aged s (s.setEntry q { entry with live := false }) :=
  aged_setEntry hget ⟨rfl, nofun, fun h => h, fun _ _ => hleft⟩

theorem aged_retain (s : Service ν) : Aged s s.retain := by
  refine ⟨List.forall₂_map_right_iff.mpr (List.forall₂_same.mpr fun e _ => ?_), List.prefix_rfl, id,
    fun _ => id⟩
  refine ⟨rfl, fun hlive => (Bool.and_eq_true_iff.mp hlive).1, id, fun hlive hleft => Or.inl ?_⟩
  simpa [hlive] using hleft

/-- The step opens a question for a task, within the limits. -/
structure Opening (s : Service ν) (k : Nat) (t : Service ν) (entry : Entry) : Prop where
  task : ∃ params, s.tasks[k]? = some (.asking entry.owner params)
  fresh : ∀ e ∈ s.questions, e.id ≠ entry.id
  unresolved : entry.resolved = false
  live : entry.live = true
  uncancelled : s.isCancelled entry.owner.call = false
  running : s.stopped = false
  room : s.retain.isFull entry.owner.call = false
  questions : t.questions = s.retain.questions ++ [entry]
  emitted : t.emitted = s.emitted
  stopped : t.stopped = s.stopped
  calls : t.calls = s.calls

theorem Moved.aged_or_opening {k : Nat} {task : Task ν} (hget : s.tasks[k]? = some task)
    (h : Moved s k task t) : Aged s t ∨ ∃ entry, Opening s k t entry := by
  have hself : Aged s s := aged_of_questions rfl List.prefix_rfl id fun _ => id
  cases h with
  | ended _ | finds | checks | repeats | lists => exact Or.inl (aged_setTask hself k _)
  | refused owner params => exact Or.inl (aged_setTask (aged_retain s) k _)
  | opens params entry hfresh hresolved hlive hcancelled hstopped hroom =>
    exact Or.inr ⟨entry, ⟨params, hget⟩, hfresh, hresolved, hlive, hcancelled, hstopped, hroom, rfl,
      rfl, rfl, rfl⟩
  | announces q entry room _ => exact Or.inl (aged_setTask (aged_emit room _) k _)
  | closes q entry room _ => exact Or.inl (aged_setTask (aged_emit room _) k _)
  | replies views room => exact Or.inl (aged_setTask (aged_emit room _) k _)
  | wakes q entry answer hentry | gives q entry answer hentry =>
    exact Or.inl (aged_setTask (aged_answer hentry answer) k _)
  | resolves q entry hentry | flags q entry hentry =>
    exact Or.inl (aged_setTask (aged_resolve hentry) k _)
  | leaves q entry hentry hleft => exact Or.inl (aged_setTask (aged_leave hentry hleft) k _)
  | stores q entry params outcome hentry _ =>
    have hset := aged_answer hentry (some (.user, outcome))
    exact Or.inl ⟨hset.entries, hset.emitted, hset.stopped, hset.cancelled⟩

theorem CallStep.aged (h : CallStep s t) : Aged s t :=
  aged_of_questions h.questions h.emitted h.stopped h.cancelled

theorem aged_dispatch (task : Task ν) : Aged s (s.dispatch task) := by
  unfold Service.dispatch
  split
  · exact aged_of_questions rfl List.prefix_rfl id fun _ => id
  · exact aged_of_questions rfl List.prefix_rfl id fun _ => id

/-- Only a task that was asked to opens a question. -/
theorem next_aged_or_opening {readers : Readers ν} {e : Event ν}
    (hnext : Service.next readers s e = some t) :
    Aged s t ∨ ∃ k input entry, e = .advance k input ∧ Opening s k t entry := by
  by_cases hadvance : ∃ k input, e = .advance k input
  · obtain ⟨k, input, rfl⟩ := hadvance
    obtain ⟨task, hget, hmoved⟩ := advance_moved hnext
    exact (hmoved.aged_or_opening hget).imp_right fun ⟨entry, h⟩ => ⟨k, input, entry, rfl, h⟩
  · rcases next_outside hnext fun k input heq => hadvance ⟨k, input, heq⟩ with hcall | ⟨task, rfl, -⟩
    · exact Or.inl hcall.aged
    · exact Or.inl (aged_dispatch task)

theorem Opening.views {k : Nat} {entry : Entry} (h : Opening s k t entry) :
    t.views = s.views ++ [entry.frame] := by
  unfold Service.views
  rw [h.questions, List.map_append]
  exact congrArg (· ++ [entry.frame]) views_retain

theorem Opening.cancelled {k : Nat} {entry : Entry} (h : Opening s k t entry) (call : String) :
    t.isCancelled call = s.isCancelled call := by
  unfold Service.isCancelled
  rw [h.calls]

theorem Opening.follows {k : Nat} {entry : Entry} (h : Opening s k t entry) : Follows s t :=
  ⟨h.views ▸ List.prefix_append _ _, h.emitted ▸ List.prefix_rfl, fun hs => h.stopped.trans hs,
    fun call hc => (h.cancelled call).trans hc⟩

theorem next_follows {readers : Readers ν} {e : Event ν}
    (hnext : Service.next readers s e = some t) : Follows s t := by
  rcases next_aged_or_opening hnext with h | ⟨k, input, entry, -, h⟩
  · exact h.follows
  · exact h.follows

/-! ## The limits of `open` -/

/-- The limits, of all questions so far where they hold of them. -/
structure Bounded (s : Service ν) : Prop where
  left : ∀ e ∈ s.questions, e.live = false → s.isCancelled e.owner.call = true ∨ s.stopped = true
  unresolved : ∀ call, s.questions.countP (fun e => e.owner.call = call && !e.resolved) ≤ 1
  same : ∀ call, s.questions.countP (fun e => e.owner.call = call) ≤ 8
  total : s.questions.countP (·.live) ≤ 128

theorem bounded_start : (start : Service ν).Bounded :=
  ⟨nofun, fun _ => Nat.zero_le 1, fun _ => Nat.zero_le 8, Nat.zero_le 128⟩

theorem Bounded.aged (h : s.Bounded) (hstep : Aged s t) : t.Bounded := by
  refine ⟨fun e' he' hleft => ?_, fun call => Nat.le_trans ?_ (h.unresolved call),
    fun call => Nat.le_trans ?_ (h.same call), Nat.le_trans ?_ h.total⟩
  · obtain ⟨q, hq⟩ := List.mem_iff_getElem?.mp he'
    obtain ⟨e, he, hages⟩ : ∃ e, e ∈ s.questions ∧ e.Ages s e' := by
      have hlength := hstep.entries.length_eq
      obtain ⟨hlt, rfl⟩ := List.getElem?_eq_some_iff.mp hq
      exact ⟨s.questions[q], List.getElem_mem _, List.Forall₂.get hstep.entries (hlength ▸ hlt) hlt⟩
    have hwas : s.isCancelled e.owner.call = true ∨ s.stopped = true := by
      cases hlive : e.live with
      | true => exact hages.left hlive hleft
      | false => exact h.left e he hlive
    rw [hages.owner]
    exact hwas.imp (hstep.cancelled _) hstep.stopped
  · refine countP_le_of_forall₂ (fun e e' hages he' => ?_) hstep.entries
    rw [Bool.and_eq_true, decide_eq_true_iff, Bool.not_eq_true'] at he' ⊢
    refine ⟨hages.owner ▸ he'.1, ?_⟩
    cases hresolved : e.resolved with
    | false => rfl
    | true =>
      rw [hages.resolved hresolved] at he'
      cases he'.2
  · refine countP_le_of_forall₂ (fun e e' hages he' => ?_) hstep.entries
    exact hages.owner ▸ he'
  · exact countP_le_of_forall₂ (fun e e' hages he' => hages.live he') hstep.entries

/-- The questions of the call that asks are in the map, and resolved. -/
theorem Opening.settled (h : s.Bounded) {k : Nat} {entry : Entry} (hopen : Opening s k t entry) :
    ∀ e ∈ s.questions, e.owner.call = entry.owner.call → e.resolved = true := by
  intro e he hcall
  have hlive : e.live = true := by
    by_contra hleft
    rcases h.left e he (Bool.eq_false_iff.mpr hleft) with hcancelled | hstopped
    · rw [hcall, hopen.uncancelled] at hcancelled
      cases hcancelled
    · rw [hopen.running] at hstopped
      cases hstopped
  have hkept : e ∈ s.retain.entries := by
    refine List.mem_filter.mpr ⟨List.mem_map.mpr ⟨e, he, ?_⟩, hlive⟩
    rw [hcall, hopen.uncancelled, Bool.not_false, Bool.and_true]
  have hroom := hopen.room
  unfold isFull at hroom
  rw [Bool.or_eq_false_iff] at hroom
  have hsame := List.any_eq_false.mp hroom.2 e (List.mem_filter.mpr ⟨hkept, decide_eq_true hcall⟩)
  simpa using hsame

theorem Bounded.opening (h : s.Bounded) {k : Nat} {entry : Entry} (hopen : Opening s k t entry) :
    t.Bounded := by
  have hretain := h.aged (aged_retain s)
  have hsettled := hopen.settled h
  have hroom := hopen.room
  unfold isFull at hroom
  rw [Bool.or_eq_false_iff, Bool.or_eq_false_iff, decide_eq_false_iff_not,
    decide_eq_false_iff_not] at hroom
  -- the map holds every question of the call that asks
  have hsame : s.retain.questions.countP (fun e => e.owner.call = entry.owner.call) =
      (s.retain.entries.filter (·.owner.call = entry.owner.call)).length := by
    rw [entries, List.filter_filter, ← List.countP_eq_length_filter]
    refine List.countP_congr fun e he => ?_
    rw [Bool.and_eq_true, decide_eq_true_iff]
    refine ⟨fun hcall => ⟨hcall, ?_⟩, And.left⟩
    by_contra hleft
    rcases hretain.left e he (Bool.eq_false_iff.mpr hleft) with hcancelled | hstopped
    · rw [hcall] at hcancelled
      exact Bool.eq_false_iff.mp hopen.uncancelled hcancelled
    · exact Bool.eq_false_iff.mp hopen.running hstopped
  have hnone : s.retain.questions.countP (fun e => e.owner.call = entry.owner.call && !e.resolved) =
      0 := by
    refine List.countP_eq_zero.mpr fun e he => ?_
    obtain ⟨old, hold, rfl⟩ := List.mem_map.mp he
    simp only [Bool.and_eq_true, decide_eq_true_iff, Bool.not_eq_true', not_and,
      Bool.not_eq_false]
    exact hsettled old hold
  have hother : ∀ call, entry.owner.call ≠ call → decide (entry.owner.call = call) = false :=
    fun call hne => decide_eq_false hne
  refine ⟨fun e he hleft => ?_, fun call => ?_, fun call => ?_, ?_⟩
  · rw [hopen.questions] at he
    rcases List.mem_append.mp he with he | he
    · exact (hretain.left e he hleft).imp (fun hc => (hopen.cancelled _).trans hc)
        fun hs => hopen.stopped.trans hs
    · rw [List.mem_singleton.mp he, hopen.live] at hleft
      cases hleft
  · rw [hopen.questions, List.countP_append, List.countP_singleton]
    by_cases hcall : entry.owner.call = call
    · subst hcall
      rw [hnone]
      split <;> omega
    · rw [hother call hcall, Bool.false_and, if_neg (by simp)]
      exact hretain.unresolved call
  · rw [hopen.questions, List.countP_append, List.countP_singleton]
    by_cases hcall : entry.owner.call = call
    · subst hcall
      rw [hsame]
      split <;> omega
    · rw [hother call hcall, if_neg (by simp)]
      exact hretain.same call
  · rw [hopen.questions, List.countP_append, List.countP_singleton, List.countP_eq_length_filter]
    have htotal := hroom.1.1
    unfold entries at htotal
    split <;> omega

theorem Bounded.next (h : s.Bounded) {readers : Readers ν} {e : Event ν}
    (hnext : Service.next readers s e = some t) : t.Bounded := by
  rcases next_aged_or_opening hnext with hstep | ⟨k, input, entry, -, hopen⟩
  · exact h.aged hstep
  · exact h.opening hopen

theorem Bounded.entries_unresolved (h : s.Bounded) (call : String) :
    (s.entries.filter fun e => e.owner.call = call && !e.resolved).length ≤ 1 := by
  rw [← List.countP_eq_length_filter]
  exact Nat.le_trans List.filter_sublist.countP_le (h.unresolved call)

theorem Bounded.entries_same (h : s.Bounded) (call : String) :
    (s.entries.filter (·.owner.call = call)).length ≤ 8 := by
  rw [← List.countP_eq_length_filter]
  exact Nat.le_trans List.filter_sublist.countP_le (h.same call)

theorem Bounded.entries_total (h : s.Bounded) : s.entries.length ≤ 128 := by
  rw [entries, ← List.countP_eq_length_filter]
  exact h.total

/-! ## Stored answers -/

/-- The parameters name an entry of the map. -/
def Names (s : Service ν) (q : Nat) (params : JsonTree ν) : Prop :=
  ∃ entry, s.questions[q]? = some entry ∧ entry.live = true ∧
    stringParam params "question_id" = .ok entry.id

/-- They name one, and match its call, binding, session, slot and revision. -/
def Admits (s : Service ν) (q : Nat) (params : JsonTree ν) : Prop :=
  ∃ entry, s.questions[q]? = some entry ∧ entry.live = true ∧
    stringParam params "question_id" = .ok entry.id ∧ s.matchesParams entry params = true

theorem names_of_find {q : Nat} {params : JsonTree ν} (h : s.find params = some q) :
    s.Names q params := by
  unfold find at h
  split at h
  · cases h
  · rename_i id hid
    obtain ⟨hlt, hp, -⟩ := List.findIdx?_eq_some_iff_getElem.mp h
    rw [Bool.and_eq_true, beq_iff_eq] at hp
    exact ⟨_, List.getElem?_eq_getElem hlt, hp.1, hp.2 ▸ hid⟩

/-- What matches an entry later matches it now: only its call may have been cancelled since. -/
theorem Names.admits {q : Nat} {params : JsonTree ν} {entry : Entry} (h : s.Names q params)
    (hfollows : Follows s t) (hget : t.questions[q]? = some entry)
    (hmatches : t.matchesParams entry params = true) : s.Admits q params := by
  obtain ⟨old, hold, hlive, hid⟩ := h
  refine ⟨old, hold, hlive, hid, ?_⟩
  obtain ⟨later, hlater⟩ := hfollows.views
  have hview : t.views[q]? = some old.frame := by
    rw [← hlater]
    have hs := views_get hold
    exact List.getElem?_append_left (List.getElem?_eq_some_iff.mp hs).1 ▸ hs
  have hframe : entry.frame = old.frame := Option.some.inj ((views_get hget).symm.trans hview)
  have howner : entry.owner = old.owner := congrArg QuestionView.owner hframe
  have hrevision : entry.revision = old.revision := congrArg QuestionView.revision hframe
  unfold matchesParams at hmatches ⊢
  rw [howner, hrevision, Bool.and_eq_true] at hmatches
  rw [Bool.and_eq_true]
  refine ⟨hmatches.1, ?_⟩
  cases hcancelled : s.isCancelled old.owner.call with
  | false => rfl
  | true =>
    rw [hfollows.cancelled _ hcancelled] at hmatches
    cases hmatches.2

/-- What a task on an answer relies on, among states of the past. -/
def Vouches (past : Service ν → Prop) (s : Service ν) : Task ν → Prop
  | .found q params => ∃ u, past u ∧ Follows u s ∧ u.Names q params
  | .checked q params _ => ∃ u, past u ∧ u.Admits q params
  | _ => True

structure Vouched (past : Service ν → Prop) (s : Service ν) : Prop where
  tasks : ∀ task ∈ s.tasks, s.Vouches past task
  stored : ∀ p ∈ s.stored, ∃ u, past u ∧ u.Admits p.1 p.2

variable {past : Service ν → Prop}

theorem vouched_start : (start : Service ν).Vouched past := ⟨nofun, nofun⟩

theorem Vouches.follows {task : Task ν} (h : s.Vouches past task) (hfollows : Follows s t) :
    t.Vouches past task := by
  cases task with
  | found q params =>
    obtain ⟨u, hu, hbefore, hnames⟩ := h
    exact ⟨u, hu, hbefore.trans hfollows, hnames⟩
  | checked q params outcome => exact h
  | _ => trivial

theorem Vouched.step (h : s.Vouched past) (hfollows : Follows s t)
    (htasks : ∀ task ∈ t.tasks, task ∈ s.tasks ∨ t.Vouches past task)
    (hstored : ∀ p ∈ t.stored, p ∈ s.stored ∨ ∃ u, past u ∧ u.Admits p.1 p.2) :
    t.Vouched past := by
  refine ⟨fun task hmem => ?_, fun p hp => ?_⟩
  · exact (htasks task hmem).elim (fun hold => (h.tasks task hold).follows hfollows) id
  · exact (hstored p hp).elim (h.stored p) id

theorem Vouched.moved (h : s.Vouched past) (hpast : past s) {k : Nat} {task : Task ν}
    (hget : s.tasks[k]? = some task) (hmoved : Moved s k task t) (hfollows : Follows s t) :
    t.Vouched past := by
  have hmem := h.tasks task (List.mem_of_getElem? hget)
  -- the task at `k` goes on with one that needs no more than it knows
  have hset : ∀ next : Task ν, t.tasks = s.tasks.set k next → t.Vouches past next →
      ∀ other ∈ t.tasks, other ∈ s.tasks ∨ t.Vouches past other := by
    intro next heq hnext other hother
    rw [heq] at hother
    refine (List.mem_or_eq_of_mem_set hother).imp_right fun hnew => ?_
    rw [hnew]
    exact hnext
  have hsame : t.stored = s.stored →
      ∀ p ∈ t.stored, p ∈ s.stored ∨ ∃ u, past u ∧ u.Admits p.1 p.2 :=
    fun heq p hp => Or.inl (heq ▸ hp)
  cases hmoved with
  | finds q params hfind =>
    exact h.step hfollows (hset _ rfl ⟨s, hpast, hfollows, names_of_find hfind⟩) (hsame rfl)
  | checks q entry params outcome hentry hmatches =>
    obtain ⟨u, hu, hbefore, hnames⟩ := hmem
    exact h.step hfollows (hset _ rfl ⟨u, hu, hnames.admits hbefore hentry hmatches⟩) (hsame rfl)
  | stores q entry params outcome hentry _ =>
    refine h.step hfollows (hset _ rfl trivial) fun p hp => ?_
    refine (List.mem_append.mp hp).imp_right fun hlast => ?_
    rw [List.mem_singleton.mp hlast]
    exact hmem
  | announces q entry room _ =>
    cases room <;> exact h.step hfollows (hset _ rfl trivial) (hsame rfl)
  | closes q entry room _ =>
    cases room <;> exact h.step hfollows (hset _ rfl trivial) (hsame rfl)
  | replies views room =>
    cases room <;> exact h.step hfollows (hset _ rfl trivial) (hsame rfl)
  | ended | refused | opens | wakes | gives | resolves | leaves | repeats | flags | lists =>
    exact h.step hfollows (hset _ rfl trivial) (hsame rfl)

theorem Vouched.next (h : s.Vouched past) (hpast : past s) {readers : Readers ν} {e : Event ν}
    (hnext : Service.next readers s e = some t) : t.Vouched past := by
  have hfollows := next_follows hnext
  by_cases hadvance : ∃ k input, e = .advance k input
  · obtain ⟨k, input, rfl⟩ := hadvance
    obtain ⟨task, hget, hmoved⟩ := advance_moved hnext
    exact h.moved hpast hget hmoved hfollows
  · rcases next_outside hnext fun k input heq => hadvance ⟨k, input, heq⟩ with
      hcall | ⟨task, rfl, hrequest⟩
    · exact h.step hfollows (fun task hmem => Or.inl (hcall.tasks ▸ hmem))
        fun p hp => Or.inl (hcall.stored ▸ hp)
    · unfold Service.dispatch at hfollows ⊢
      split at hfollows
      · rename_i hfull
        rw [if_pos hfull]
        exact h
      · rename_i hroom
        rw [if_neg hroom]
        refine h.step hfollows (fun other hmem => ?_) fun p hp => Or.inl hp
        refine (List.mem_append.mp hmem).imp_right fun hlast => ?_
        obtain rfl := List.mem_singleton.mp hlast
        cases other with
        | asking | answering | listing => trivial
        | _ => cases hrequest

end Service

end Questions

end Host

end AgentBridge
