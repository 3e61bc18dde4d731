import AgentBridge.Questions.Pending
import AgentBridge.Records.Pairing
import Mathlib.Data.Set.Subsingleton

/-!
# A question is resolved once

The gate holds the answer as soon as the store does, so whoever comes first resolves the question,
and everybody after that is given the same answer or refused.
-/

namespace AgentBridge

open Reasoning

namespace Questions

variable {σ : Type} {store : Store σ} {answers : σ → Set Snapshot} {request : Snapshot}
  {host : ActorId}

/-- What the handle relies on, with the answers that a state of the store holds for the request. -/
structure Store.ResolvesOnce (store : Store σ) (answers : σ → Set Snapshot) (request : Snapshot) :
    Prop where
  /-- A failing call changes nothing, -/
  failed : ∀ actor outcome state e state',
    store.resolve request.record.id request.revision (answerDraft request actor outcome) state =
      (.error e, state') → state' = state
  /-- and the first one that succeeds stores the answer that it returns. -/
  stored : ∀ actor outcome state answer state',
    store.resolve request.record.id request.revision (answerDraft request actor outcome) state =
      (.ok answer, state') → answers state = ∅ →
    answers state' = {answer} ∧ answer.record.actor = actor ∧
      answer.record.payload = .answer outcome .stored

/-- The answer says what this call says. -/
def Repeats (answer : Snapshot) (actor : ActorId) (outcome : AnswerOutcome) : Prop :=
  answer.record.actor = actor ∧ answer.record.payload = .answer outcome .stored

/-- The gate agrees with the store, and everybody was given the answer in the gate. -/
structure System.Agrees (answers : σ → Set Snapshot) (s : System σ) : Prop where
  unresolved : s.gate.resolved = none →
    answers s.store = ∅ ∧ s.gate.sender = true ∧ s.channel = none
  resolved : ∀ a, s.gate.resolved = some a → answers s.store = {a}
  sent : ∀ a, s.channel = some a → s.gate.resolved = some a
  delivered : ∀ a, s.gate.resolved = some a → s.waiter ≠ .gone → s.channel = some a
  returned : ∀ r ∈ s.returned, ∀ a, r.result = .ok a → s.gate.resolved = some a
  neverClosed : Return.waited (.error .receiverClosed) ∉ s.returned
  gone : s.waiter = .gone →
    (∃ a, s.gate.resolved = some a) ∨ ∃ e, Return.dropped (.error e) ∈ s.returned

theorem System.Agrees.start {state : σ} (h : answers state = ∅) :
    (System.start state).Agrees answers where
  unresolved _ := ⟨h, rfl, rfl⟩
  resolved a ha := by cases ha
  sent a ha := by cases ha
  delivered a ha := by cases ha
  returned r hr := by cases hr
  neverClosed h := by cases h
  gone h := by cases h

/-- The state after the first call that resolves the question. -/
def System.answeredBy (s : System σ) (state : σ) (answer : Snapshot) : System σ :=
  { s with
    store := state
    gate := ⟨false, some answer⟩
    channel := if s.gate.sender ∧ s.waiter ≠ .gone then some answer else s.channel }

/-! ## One call -/

/-- Everything that a call under the gate can do. -/
inductive Resolution (store : Store σ) (answers : σ → Set Snapshot) (request : Snapshot)
    (actor : ActorId) (outcome : AnswerOutcome) (acceptExisting : Bool) (s : System σ) :
    Except QuestionError Snapshot × System σ → Prop where
  /-- The question was resolved before. -/
  | existing (a : Snapshot) (hgate : s.gate.resolved = some a)
      (h : acceptExisting = true ∨ Repeats a actor outcome) :
      Resolution store answers request actor outcome acceptExisting s (.ok a, s)
  | conflict (a : Snapshot) (hgate : s.gate.resolved = some a)
      (h : ¬ (acceptExisting = true ∨ Repeats a actor outcome)) :
      Resolution store answers request actor outcome acceptExisting s
        (.error (.store .alreadyResolved), s)
  | refused (e : StoreError) (hgate : s.gate.resolved = none)
      (h : store.resolve request.record.id request.revision (answerDraft request actor outcome)
        s.store = (.error e, s.store)) :
      Resolution store answers request actor outcome acceptExisting s (.error (.store e), s)
  | stored (a : Snapshot) (state : σ) (hgate : s.gate.resolved = none)
      (h : store.resolve request.record.id request.revision (answerDraft request actor outcome)
        s.store = (.ok a, state))
      (hstate : answers state = {a}) (hrepeats : Repeats a actor outcome) :
      Resolution store answers request actor outcome acceptExisting s (.ok a, s.answeredBy state a)

theorem resolve_resolution (hstore : store.ResolvesOnce answers request) {s : System σ}
    (h : s.Agrees answers) (actor : ActorId) (outcome : AnswerOutcome) (acceptExisting : Bool) :
    Resolution store answers request actor outcome acceptExisting s
      (resolve store request actor outcome acceptExisting s) := by
  unfold resolve
  cases hgate : s.gate.resolved with
  | some a =>
    by_cases haccept : acceptExisting = true ∨ Repeats a actor outcome
    · have haccept' := haccept
      unfold Repeats at haccept'
      simp only [if_pos haccept']
      exact .existing a hgate haccept
    · have haccept' := haccept
      unfold Repeats at haccept'
      simp only [if_neg haccept']
      exact .conflict a hgate haccept
  | none =>
    have hempty := (h.unresolved hgate).1
    cases hcall : store.resolve request.record.id request.revision
        (answerDraft request actor outcome) s.store with
    | mk result state =>
      cases result with
      | error e =>
        have hsame := hstore.failed actor outcome s.store e state hcall
        subst hsame
        exact .refused e hgate hcall
      | ok a =>
        obtain ⟨hstate, hrepeats⟩ := hstore.stored actor outcome s.store a state hcall hempty
        exact .stored a state hgate hcall hstate hrepeats

/-- The answer that is stored reaches the gate, and the waiter unless it is gone. -/
theorem System.Agrees.answeredBy {s : System σ} (h : s.Agrees answers)
    (hgate : s.gate.resolved = none) {state : σ} {a : Snapshot} (hstate : answers state = {a}) :
    (s.answeredBy state a).Agrees answers := by
  obtain ⟨-, hsender, hchannel⟩ := h.unresolved hgate
  have hnone : ∀ r ∈ s.returned, ∀ b, r.result ≠ .ok b := by
    intro r hr b hb
    have := h.returned r hr b hb
    rw [hgate] at this
    cases this
  refine ⟨?_, ?_, ?_, ?_, ?_, h.neverClosed, ?_⟩
  · intro hnone
    cases hnone
  · intro b hb
    obtain rfl := Option.some.inj hb
    exact hstate
  · intro b hb
    have hb' : (if s.gate.sender ∧ s.waiter ≠ .gone then some a else s.channel) = some b := hb
    by_cases halive : s.waiter = .gone
    · simp [halive, hchannel] at hb'
    · simp only [hsender, halive, ne_eq, not_false_eq_true, and_self, if_true] at hb'
      exact hb'
  · intro b hb halive
    obtain rfl := Option.some.inj hb
    have halive' : s.waiter ≠ .gone := halive
    exact if_pos ⟨hsender, halive'⟩
  · intro r hr b hb
    exact absurd hb (hnone r hr b)
  · intro hgone
    exact .inl ⟨a, rfl⟩

/-- A call keeps the agreement, and gives the answer in the gate if it succeeds. -/
theorem Resolution.agrees {actor : ActorId} {outcome : AnswerOutcome} {acceptExisting : Bool}
    {s : System σ} {out : Except QuestionError Snapshot × System σ}
    (hres : Resolution store answers request actor outcome acceptExisting s out)
    (h : s.Agrees answers) :
    out.2.Agrees answers ∧ out.2.waiter = s.waiter ∧ out.2.returned = s.returned ∧
      ∀ a, out.1 = .ok a → out.2.gate.resolved = some a := by
  cases hres with
  | existing a hgate =>
    refine ⟨h, rfl, rfl, ?_⟩
    intro b hb
    rw [← Except.ok.inj hb]
    exact hgate
  | conflict a hgate => exact ⟨h, rfl, rfl, fun b hb => by cases hb⟩
  | refused e hgate => exact ⟨h, rfl, rfl, fun b hb => by cases hb⟩
  | stored a state hgate _ hstate _ =>
    refine ⟨h.answeredBy hgate hstate, rfl, rfl, ?_⟩
    intro b hb
    rw [← Except.ok.inj hb]
    rfl

/-- The waiter moves on without a result. -/
theorem System.Agrees.move {s : System σ} (h : s.Agrees answers) (hs : s.waiter ≠ .gone)
    {w : Waiter} (hw : w ≠ .gone) : ({ s with waiter := w } : System σ).Agrees answers where
  unresolved := h.unresolved
  resolved := h.resolved
  sent := h.sent
  delivered a ha _ := h.delivered a ha hs
  returned := h.returned
  neverClosed := h.neverClosed
  gone hgone := absurd hgone hw

/-- A result that is returned to somebody. -/
theorem System.Agrees.record {s : System σ} (h : s.Agrees answers) {r : Return} {w : Waiter}
    (hok : ∀ a, r.result = .ok a → s.gate.resolved = some a)
    (hopen : r ≠ .waited (.error .receiverClosed)) (hstay : s.waiter = .gone → w = .gone)
    (hgone : w = .gone → s.waiter ≠ .gone →
      (∃ a, s.gate.resolved = some a) ∨ ∃ e, r = .dropped (.error e)) :
    ({ s with waiter := w, returned := s.returned ++ [r] } : System σ).Agrees answers := by
  refine ⟨h.unresolved, h.resolved, h.sent, ?_, ?_, ?_, ?_⟩
  · intro a ha halive
    exact h.delivered a ha fun hg => halive (hstay hg)
  · intro r' hr' a ha
    rcases List.mem_append.mp hr' with hr' | hr'
    · exact h.returned r' hr' a ha
    · rw [List.mem_singleton.mp hr'] at ha
      exact hok a ha
  · intro hclosed
    rcases List.mem_append.mp hclosed with hclosed | hclosed
    · exact h.neverClosed hclosed
    · exact hopen (List.mem_singleton.mp hclosed).symm
  · intro hw
    by_cases hbefore : s.waiter = .gone
    · rcases h.gone hbefore with hanswer | ⟨e, he⟩
      · exact .inl hanswer
      · exact .inr ⟨e, List.mem_append_left _ he⟩
    · rcases hgone hw hbefore with hanswer | ⟨e, he⟩
      · exact .inl hanswer
      · exact .inr ⟨e, by rw [he]; simp⟩

/-! ## Runs -/

/-- Others use the store without touching the answers to this request. -/
def Event.Bystander (answers : σ → Set Snapshot) : Event σ → Prop
  | .other op => ∀ state, answers (op state) = answers state
  | _ => True

theorem next_agrees (hstore : store.ResolvesOnce answers request) {s t : System σ} {e : Event σ}
    (h : s.Agrees answers) (he : e.Bystander answers)
    (hnext : next store request host s e = some t) : t.Agrees answers := by
  cases e with
  | answer actor outcome =>
    obtain ⟨hagrees, -, -, hok⟩ := (resolve_resolution hstore h actor outcome false).agrees h
    rw [← Option.some.inj hnext]
    refine hagrees.record hok ?_ id ?_
    · intro heq
      cases heq
    · exact fun hw hne => absurd hw hne
  | wait =>
    cases hw : s.waiter <;> simp only [next, hw, reduceCtorEq, Option.some.injEq] at hnext
    rw [← hnext]
    exact h.move (by simp [hw]) (by decide)
  | pollReceiver =>
    cases hw : s.waiter <;> simp only [next, hw, reduceCtorEq] at hnext
    cases hchannel : s.channel with
    | some answer =>
      simp only [hchannel, Option.some.injEq] at hnext
      rw [← hnext]
      have hsent := h.sent answer hchannel
      have hagrees := h.record (r := .waited (.ok answer)) (w := .finished) ?_ ?_ ?_ ?_
      · simpa only [hchannel] using hagrees
      · intro a ha
        rw [← Except.ok.inj ha]
        exact hsent
      · intro heq
        cases heq
      · intro hgone
        rw [hw] at hgone
        cases hgone
      · intro hgone
        cases hgone
    | none =>
      -- the sender is taken only to send, so the channel is not closed
      have hunresolved : s.gate.resolved = none := by
        cases hgate : s.gate.resolved with
        | none => rfl
        | some a =>
          have := h.delivered a hgate (by simp [hw])
          rw [hchannel] at this
          cases this
      have hsender := (h.unresolved hunresolved).2.1
      simp only [hchannel, hsender, if_true, Option.some.injEq] at hnext
      have hmoved := h.move (by simp [hw]) (w := .polled) (by decide)
      rw [← hnext]
      simpa only [hchannel] using hmoved
  | pollCancelled =>
    cases hw : s.waiter <;> simp only [next, hw, reduceCtorEq] at hnext
    by_cases hcancelled : s.cancelled = true
    · simp only [hcancelled, if_true, Option.some.injEq] at hnext
      have hres := resolve_resolution hstore h host .cancelled true
      obtain ⟨hagrees, hwaiter, -, hok⟩ := hres.agrees h
      rw [← hnext]
      refine hagrees.record hok ?_ ?_ ?_
      · intro heq
        have heq : (resolve store request host .cancelled true s).1 = .error .receiverClosed := by
          simpa [cancel] using heq
        cases hres' : resolve store request host .cancelled true s with
        | mk result s' =>
          rw [hres'] at hres heq
          cases hres <;> cases heq
      · intro hgone
        rw [hwaiter, hw] at hgone
        cases hgone
      · intro hgone
        cases hgone
    · rw [if_neg hcancelled] at hnext
      rw [← Option.some.inj hnext]
      exact h.move (by simp [hw]) (by decide)
  | cancelToken =>
    rw [← Option.some.inj hnext]
    exact ⟨h.unresolved, h.resolved, h.sent, h.delivered, h.returned, h.neverClosed, h.gone⟩
  | drop =>
    have hdrop : t = { (cancel store request host s).2 with
        waiter := .gone
        returned := (cancel store request host s).2.returned ++
          [.dropped (cancel store request host s).1] } := by
      cases hw : s.waiter <;> simp only [next, hw, reduceCtorEq, Option.some.injEq] at hnext
      all_goals exact hnext.symm
    obtain ⟨hagrees, -, -, hok⟩ := (resolve_resolution hstore h host .cancelled true).agrees h
    rw [hdrop]
    refine hagrees.record hok ?_ (fun _ => rfl) ?_
    · intro heq
      cases heq
    · intro _ _
      cases hresult : (cancel store request host s).1 with
      | ok a => exact .inl ⟨a, hok a hresult⟩
      | error e => exact .inr ⟨e, rfl⟩
  | other op =>
    rw [← Option.some.inj hnext]
    refine ⟨?_, ?_, h.sent, h.delivered, h.returned, h.neverClosed, h.gone⟩
    · intro hgate
      obtain ⟨hempty, hrest⟩ := h.unresolved hgate
      exact ⟨(he s.store).trans hempty, hrest⟩
    · intro a ha
      exact (he s.store).trans (h.resolved a ha)

theorem run_agrees (hstore : store.ResolvesOnce answers request) {events : List (Event σ)}
    {s t : System σ} (h : s.Agrees answers) (hothers : ∀ e ∈ events, e.Bystander answers)
    (hrun : Next.run (next store request host) events s = some t) : t.Agrees answers := by
  induction events generalizing s with
  | nil =>
    rw [← Option.some.inj hrun]
    exact h
  | cons e events ih =>
    obtain ⟨mid, hmid, hrest⟩ := Next.run_cons.mp hrun
    exact ih (next_agrees hstore h (hothers e (by simp)) hmid)
      (fun e he => hothers e (by simp [he])) hrest

/-! ## One winner -/

/-- What holds of a question after any run. -/
structure ResolvedOnce (store : Store σ) (answers : σ → Set Snapshot) (request : Snapshot)
    (host : ActorId) (s : System σ) : Prop where
  atMostOne : (answers s.store).Subsingleton
  agree : ∀ r ∈ s.returned, ∀ a, r.result = .ok a → answers s.store = {a}
  neverClosed : Return.waited (.error .receiverClosed) ∉ s.returned
  /-- The next call of `answer` succeeds exactly when it stores its answer or repeats the one that
  is stored, and one that fails leaves everything as it is, the waiter included. -/
  answer : ∀ actor outcome, ∃ result t,
    next store request host s (.answer actor outcome) = some t ∧
    t.returned = s.returned ++ [.answered actor outcome result] ∧
    ((∃ a, result = .ok a) ↔
      (answers s.store = ∅ ∧ ∃ a, answers t.store = {a} ∧ Repeats a actor outcome) ∨
        ∃ a, answers s.store = {a} ∧ Repeats a actor outcome) ∧
    ∀ e, result = .error e → t = { s with returned := t.returned }
  /-- The drop resolves the question unless the store refuses its write, -/
  dropped : ∀ t, next store request host s .drop = some t →
    (∀ e state, store.resolve request.record.id request.revision
      (answerDraft request host .cancelled) s.store ≠ (.error e, state)) →
    ∃ a, answers t.store = {a}
  /-- and the question stays resolved. -/
  gone : s.waiter = .gone →
    (∃ a, answers s.store = {a}) ∨ ∃ e, Return.dropped (.error e) ∈ s.returned

theorem answer_step (hstore : store.ResolvesOnce answers request) {s : System σ}
    (h : s.Agrees answers) (actor : ActorId) (outcome : AnswerOutcome) :
    ∃ result t, next store request host s (.answer actor outcome) = some t ∧
      t.returned = s.returned ++ [.answered actor outcome result] ∧
      ((∃ a, result = .ok a) ↔
        (answers s.store = ∅ ∧ ∃ a, answers t.store = {a} ∧ Repeats a actor outcome) ∨
          ∃ a, answers s.store = {a} ∧ Repeats a actor outcome) ∧
      ∀ e, result = .error e → t = { s with returned := t.returned } := by
  have hres := resolve_resolution hstore h actor outcome false
  refine ⟨(resolve store request actor outcome false s).1,
    { (resolve store request actor outcome false s).2 with
      returned := (resolve store request actor outcome false s).2.returned ++
        [.answered actor outcome (resolve store request actor outcome false s).1] },
    rfl, ?_, ?_, ?_⟩
  · exact congrArg (· ++ _) (hres.agrees h).2.2.1
  · generalize resolve store request actor outcome false s = out at hres
    cases hres with
    | existing a hgate hsame =>
      have hanswers := h.resolved a hgate
      have hrepeats : Repeats a actor outcome := by simpa using hsame
      exact ⟨fun _ => .inr ⟨a, hanswers, hrepeats⟩, fun _ => ⟨a, rfl⟩⟩
    | conflict a hgate hdiffer =>
      have hanswers := h.resolved a hgate
      constructor
      · rintro ⟨b, hb⟩
        cases hb
      · rintro (⟨hempty, -⟩ | ⟨b, hb, hrepeats⟩)
        · rw [hanswers] at hempty
          exact absurd hempty (Set.singleton_ne_empty a)
        · rw [hanswers, Set.singleton_eq_singleton_iff] at hb
          exact absurd (.inr (hb ▸ hrepeats)) hdiffer
    | refused e hgate hcall =>
      obtain ⟨hempty, -⟩ := h.unresolved hgate
      constructor
      · rintro ⟨b, hb⟩
        cases hb
      · rintro (⟨-, b, hb, -⟩ | ⟨b, hb, -⟩)
        · have hb : answers s.store = {b} := hb
          rw [hempty] at hb
          exact absurd hb.symm (Set.singleton_ne_empty b)
        · rw [hempty] at hb
          exact absurd hb.symm (Set.singleton_ne_empty b)
    | stored a state hgate hcall hstate hrepeats =>
      obtain ⟨hempty, -⟩ := h.unresolved hgate
      exact ⟨fun _ => .inl ⟨hempty, a, hstate, hrepeats⟩, fun _ => ⟨a, rfl⟩⟩
  · intro e he
    generalize resolve store request actor outcome false s = out at hres he
    cases hres with
    | existing a => cases he
    | conflict a => rfl
    | refused e => rfl
    | stored a => cases he

theorem drop_step (hstore : store.ResolvesOnce answers request) {s t : System σ}
    (h : s.Agrees answers) (hnext : next store request host s .drop = some t)
    (haccepts : ∀ e state, store.resolve request.record.id request.revision
      (answerDraft request host .cancelled) s.store ≠ (.error e, state)) :
    ∃ a, answers t.store = {a} := by
  have hstate : t.store = (cancel store request host s).2.store := by
    cases hw : s.waiter <;> simp only [next, hw, reduceCtorEq, Option.some.injEq] at hnext
    all_goals rw [← hnext]
  have hres : Resolution store answers request host .cancelled true s
      (cancel store request host s) := resolve_resolution hstore h host .cancelled true
  rw [hstate]
  generalize cancel store request host s = out at hres
  cases hres with
  | existing a hgate => exact ⟨a, h.resolved a hgate⟩
  | conflict a hgate hdiffer => exact absurd (.inl rfl) hdiffer
  | refused e hgate hcall => exact absurd hcall (haccepts e s.store)
  | stored a state hgate hcall hstate => exact ⟨a, hstate⟩

/-- Whatever answers, cancellations, drops and other uses of the store come in whatever order, a
question has one answer, and everybody who is given one is given that one. -/
theorem question_is_resolved_once (hstore : store.ResolvesOnce answers request) {state : σ}
    (hopen : answers state = ∅) {events : List (Event σ)} {s : System σ}
    (hothers : ∀ e ∈ events, e.Bystander answers)
    (hrun : Next.run (next store request host) events (System.start state) = some s) :
    ResolvedOnce store answers request host s := by
  have h := run_agrees hstore (.start hopen) hothers hrun
  refine ⟨?_, ?_, h.neverClosed, answer_step hstore h, fun t => drop_step hstore h, ?_⟩
  · cases hgate : s.gate.resolved with
    | none =>
      rw [(h.unresolved hgate).1]
      exact Set.subsingleton_empty
    | some a =>
      rw [h.resolved a hgate]
      exact Set.subsingleton_singleton
  · intro r hr a ha
    exact h.resolved a (h.returned r hr a ha)
  · intro hgone
    rcases h.gone hgone with ⟨a, ha⟩ | hrefused
    · exact .inl ⟨a, h.resolved a ha⟩
    · exact .inr hrefused

/-! ## The memory store -/

/-- A state that calls have led to. -/
structure Kept where
  state : MemoryStore.State
  reached : ∃ ops, MemoryStore.machine.after ops .default = state

def Kept.exec {β : Type} (call : StoreCall β) (s : Kept) : Except Fault β × Kept :=
  ((MemoryStore.exec call s.state).1, ⟨(MemoryStore.exec call s.state).2, by
    obtain ⟨ops, hops⟩ := s.reached
    exact ⟨ops ++ [⟨call⟩], by rw [Machine.after_append, hops]; rfl⟩⟩)

/-- A panic under the mutex leaves it poisoned. -/
def ofFault {α : Type} : Except Fault α → Except StoreError α
  | .ok a => .ok a
  | .error (.error e) => .error e
  | .error .panic => .error .poisoned

def memoryStore : Store Kept where
  get id s := ofFault (s.exec (.get id)).1
  insert draft s := (ofFault (s.exec (.insert draft)).1, (s.exec (.insert draft)).2)
  resolve request revision decision s :=
    (ofFault (s.exec (.resolve request revision decision)).1,
      (s.exec (.resolve request revision decision)).2)

/-- The responses to a request that are in the store. -/
def memoryAnswers (request : RecordId) (s : Kept) : Set Snapshot :=
  {a | ∃ entry, s.state.records.lookup a.record.id = some entry ∧ entry.current = a ∧
    a.record.replyToId = some request ∧ a.record.payload.isResponse = true}

theorem ofFault_eq_ok {α : Type} {x : Except Fault α} {a : α} : ofFault x = .ok a ↔ x = .ok a := by
  cases x with
  | ok b => simp [ofFault]
  | error f => cases f <;> simp [ofFault]

/-- A response that is linked to a request is one of its answers. -/
theorem mem_memoryAnswers {request response : RecordId} {s : Kept}
    (h : s.state.decisions.lookup request = some response) :
    ∃ a, a ∈ memoryAnswers request s := by
  obtain ⟨ops, hops⟩ := s.reached
  have hpaired := MemoryStore.requestsPaired_after ops
  have hwf := MemoryStore.State.WellFormed.after ops
  rw [hops] at hpaired hwf
  obtain ⟨e, f, -, hf, -, hanswered⟩ := hpaired.answered request response h
  have hid : f.current.record.id = response := (hwf.entries response f hf).2
  have hkinds := Rules.responseMatches_kinds (responseMatches_eq_ok.mpr hanswered.fits)
  exact ⟨f.current, f, by rw [hid]; exact hf, rfl, hanswered.replyTo, hkinds.2⟩

theorem memoryStore_resolvesOnce (request : Snapshot) :
    memoryStore.ResolvesOnce (memoryAnswers request.record.id) request := by
  have hcases : ∀ (s : Kept) actor outcome,
      (∃ e, MemoryStore.resolve request.record.id request.revision
        (answerDraft request actor outcome) s.state = (.error e, s.state)) ∨
      (∃ response, s.state.decisions.lookup request.record.id = some response ∧
        ∃ a, MemoryStore.resolve request.record.id request.revision
          (answerDraft request actor outcome) s.state = (.ok a, s.state)) ∨
      ∃ entry ids, s.state.Answers request.record.id request.revision
          (answerDraft request actor outcome) entry ids ∧
        MemoryStore.resolve request.record.id request.revision
            (answerDraft request actor outcome) s.state =
          (.ok (Rules.created (answerDraft request actor outcome) ids.length),
            s.state.answered request.record.id entry (answerDraft request actor outcome) ids) := by
    intro s actor outcome
    obtain ⟨ops, hops⟩ := s.reached
    have hwf := MemoryStore.State.WellFormed.after ops
    rw [hops] at hwf
    rcases MemoryStore.resolve_cases (fun q a h => (hwf.decisions q a h).2) request.record.id
        request.revision (answerDraft request actor outcome) with
      herror | ⟨response, entry, hdecision, -, hok⟩ | hcreated
    · exact .inl herror
    · exact .inr (.inl ⟨response, hdecision, _, hok⟩)
    · exact .inr (.inr hcreated)
  constructor
  · intro actor outcome s e s' hcall
    have hstate : s'.state = (MemoryStore.resolve request.record.id request.revision
        (answerDraft request actor outcome) s.state).2 :=
      (congrArg (fun out => out.2.state) hcall).symm
    have hresult : ofFault (MemoryStore.resolve request.record.id request.revision
        (answerDraft request actor outcome) s.state).1 = .error e := congrArg Prod.fst hcall
    suffices hsame : s'.state = s.state by
      cases s
      cases s'
      cases hsame
      rfl
    rcases hcases s actor outcome with ⟨e', he⟩ | ⟨response, -, a, ha⟩ | ⟨entry, ids, -, ha⟩
    · rw [hstate, he]
    · rw [ha] at hresult
      cases hresult
    · rw [ha] at hresult
      cases hresult
  · intro actor outcome s answer s' hcall hempty
    have hstate : s'.state = (MemoryStore.resolve request.record.id request.revision
        (answerDraft request actor outcome) s.state).2 :=
      (congrArg (fun out => out.2.state) hcall).symm
    have hresult : (MemoryStore.resolve request.record.id request.revision
        (answerDraft request actor outcome) s.state).1 = .ok answer :=
      ofFault_eq_ok.mp (congrArg Prod.fst hcall)
    rcases hcases s actor outcome with ⟨e', he⟩ | ⟨response, hlinked, -⟩ | ⟨entry, ids, h, ha⟩
    · rw [he] at hresult
      cases hresult
    · obtain ⟨a, ha⟩ := mem_memoryAnswers hlinked
      rw [hempty] at ha
      cases ha
    rw [ha, Except.ok.injEq] at hresult
    rw [ha] at hstate
    have hkinds := Rules.responseMatches_kinds h.resolves.answers
    refine ⟨?_, by rw [← hresult]; rfl, by rw [← hresult]; rfl⟩
    ext b
    have hlookup : ∀ id, s'.state.records.lookup id =
        if id = answerId request.record.id then some ⟨answer, answer⟩
        else if id = request.record.id then
          some ⟨entry.initial, Rules.advance entry.current entry.current.record.payload .complete⟩
        else s.state.records.lookup id := by
      intro id
      rw [hstate, ← hresult]
      refine (MemoryStore.State.lookup_committed _ _ ids id).trans ?_
      congr 1
      exact MemoryStore.State.lookup_withCurrent s.state request.record.id entry _ id
    constructor
    · rintro ⟨found, hfound, rfl, hreply, hresponse⟩
      rw [hlookup] at hfound
      split at hfound
      · rw [← Option.some.inj hfound]
        rfl
      · split at hfound
        · -- the request itself is no response
          have hrequest := Payload.isRequest_eq_false_of_isResponse hresponse
          rw [← Option.some.inj hfound] at hrequest
          exact absurd (hkinds.1.symm.trans hrequest) (by decide)
        · have hold : found.current ∈ memoryAnswers request.record.id s :=
            ⟨found, hfound, rfl, hreply, hresponse⟩
          rw [hempty] at hold
          cases hold
    · intro hb
      rw [Set.mem_singleton_iff.mp hb]
      refine ⟨⟨answer, answer⟩, ?_, rfl, ?_, ?_⟩
      · rw [hlookup, ← hresult]
        exact if_pos rfl
      · rw [← hresult]
        rfl
      · rw [← hresult]
        rfl

/-- A request that is not linked to a response has no answers. -/
theorem memoryAnswers_eq_empty {request : RecordId} {s : Kept}
    (h : s.state.decisions.lookup request = none) : memoryAnswers request s = ∅ := by
  obtain ⟨ops, hops⟩ := s.reached
  have hpaired := MemoryStore.requestsPaired_after ops
  rw [hops] at hpaired
  rw [Set.eq_empty_iff_forall_notMem]
  rintro a ⟨entry, hentry, rfl, hreply, hresponse⟩
  have hlinked := (hpaired.replies request _ entry hentry hresponse).mp hreply
  rw [h] at hlinked
  cases hlinked

namespace Sample

def chat : SessionId := ⟨"chat", (rfl : false = false)⟩

def app : ActorId := ⟨"app", by decide⟩

def person : ActorId := ⟨"person", by decide⟩

def draft : Draft where
  id := ⟨"question", by decide⟩
  sessionId := chat
  runId := none
  actor := app
  replyToId := none
  source := none
  payload := .question ⟨"Go on?", [⟨"go", "Go on", true, .boolean⟩]⟩
  state := .opened

def asked : Except QuestionError Snapshot × Kept :=
  openQuestion memoryStore draft ⟨_, [⟨.createSession chat⟩], rfl⟩

/-- The first answer is not valid; the second one comes while the waiter is about to cancel. -/
def events : List (Event Kept) :=
  [.answer person (.submitted .empty), .wait, .pollReceiver, .cancelToken,
    .answer person (.submitted (.singleton "go" (.boolean true))), .pollCancelled,
    .answer app .declined, .drop]

def goOn : Snapshot := Rules.created draft 0

def finished : System Kept :=
  (Next.run (next memoryStore goOn app) events (System.start asked.2)).getD (System.start asked.2)

end Sample

theorem question_is_answered_in_time :
    Sample.asked.1 = .ok Sample.goOn ∧ Next.run (next memoryStore Sample.goOn Sample.app) Sample.events
        (System.start Sample.asked.2) = some Sample.finished ∧
      Sample.finished.gate.resolved.map (·.record.actor) = some Sample.person ∧
      ResolvedOnce memoryStore (memoryAnswers Sample.goOn.record.id) Sample.goOn Sample.app
        Sample.finished := by
  have hrun : Next.run (next memoryStore Sample.goOn Sample.app) Sample.events
      (System.start Sample.asked.2) = some Sample.finished :=
    Next.run_getD (by decide +kernel) _
  refine ⟨by decide +kernel, hrun, by decide +kernel, question_is_resolved_once
    (memoryStore_resolvesOnce Sample.goOn) (memoryAnswers_eq_empty (by decide +kernel)) ?_ hrun⟩
  intro e he
  simp only [Sample.events, List.mem_cons, List.not_mem_nil, or_false] at he
  rcases he with rfl | rfl | rfl | rfl | rfl | rfl | rfl | rfl
  all_goals trivial

end Questions

end AgentBridge
