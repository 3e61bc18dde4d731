import AgentBridge.Client.Subscriptions

/-!
# The observers of a run

A queue sees the events of its run and the calls of its own consumer, and nothing of the other queues.
The last event that it yields by itself is the end of the run.
-/

namespace AgentBridge

open Reasoning

namespace Client

namespace HostRun

variable {D E : Type} {bytes : RunEvent D → Nat} {h h' : HostRun D E}

/-- A call that throws changes nothing. -/
def advance (bytes : RunEvent D → Nat) (h : HostRun D E) (event : Event D E) : HostRun D E :=
  (h.step bytes event).getD h

def run (bytes : RunEvent D → Nat) (h : HostRun D E) (events : List (Event D E)) : HostRun D E :=
  events.foldl (advance bytes) h

/-- The id that the run is bound to. -/
def bound (sessionId : String) (runId : Option String) : Event D E → Option String
  | .bind id session => if session = sessionId then some id else runId
  | _ => runId

/-- What one queue sees of an event of the run, or of a call of its own consumer. -/
def view (bytes : RunEvent D → Nat) (sessionId : String) (i : Nat) (runId : Option String) :
    Event D E → List (Events.Step (RunEvent D) E)
  | .subscribe _ | .bind _ _ => []
  | .accept event =>
      if runId = some event.runId ∧ event.sessionId = sessionId then
        .push event (bytes event) :: if event.kind = .runFinished then [.ended none] else []
      else []
  | .fail error => [.ended (some (.failure error))]
  | .next j => if j = i then [.next] else []
  | .close j => if j = i then [.close] else []

def views (bytes : RunEvent D → Nat) (sessionId : String) (i : Nat) :
    Option String → List (Event D E) → List (Events.Step (RunEvent D) E)
  | _, [] => []
  | runId, event :: events =>
      view bytes sessionId i runId event ++
        views bytes sessionId i (bound sessionId runId event) events

/-- What a queue sees first when it is subscribed. -/
def opening (bytes : RunEvent D → Nat) (h : HostRun D E) : List (Events.Step (RunEvent D) E) :=
  match h.terminal, h.failure with
  | some event, _ => [.push event (bytes event), .ended none]
  | none, some error => [.ended (some (.failure error))]
  | none, none => []

/-- The subscribers are the queues that have not ended. -/
structure Active (h : HostRun D E) : Prop where
  running : ∀ i, i ∈ h.subscribers ↔ ∃ q, h.queues[i]? = some q ∧ q.done = false
  nodup : h.subscribers.Nodup

/-- A run that is over has no subscribers. -/
structure Valid (h : HostRun D E) : Prop extends Active h where
  terminal : ∀ event, h.terminal = some event →
    event.kind = .runFinished ∧ h.subscribers = []
  failure : h.failure.isSome → h.subscribers = []

theorem queues_update (h : HostRun D E) (i j : Nat)
    (f : Events (RunEvent D) E → Events (RunEvent D) E) :
    (h.update i f).queues[j]? = if i = j then h.queues[j]?.map f else h.queues[j]? := by
  rw [show (h.update i f).queues = h.queues.modify i f from rfl, List.getElem?_modify]
  split
  · rfl
  · exact Option.map_id'

theorem Active.update (hactive : h.Active) (i : Nat)
    {f : Events (RunEvent D) E → Events (RunEvent D) E}
    (hf : ∀ q, q.done = true → (f q).done = true) : (h.update i f).Active := by
  have hsub : (h.update i f).subscribers =
      if (((h.update i f).queues[i]?).map (·.done)).getD false
      then h.subscribers.filter (· ≠ i) else h.subscribers := rfl
  rw [queues_update, if_pos rfl] at hsub
  refine ⟨fun j => ?_, ?_⟩
  · rw [hsub, queues_update]
    by_cases hij : i = j
    · subst hij
      rw [if_pos rfl]
      cases hq : h.queues[i]? with
      | none =>
        have hout : i ∉ h.subscribers := by
          intro hmem
          obtain ⟨q, hq', -⟩ := (hactive.running i).mp hmem
          rw [hq] at hq'
          cases hq'
        simpa using hout
      | some q =>
        cases hdone : (f q).done with
        | true => simp [hdone]
        | false =>
          have hrunning : q.done = false := by
            cases hq' : q.done with
            | false => rfl
            | true =>
              rw [hf q hq'] at hdone
              cases hdone
          have hmem := (hactive.running i).mpr ⟨q, hq, hrunning⟩
          simpa [hdone] using hmem
    · rw [if_neg hij, ← hactive.running j]
      split
      · rw [List.mem_filter]
        exact ⟨fun hmem => hmem.1, fun hmem => ⟨hmem, by simpa using Ne.symm hij⟩⟩
      · exact Iff.rfl
  · rw [hsub]
    split
    · exact hactive.nodup.filter _
    · exact hactive.nodup

/-- One call on each of some queues. -/
theorem queues_foldl_update (h : HostRun D E) {is : List Nat} (hnodup : is.Nodup) (j : Nat)
    (f : Events (RunEvent D) E → Events (RunEvent D) E) :
    (is.foldl (fun h i => h.update i f) h).queues[j]? =
      if j ∈ is then h.queues[j]?.map f else h.queues[j]? := by
  induction is generalizing h with
  | nil => rfl
  | cons i is ih =>
    obtain ⟨hfresh, hrest⟩ := List.nodup_cons.mp hnodup
    rw [List.foldl_cons, ih _ hrest, queues_update]
    by_cases hij : i = j
    · subst hij
      simp [hfresh]
    · simp [hij, Ne.symm hij]

theorem Active.foldl_update (hactive : h.Active) (is : List Nat)
    {f : Events (RunEvent D) E → Events (RunEvent D) E}
    (hf : ∀ q, q.done = true → (f q).done = true) :
    (is.foldl (fun h i => h.update i f) h).Active := by
  induction is generalizing h with
  | nil => exact hactive
  | cons i is ih => exact ih (hactive.update i hf)

/-- A call on all active queues is one on every queue, since it changes no queue that has ended. -/
theorem Active.broadcast (hactive : h.Active) (j : Nat)
    {f : Events (RunEvent D) E → Events (RunEvent D) E} (hf : ∀ q, q.done = true → f q = q) :
    (h.subscribers.foldl (fun h i => h.update i f) h).queues[j]? = h.queues[j]?.map f := by
  rw [queues_foldl_update h hactive.nodup]
  split
  · rfl
  · rename_i hout
    cases hq : h.queues[j]? with
    | none => rfl
    | some q =>
      have hdone : q.done = true := by
        cases hq' : q.done with
        | true => rfl
        | false => exact absurd ((hactive.running j).mpr ⟨q, hq, hq'⟩) hout
      rw [Option.map_some, hf q hdone]

/-- A call that ends every queue leaves no subscriber. -/
theorem Active.endAll (hactive : h.Active)
    {f : Events (RunEvent D) E → Events (RunEvent D) E} (hf : ∀ q, q.done = true → f q = q)
    (hend : ∀ q, (f q).done = true) :
    (h.subscribers.foldl (fun h i => h.update i f) h).subscribers = [] := by
  have hafter := hactive.foldl_update h.subscribers (f := f) fun q _ => hend q
  rw [List.eq_nil_iff_forall_not_mem]
  intro j hmem
  obtain ⟨q, hq, hrunning⟩ := (hafter.running j).mp hmem
  rw [hactive.broadcast j hf] at hq
  obtain ⟨before, -, hbefore⟩ := Option.map_eq_some_iff.mp hq
  rw [← hbefore, hend before] at hrunning
  cases hrunning

theorem deliver_of_done {q : Events (RunEvent D) E} (hdone : q.done = true) (event : RunEvent D)
    (terminal : Bool) : deliver bytes event terminal q = q := by
  unfold deliver
  rw [show q.push event (bytes event) = q from if_pos hdone]
  cases terminal with
  | true => exact Events.ended_of_done hdone none
  | false => rfl

/-- A queue that was pushed the last event has ended after that. -/
theorem deliver_done (event : RunEvent D) (q : Events (RunEvent D) E) :
    (deliver bytes event true q).done = true := Events.ended_done _ none

theorem Active.congr (hactive : h.Active) {terminal : Option (RunEvent D)} {failure : Option E} :
    ({ h with terminal, failure } : HostRun D E).Active := ⟨hactive.running, hactive.nodup⟩

theorem accept_last (bytes : RunEvent D → Nat) {event : RunEvent D}
    (haccepts : h.runId = some event.runId ∧ event.sessionId = h.sessionId)
    (hkind : event.kind = .runFinished) :
    h.accept bytes event =
      some (h.subscribers.foldl (fun h i => h.update i (deliver bytes event true))
        { h with terminal := some event }) := by
  unfold HostRun.accept
  rw [if_pos haccepts, if_pos hkind]
  rfl

theorem accept_other (bytes : RunEvent D → Nat) {event : RunEvent D}
    (haccepts : h.runId = some event.runId ∧ event.sessionId = h.sessionId)
    (hkind : event.kind ≠ .runFinished) :
    h.accept bytes event =
      some (h.subscribers.foldl
        (fun h₀ i => h₀.update i (deliver bytes event h.terminal.isSome)) h) := by
  unfold HostRun.accept
  rw [if_pos haccepts, if_neg hkind]

theorem update_fields (h : HostRun D E) (i : Nat)
    (f : Events (RunEvent D) E → Events (RunEvent D) E) :
    (h.update i f).sessionId = h.sessionId ∧ (h.update i f).runId = h.runId ∧
      (h.update i f).terminal = h.terminal ∧ (h.update i f).failure = h.failure ∧
      (h.update i f).queues.length = h.queues.length :=
  ⟨rfl, rfl, rfl, rfl, List.length_modify ..⟩

theorem foldl_update_fields (h : HostRun D E) (is : List Nat)
    (f : Events (RunEvent D) E → Events (RunEvent D) E) :
    let after := is.foldl (fun h i => h.update i f) h
    after.sessionId = h.sessionId ∧ after.runId = h.runId ∧ after.terminal = h.terminal ∧
      after.failure = h.failure ∧ after.queues.length = h.queues.length := by
  induction is generalizing h with
  | nil => exact ⟨rfl, rfl, rfl, rfl, rfl⟩
  | cons i is ih =>
    obtain ⟨hsession, hrun, hterminal, hfailure, hlength⟩ := ih (h.update i f)
    obtain ⟨hsession', hrun', hterminal', hfailure', hlength'⟩ := update_fields h i f
    exact ⟨hsession.trans hsession', hrun.trans hrun', hterminal.trans hterminal',
      hfailure.trans hfailure', hlength.trans hlength'⟩

theorem Valid.update (hvalid : h.Valid) (i : Nat)
    {f : Events (RunEvent D) E → Events (RunEvent D) E}
    (hf : ∀ q, q.done = true → (f q).done = true) : (h.update i f).Valid := by
  have hempty : h.subscribers = [] → (h.update i f).subscribers = [] := by
    intro hnone
    unfold HostRun.update
    simp [hnone]
  exact
    { toActive := hvalid.toActive.update i hf
      terminal := fun event hevent =>
        ⟨(hvalid.terminal event hevent).1, hempty (hvalid.terminal event hevent).2⟩
      failure := fun hfailed => hempty (hvalid.failure hfailed) }

theorem Valid.foldl_update (hvalid : h.Valid) (is : List Nat)
    {f : Events (RunEvent D) E → Events (RunEvent D) E}
    (hf : ∀ q, q.done = true → (f q).done = true) :
    (is.foldl (fun h i => h.update i f) h).Valid := by
  induction is generalizing h with
  | nil => exact hvalid
  | cons i is ih => exact ih (hvalid.update i hf)

theorem Valid.accept (hvalid : h.Valid) {event : RunEvent D}
    (haccept : h.accept bytes event = some h') : h'.Valid := by
  by_cases haccepts : h.runId = some event.runId ∧ event.sessionId = h.sessionId
  · by_cases hkind : event.kind = .runFinished
    · rw [accept_last bytes haccepts hkind] at haccept
      rw [← Option.some.inj haccept]
      have hactive : ({ h with terminal := some event } : HostRun D E).Active := hvalid.congr
      have hnone := hactive.endAll (f := deliver bytes event true)
        (fun q hq => deliver_of_done hq event true) (deliver_done event)
      obtain ⟨-, -, hterminal, -⟩ := foldl_update_fields
        ({ h with terminal := some event } : HostRun D E) h.subscribers (deliver bytes event true)
      refine ⟨hactive.foldl_update _ fun q _ => deliver_done event q, fun e he => ?_, fun _ => hnone⟩
      rw [hterminal] at he
      cases he
      exact ⟨hkind, hnone⟩
    · rw [accept_other bytes haccepts hkind] at haccept
      rw [← Option.some.inj haccept]
      refine hvalid.foldl_update _ fun q hq => ?_
      rw [deliver_of_done hq]
      exact hq
  · have hnone : h.accept bytes event = none := if_neg haccepts
    rw [hnone] at haccept
    cases haccept

theorem Valid.fail (hvalid : h.Valid) (error : E) : (h.fail error).Valid := by
  have hactive : ({ h with failure := some error } : HostRun D E).Active := hvalid.congr
  have hnone : (h.fail error).subscribers = [] :=
    hactive.endAll (fun q hq => Events.ended_of_done hq _) fun q => Events.ended_done q _
  obtain ⟨-, -, hterminal, -⟩ := foldl_update_fields
    ({ h with failure := some error } : HostRun D E) h.subscribers
    (Events.ended (some (.failure error)))
  refine ⟨hactive.foldl_update _ fun q _ => Events.ended_done q _, fun event hevent => ?_,
    fun _ => hnone⟩
  have hbefore : h.terminal = some event := hterminal.symm.trans hevent
  exact ⟨(hvalid.terminal event hbefore).1, hnone⟩

theorem Active.append (hactive : h.Active) {queue : Events (RunEvent D) E}
    (hdone : queue.done = true) :
    ({ h with queues := h.queues ++ [queue] } : HostRun D E).Active := by
  refine ⟨fun i => ?_, hactive.nodup⟩
  rw [hactive.running i, List.getElem?_append]
  split
  · exact Iff.rfl
  · rename_i hout
    rw [List.getElem?_eq_none (Nat.not_lt.mp hout)]
    constructor
    · rintro ⟨q, hq, -⟩
      cases hq
    · rintro ⟨q, hq, hrunning⟩
      have hlast : q = queue := by
        have hmem := List.mem_of_getElem? hq
        simpa using hmem
      rw [hlast, hdone] at hrunning
      cases hrunning

theorem Active.join (hactive : h.Active) {queue : Events (RunEvent D) E}
    (hrunning : queue.done = false) :
    ({ h with
      queues := h.queues ++ [queue]
      subscribers := h.subscribers ++ [h.queues.length] } : HostRun D E).Active := by
  have hfresh : h.queues.length ∉ h.subscribers := by
    intro hmem
    obtain ⟨q, hq, -⟩ := (hactive.running _).mp hmem
    rw [List.getElem?_eq_none (Nat.le_refl _)] at hq
    cases hq
  refine ⟨fun i => ?_, ?_⟩
  · show i ∈ h.subscribers ++ [h.queues.length] ↔ ∃ q, (h.queues ++ [queue])[i]? = some q ∧ _
    rw [List.mem_append, List.mem_singleton, hactive.running i]
    rcases Nat.lt_trichotomy i h.queues.length with hi | hi | hi
    · rw [List.getElem?_append_left hi]
      constructor
      · rintro (hq | rfl)
        · exact hq
        · exact absurd hi (Nat.lt_irrefl _)
      · exact .inl
    · subst hi
      rw [List.getElem?_concat_length]
      exact ⟨fun _ => ⟨queue, rfl, hrunning⟩, fun _ => .inr rfl⟩
    · rw [List.getElem?_eq_none (Nat.le_of_lt hi), List.getElem?_eq_none (by simp; omega)]
      constructor
      · rintro (⟨q, hq, -⟩ | rfl)
        · cases hq
        · exact absurd hi (Nat.lt_irrefl _)
      · rintro ⟨q, hq, -⟩
        cases hq
  · rw [List.nodup_append]
    refine ⟨hactive.nodup, by simp, fun i hi j hj hij => ?_⟩
    rw [List.mem_singleton] at hj
    rw [hij, hj] at hi
    exact hfresh hi

theorem new_running {options : SubscriptionOptions} {queue : Events (RunEvent D) E}
    (hnew : Events.new options = some queue) : queue.done = false := by
  simp only [Events.new, Option.bind_eq_bind, Option.bind_eq_some_iff] at hnew
  obtain ⟨maxEvents, -, maxBytes, -, hnew⟩ := hnew
  rw [← Option.some.inj hnew]

/-- Subscribing adds a queue behind the others, which has seen how the run ended. -/
theorem Valid.subscribe (hvalid : h.Valid) {options : SubscriptionOptions}
    (hsubscribe : h.subscribe bytes options = some h') :
    h'.Valid ∧ ∃ queue, Events.new options = some queue ∧
      h' = { h with
        queues := h.queues ++ [queue.run (h.opening bytes)], subscribers := h'.subscribers } := by
  unfold HostRun.subscribe at hsubscribe
  split at hsubscribe
  · cases hsubscribe
  · cases hnew : (Events.new options : Option (Events (RunEvent D) E)) with
    | none =>
      rw [hnew] at hsubscribe
      cases hsubscribe
    | some queue =>
      rw [hnew] at hsubscribe
      obtain ⟨sessionId, runId, queues, subscribers, terminal, failure⟩ := h
      cases terminal with
      | some event =>
        rw [← Option.some.inj hsubscribe]
        have hactive := hvalid.append (Events.ended_done (queue.push event (bytes event)) none)
        exact ⟨⟨hactive, hvalid.terminal, hvalid.failure⟩, queue, rfl, rfl⟩
      | none =>
        cases failure with
        | some error =>
          rw [← Option.some.inj hsubscribe]
          have hactive := hvalid.append (Events.ended_done queue (some (.failure error)))
          exact ⟨⟨hactive, hvalid.terminal, hvalid.failure⟩, queue, rfl, rfl⟩
        | none =>
          rw [← Option.some.inj hsubscribe]
          exact ⟨⟨hvalid.toActive.join (new_running hnew), nofun, nofun⟩, queue, rfl, rfl⟩

theorem start_valid (sessionId : String) : (start sessionId : HostRun D E).Valid :=
  ⟨⟨fun _ => ⟨nofun, fun ⟨_, hq, _⟩ => nomatch hq⟩, List.nodup_nil⟩, nofun, nofun⟩

theorem Valid.advance (bytes : RunEvent D → Nat) (hvalid : h.Valid) (event : Event D E) :
    (h.advance bytes event).Valid := by
  unfold HostRun.advance
  cases hstep : h.step bytes event with
  | none => exact hvalid
  | some h' =>
    show h'.Valid
    cases event with
    | subscribe options => exact (hvalid.subscribe hstep).1
    | bind runId sessionId =>
      have hbind : h.bind runId sessionId = some h' := hstep
      unfold HostRun.bind at hbind
      split at hbind
      · rw [← Option.some.inj hbind]
        exact ⟨⟨hvalid.running, hvalid.nodup⟩, hvalid.terminal, hvalid.failure⟩
      · cases hbind
    | accept event => exact hvalid.accept hstep
    | fail error =>
      rw [← Option.some.inj hstep]
      exact hvalid.fail error
    | next i =>
      rw [← Option.some.inj hstep]
      exact hvalid.update i fun q hq => (Events.step_of_done hq .next).1
    | close i =>
      rw [← Option.some.inj hstep]
      exact hvalid.update i fun q hq => (Events.step_of_done hq .close).1

theorem Valid.run (hvalid : h.Valid) (events : List (Event D E)) : (h.run bytes events).Valid := by
  induction events generalizing h with
  | nil => exact hvalid
  | cons event events ih => exact ih (hvalid.advance bytes event)

theorem view_accept {event : RunEvent D} {i : Nat}
    (haccepts : h.runId = some event.runId ∧ event.sessionId = h.sessionId) :
    view bytes h.sessionId i h.runId (.accept event : Event D E) =
      .push event (bytes event) :: if event.kind = .runFinished then [.ended none] else [] :=
  if_pos haccepts

/-- A call of a consumer is seen by its own queue only. -/
theorem queues_call (j : Nat) (f : Events (RunEvent D) E → Events (RunEvent D) E)
    (call : Events.Step (RunEvent D) E) (hcall : ∀ q, Events.step q call = f q) {i : Nat}
    (hi : i < h.queues.length) :
    (h.update j f).queues[i]? = h.queues[i]?.map (Events.run · (if j = i then [call] else [])) ∧
      (h.update j f).sessionId = h.sessionId ∧ (h.update j f).runId = h.runId ∧
      i < (h.update j f).queues.length := by
  refine ⟨?_, rfl, rfl, Nat.lt_of_lt_of_eq hi (update_fields h j f).2.2.2.2.symm⟩
  rw [queues_update]
  split
  · refine congrArg (Option.map · h.queues[i]?) (funext fun q => ?_)
    exact (hcall q).symm
  · exact Option.map_id'.symm

/-- A queue sees an event as `view` says, whatever the other queues are. -/
theorem Valid.queues_advance (bytes : RunEvent D → Nat) (hvalid : h.Valid) (event : Event D E)
    {i : Nat} (hi : i < h.queues.length) :
    (h.advance bytes event).queues[i]? =
        h.queues[i]?.map (Events.run · (view bytes h.sessionId i h.runId event)) ∧
      (h.advance bytes event).sessionId = h.sessionId ∧
      (h.advance bytes event).runId = bound h.sessionId h.runId event ∧
      i < (h.advance bytes event).queues.length := by
  have hsame : h.queues[i]?.map (Events.run · ([] : List (Events.Step (RunEvent D) E))) =
      h.queues[i]? := Option.map_id'
  cases event with
  | subscribe options =>
    rw [show view bytes h.sessionId i h.runId (.subscribe options : Event D E) = [] from rfl, hsame]
    cases hstep : h.subscribe bytes options with
    | none =>
      rw [show h.advance bytes (.subscribe options) = h from congrArg (Option.getD · h) hstep]
      exact ⟨rfl, rfl, rfl, hi⟩
    | some h' =>
      obtain ⟨-, queue, -, hafter⟩ := hvalid.subscribe hstep
      rw [show h.advance bytes (.subscribe options) = h' from congrArg (Option.getD · h) hstep,
        hafter]
      refine ⟨List.getElem?_append_left hi, rfl, rfl, ?_⟩
      show i < (h.queues ++ _).length
      rw [List.length_append]
      omega
  | bind id session =>
    rw [show view bytes h.sessionId i h.runId (.bind id session : Event D E) = [] from rfl, hsame]
    by_cases hsession : session = h.sessionId
    · have hbind : h.advance bytes (.bind id session) = { h with runId := some id } :=
        congrArg (Option.getD · h) (if_pos hsession)
      rw [hbind]
      exact ⟨rfl, rfl, (if_pos hsession).symm, hi⟩
    · have hbind : h.advance bytes (.bind id session) = h :=
        congrArg (Option.getD · h) (if_neg hsession)
      rw [hbind]
      exact ⟨rfl, rfl, (if_neg hsession).symm, hi⟩
  | accept event =>
    by_cases haccepts : h.runId = some event.runId ∧ event.sessionId = h.sessionId
    · by_cases hkind : event.kind = .runFinished
      · have hview : view bytes h.sessionId i h.runId (.accept event : Event D E) =
            [.push event (bytes event), .ended none] := by
          rw [view_accept haccepts, if_pos hkind]
        have hadvance := congrArg (Option.getD · h) (accept_last bytes haccepts hkind)
        obtain ⟨hsession, hrun, -, -, hlength⟩ := foldl_update_fields
          ({ h with terminal := some event } : HostRun D E) h.subscribers (deliver bytes event true)
        have hactive : ({ h with terminal := some event } : HostRun D E).Active := hvalid.congr
        rw [show h.advance bytes (.accept event) = _ from hadvance, hview]
        refine ⟨hactive.broadcast i fun q hq => deliver_of_done hq event true, hsession, hrun, ?_⟩
        exact Nat.lt_of_lt_of_eq hi hlength.symm
      · have hview : view bytes h.sessionId i h.runId (.accept event : Event D E) =
            [.push event (bytes event)] := by
          rw [view_accept haccepts, if_neg hkind]
        have hadvance := congrArg (Option.getD · h) (accept_other bytes haccepts hkind)
        obtain ⟨hsession, hrun, -, -, hlength⟩ := foldl_update_fields h h.subscribers
          (deliver bytes event h.terminal.isSome)
        rw [show h.advance bytes (.accept event) = _ from hadvance, hview]
        refine ⟨?_, hsession, hrun, Nat.lt_of_lt_of_eq hi hlength.symm⟩
        refine (hvalid.broadcast i fun q hq => deliver_of_done hq event _).trans ?_
        cases hterminal : h.terminal with
        | none => rfl
        | some e =>
          -- A run that is over has no subscribers left.
          obtain ⟨q, hq⟩ : ∃ q, h.queues[i]? = some q := ⟨_, List.getElem?_eq_getElem hi⟩
          have hdone : q.done = true := by
            cases hq' : q.done with
            | true => rfl
            | false =>
              have hmem := (hvalid.running i).mpr ⟨q, hq, hq'⟩
              rw [(hvalid.terminal e hterminal).2] at hmem
              cases hmem
          rw [hq, Option.map_some, Option.map_some, deliver_of_done hdone]
          show some q = some (q.push event (bytes event))
          rw [show q.push event (bytes event) = q from if_pos hdone]
    · have hview : view bytes h.sessionId i h.runId (.accept event : Event D E) = [] :=
        if_neg haccepts
      have hadvance : h.advance bytes (.accept event) = h :=
        congrArg (Option.getD · h) (if_neg haccepts)
      rw [hview, hadvance, hsame]
      exact ⟨rfl, rfl, rfl, hi⟩
  | fail error =>
    obtain ⟨hsession, hrun, -, -, hlength⟩ := foldl_update_fields
      ({ h with failure := some error } : HostRun D E) h.subscribers
      (Events.ended (some (.failure error)))
    have hactive : ({ h with failure := some error } : HostRun D E).Active := hvalid.congr
    refine ⟨hactive.broadcast i fun q hq => Events.ended_of_done hq _, hsession, hrun, ?_⟩
    exact Nat.lt_of_lt_of_eq hi hlength.symm
  | next j => exact queues_call j Events.next .next (fun _ => rfl) hi
  | close j => exact queues_call j Events.close .close (fun _ => rfl) hi

theorem Valid.queues_run (bytes : RunEvent D → Nat) (hvalid : h.Valid) (events : List (Event D E))
    {i : Nat} (hi : i < h.queues.length) :
    (h.run bytes events).queues[i]? =
      h.queues[i]?.map (Events.run · (views bytes h.sessionId i h.runId events)) := by
  induction events generalizing h with
  | nil => exact Option.map_id'.symm
  | cons event events ih =>
    obtain ⟨hqueue, hsession, hrun, hi'⟩ := hvalid.queues_advance bytes event hi
    have hrest := ih (hvalid.advance bytes event) hi'
    rw [hqueue, hsession, hrun, Option.map_map] at hrest
    refine hrest.trans (congrArg (Option.map · h.queues[i]?) (funext fun q => ?_))
    exact (Events.run_append q _ _).symm

/-! ## The end of a subscription -/

/-- A queue that ended by itself was offered the end of the run last. -/
def EndsRun (given : List (RunEvent D)) (closed : Bool) (q : Events (RunEvent D) E) : Prop :=
  q.done = true → q.error = none → closed = false →
    given.getLast?.map (·.kind) = some .runFinished

variable {given : List (RunEvent D)} {closed : Bool} {q : Events (RunEvent D) E}

theorem EndsRun.of_done (hends : EndsRun given closed q) (hdone : q.done = true)
    (steps : List (Events.Step (RunEvent D) E)) :
    EndsRun (given ++ q.offered steps) (closed || q.closes steps) (q.run steps) := by
  intro _ hnone hopen
  rw [Events.offered_of_done hdone, List.append_nil]
  rw [(Events.run_of_done hdone steps).2] at hnone
  exact hends hdone hnone (Bool.or_eq_false_iff.mp hopen).1

theorem EndsRun.push (hends : EndsRun given closed q) (event : RunEvent D) (n : Nat) :
    EndsRun (given ++ q.offered [.push event n]) (closed || q.closes [.push event n])
      (q.run [.push event n]) := by
  cases hdone : q.done with
  | true => exact hends.of_done hdone _
  | false =>
    intro hafter hnone _
    have hafter : (q.push event n).done = true := hafter
    have hnone : (q.push event n).error = none := hnone
    cases hwaiter : q.waiter with
    | true =>
      rw [Events.push_waiting hdone hwaiter] at hafter
      exact nomatch hdone.symm.trans hafter
    | false =>
      rw [Events.push_idle hdone hwaiter] at hafter hnone
      split at hafter
      · rename_i hfull
        rw [if_pos hfull, Events.ended_some hdone] at hnone
        cases hnone
      · exact nomatch hdone.symm.trans hafter

/-- The last event of a run ends its queues. -/
theorem EndsRun.last (hends : EndsRun given closed q) {event : RunEvent D}
    (hkind : event.kind = .runFinished) (n : Nat) :
    EndsRun (given ++ q.offered [.push event n, .ended none])
      (closed || q.closes [.push event n, .ended none])
      (q.run [.push event n, .ended none]) := by
  cases hdone : q.done with
  | true => exact hends.of_done hdone _
  | false =>
    intro _ _ _
    have hoffered : q.offered [.push event n, .ended none] = [event] := by
      simp [Events.offered, Events.offer, hdone]
    rw [hoffered, List.getLast?_concat, Option.map_some, hkind]

theorem EndsRun.view (bytes : RunEvent D → Nat) (hsound : q.Sound given closed)
    (hends : EndsRun given closed q)
    (sessionId : String) (i : Nat) (runId : Option String) (event : Event D E) :
    EndsRun (given ++ q.offered (view bytes sessionId i runId event))
      (closed || q.closes (view bytes sessionId i runId event))
      (q.run (view bytes sessionId i runId event)) := by
  have hnil : EndsRun (given ++ q.offered []) (closed || q.closes []) (q.run []) := by
    rw [show q.offered [] = [] from rfl, List.append_nil, show q.closes [] = false from rfl,
      Bool.or_false]
    exact hends
  cases hdone : q.done with
  | true => exact hends.of_done hdone _
  | false =>
    obtain ⟨hnone, -⟩ := hsound.running hdone
    unfold HostRun.view
    cases event with
    | subscribe options => exact hnil
    | bind id session => exact hnil
    | accept event =>
      simp only
      split
      · split
        · rename_i hkind
          exact hends.last hkind _
        · exact hends.push event _
      · exact hnil
    | fail error =>
      intro _ hafter _
      have hafter : (q.ended (some (.failure error))).error = none := hafter
      rw [Events.ended_some hdone] at hafter
      cases hafter
    | next j =>
      simp only
      split
      · intro hafter _ _
        have hafter : q.next.done = true := hafter
        rw [Events.next_done, hdone] at hafter
        cases hafter
      · exact hnil
    | close j =>
      simp only
      split
      · intro _ _ hopen
        simp [Events.closes, Events.closesBy, hnone] at hopen
      · exact hnil

theorem EndsRun.views (bytes : RunEvent D → Nat) (hsound : q.Sound given closed)
    (hends : EndsRun given closed q)
    (sessionId : String) (i : Nat) (runId : Option String) (events : List (Event D E)) :
    EndsRun (given ++ q.offered (views bytes sessionId i runId events))
      (closed || q.closes (views bytes sessionId i runId events))
      (q.run (views bytes sessionId i runId events)) := by
  induction events generalizing runId given closed q with
  | nil =>
    rw [HostRun.views, show q.offered [] = [] from rfl, List.append_nil,
      show q.closes [] = false from rfl, Bool.or_false]
    exact hends
  | cons event events ih =>
    have hnow := EndsRun.view bytes hsound hends sessionId i runId event
    rw [HostRun.views, Events.offered_append, Events.closes_append, Events.run_append,
      ← List.append_assoc, ← Bool.or_assoc]
    exact ih (hsound.run _) hnow _

theorem Valid.opening_ends (hvalid : h.Valid) {options : SubscriptionOptions}
    (hnew : Events.new options = some q) :
    EndsRun (q.offered (h.opening bytes)) (q.closes (h.opening bytes))
      (q.run (h.opening bytes)) := by
  have hrunning := new_running hnew
  have hends : EndsRun [] false q := fun hdone => nomatch hrunning.symm.trans hdone
  unfold opening
  cases hterminal : h.terminal with
  | some event =>
    have hlast := hends.last (hvalid.terminal event hterminal).1 (bytes event)
    rwa [List.nil_append, Bool.false_or] at hlast
  | none =>
    cases h.failure with
    | some error =>
      intro _ hnone _
      have hnone : (q.ended (some (.failure error))).error = none := hnone
      rw [Events.ended_some hrunning] at hnone
      cases hnone
    | none =>
      intro hdone
      exact nomatch hrunning.symm.trans hdone

/-- A subscription over the rest of its run. -/
theorem Valid.subscription (hvalid : h.Valid) {options : SubscriptionOptions}
    (hsubscribe : h.subscribe bytes options = some h') (events : List (Event D E)) :
    ∃ queue, Events.new options = some queue ∧
      (h'.run bytes events).queues[h.queues.length]? = some (queue.run (h.opening bytes ++
        views bytes h.sessionId h.queues.length h.runId events)) := by
  obtain ⟨hvalid', queue, hnew, hafter⟩ := hvalid.subscribe hsubscribe
  have hlast : h'.queues[h.queues.length]? = some (queue.run (h.opening bytes)) := by
    rw [hafter]
    exact List.getElem?_concat_length
  have hi : h.queues.length < h'.queues.length := by
    rw [hafter]
    simp
  have hrun := hvalid'.queues_run bytes events hi
  have hsession : h'.sessionId = h.sessionId := by rw [hafter]
  have hid : h'.runId = h.runId := by rw [hafter]
  rw [hlast, hsession, hid, Option.map_some, ← Events.run_append] at hrun
  exact ⟨queue, hnew, hrun⟩

/-- What a subscription comes to over the rest of its run. -/
theorem Valid.observed (hvalid : h.Valid) {options : SubscriptionOptions}
    (hsubscribe : h.subscribe bytes options = some h') (after : List (Event D E)) :
    let seen := h.opening bytes ++ views bytes h.sessionId h.queues.length h.runId after
    ∃ q, Events.new options = some q ∧ q.Gapless seen ∧
      (h'.run bytes after).queues[h.queues.length]? = some (q.run seen) ∧
      (IterResult.finished ∈ (q.run seen).results → q.closes seen = false →
        (q.run seen).received.getLast?.map (·.kind) = some .runFinished) := by
  intro seen
  obtain ⟨q, hnew, hlast⟩ := hvalid.subscription hsubscribe after
  have hgapless := Events.new_gapless hnew seen
  have hends : EndsRun (q.offered seen) (q.closes seen) (q.run seen) := by
    have hsound := (Events.new_sound hnew).run (h.opening bytes)
    rw [List.nil_append, Bool.false_or] at hsound
    have hviews := EndsRun.views bytes hsound (hvalid.opening_ends hnew) h.sessionId
      h.queues.length h.runId after
    rwa [← Events.offered_append, ← Events.closes_append, ← Events.run_append] at hviews
  refine ⟨q, hnew, hgapless, hlast, fun hfinished hopen => ?_⟩
  obtain ⟨hdone, hnone, -⟩ := ((Events.new_sound hnew).run seen).finished hfinished
  rw [hgapless.whole hfinished hopen]
  exact hends hdone hnone hopen

/-- An observer of a run sees a stream without gaps, or learns of the gap, unless it closes its own
subscription first; and what it sees does not depend on the other observers. -/
theorem observers_learn_of_gaps {V F : Type} {queue : Events V F} {options : SubscriptionOptions}
    (hnew : Events.new options = some queue) (steps : List (Events.Step V F))
    (bytes : RunEvent D → Nat) (sessionId : String) (before after : List (Event D E))
    {h' : HostRun D E} {own : SubscriptionOptions}
    (hsubscribe : ((start sessionId).run bytes before).subscribe bytes own = some h') :
    queue.Gapless steps ∧
      let h : HostRun D E := (start sessionId).run bytes before
      let seen := h.opening bytes ++ views bytes h.sessionId h.queues.length h.runId after
      ∃ q, Events.new own = some q ∧ q.Gapless seen ∧
        (h'.run bytes after).queues[h.queues.length]? = some (q.run seen) ∧
        (IterResult.finished ∈ (q.run seen).results → q.closes seen = false →
          (q.run seen).received.getLast?.map (·.kind) = some .runFinished) :=
  ⟨Events.new_gapless hnew steps, ((start_valid sessionId).run before).observed hsubscribe after⟩

/-- The default subscription of a run that sends one text and ends. -/
theorem default_observer_learns_of_gaps :
    let text : RunEvent Nat := ⟨"s", "r", .textDelta, 0⟩
    let last : RunEvent Nat := ⟨"s", "r", .runFinished, 1⟩
    let seen : List (Events.Step (RunEvent Nat) Unit) := [.next, .push text 8, .push last 8,
      .ended none, .next, .next]
    ∃ q, Events.new ⟨none, none⟩ = some q ∧ q.Gapless seen ∧
      (q.run seen).received = [text, last] := by
  intro text last seen
  have hnew : (Events.new ⟨none, none⟩ : Option (Events Nat Unit)) = some _ := rfl
  have hsubscribe : ((start "s" : HostRun Nat Unit).run (fun _ => 8) []).subscribe (fun _ => 8)
      ⟨none, none⟩ = some _ := rfl
  have hobserved := observers_learn_of_gaps hnew [] (fun _ => 8) "s" []
    [.next 0, .bind "r" "s", .accept text, .accept last, .next 0, .next 0] hsubscribe
  obtain ⟨-, q, hnew, hgapless, -⟩ := hobserved
  refine ⟨q, hnew, hgapless, ?_⟩
  rw [← Option.some.inj hnew]
  rfl

end HostRun

end Client

end AgentBridge
