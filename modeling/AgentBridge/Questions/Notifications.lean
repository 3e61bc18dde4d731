import AgentBridge.Questions.Hosted
import Mathlib.Data.List.Perm.Basic

/-!
# One notification for each question

Every announced question is handed to `onQuestion` once, unless it closed first.  This rests on the
handle being made when the question is announced: a reply that makes it earlier takes the notification
away.
-/

namespace AgentBridge

open Reasoning
open Host.Questions

namespace Client

namespace QuestionClient

variable {c d : QuestionClient} {frames done more : List Frame} {view : QuestionView} {f : Frame}

/-- The calls of `onQuestion` for a question that are still to be made. -/
def queued (c : QuestionClient) (id : String) : Nat :=
  c.continuations.countP fun
    | .notify _ id' => id' == id
    | .pending _ => false

structure Notifies (done : List Frame) (c : QuestionClient) : Prop where
  /-- Handles are made of announced questions. -/
  handles : ∀ h ∈ c.handles, .questionOpened h.view ∈ done
  accepted : ∀ v ∈ c.accepted, .questionOpened v ∈ done
  once : ∀ v ∈ c.accepted, c.notified.count v.questionId + c.queued v.questionId = 1 ∨
    c.notified.count v.questionId + c.queued v.questionId = 0 ∧
      ∃ h ∈ c.handles, h.view = v ∧ h.aborted = true
  others : ∀ id, (∀ v ∈ c.accepted, v.questionId ≠ id) → c.notified.count id + c.queued id = 0

theorem notifies_start : Notifies [] start := ⟨nofun, nofun, nofun, fun _ _ => rfl⟩

/-! ## Steps that notify of nothing -/

structure Quiet (c d : QuestionClient) : Prop where
  handles : ∃ g, Closing g ∧ d.handles = c.handles.map g
  accepted : d.accepted = c.accepted
  notified : d.notified = c.notified
  queued : ∀ id, d.queued id = c.queued id
  returned : d.returned = c.returned

theorem closing_id : Closing id := ⟨fun _ => rfl, fun _ => id, fun _ => id, fun _ => id⟩

theorem Closing.comp {g g' : QuestionHandle → QuestionHandle} (hg : Closing g) (hg' : Closing g') :
    Closing (g' ∘ g) where
  view h := (hg'.view _).trans (hg.view h)
  aborted h hh := hg'.aborted _ (hg.aborted h hh)
  kept h hh := hg.kept h (hg'.kept _ hh)
  dropped h hdropped hh := hg'.dropped _ (hg.dropped h hdropped) hh

theorem Quiet.refl (c : QuestionClient) : Quiet c c :=
  ⟨⟨id, closing_id, (List.map_id _).symm⟩, rfl, rfl, fun _ => rfl, rfl⟩

theorem Quiet.trans {e : QuestionClient} (h : Quiet c d) (h' : Quiet d e) : Quiet c e := by
  obtain ⟨g, hg, hd⟩ := h.handles
  obtain ⟨g', hg', he⟩ := h'.handles
  refine ⟨⟨g' ∘ g, hg.comp hg', ?_⟩, h'.accepted.trans h.accepted, h'.notified.trans h.notified,
    fun id => (h'.queued id).trans (h.queued id), h'.returned.trans h.returned⟩
  rw [he, hd, List.map_map]

theorem quiet_of_map {g : QuestionHandle → QuestionHandle} (hg : Closing g)
    (active : List ActiveCall) (stopped : Bool) :
    Quiet c { c with handles := c.handles.map g, active, stopped } :=
  ⟨⟨g, hg, rfl⟩, rfl, rfl, fun _ => rfl, rfl⟩

theorem quiet_of_active (active : List ActiveCall) : Quiet c { c with active } :=
  ⟨(Quiet.refl c).handles, rfl, rfl, fun _ => rfl, rfl⟩

theorem quiet_pruned (c : QuestionClient) : Quiet c c.pruned :=
  quiet_of_map (closing_release c.active) c.active c.stopped

theorem quiet_fail (c : QuestionClient) : Quiet c c.fail := quiet_of_map closing_drop _ true

/-- A frame that announces no question. -/
theorem quiet_process {valid threw : Bool} (hprocess : c.process valid f = (threw, d))
    (hopened : ∀ v, f ≠ .questionOpened v) : Quiet c d := by
  cases f with
  | toolCall owner =>
    simp only [process, accept] at hprocess
    split at hprocess
    · rename_i haccept
      obtain ⟨-, rfl⟩ := Prod.mk.inj hprocess
      split at haccept
      · exact Option.some.inj haccept ▸ .refl c
      split at haccept
      · cases haccept
      split at haccept
      · exact Option.some.inj haccept ▸ .refl c
      · exact Option.some.inj haccept ▸ quiet_of_active _
    · exact (Prod.mk.inj hprocess).2 ▸ .refl c
  | toolCancel owner =>
    simp only [process, cancel] at hprocess
    split at hprocess
    · rename_i hcancel
      obtain ⟨-, rfl⟩ := Prod.mk.inj hprocess
      split at hcancel
      · exact Option.some.inj hcancel ▸ quiet_of_map (closing_closeIf _) _ _
      · split at hcancel
        · exact Option.some.inj hcancel ▸ quiet_of_map (closing_closeIf _) _ _
        · cases hcancel
    · exact (Prod.mk.inj hprocess).2 ▸ .refl c
  | questionOpened v => exact absurd rfl (hopened v)
  | questionClosed id owner =>
    simp only [process, closed] at hprocess
    split at hprocess
    · rename_i hclosed
      obtain ⟨-, rfl⟩ := Prod.mk.inj hprocess
      split at hclosed
      · exact Option.some.inj hclosed ▸ .refl c
      · split at hclosed
        · exact Option.some.inj hclosed ▸ quiet_of_map (closing_closeIf _) _ _
        · cases hclosed
    · exact (Prod.mk.inj hprocess).2 ▸ .refl c
  | pendingReply views =>
    obtain ⟨-, rfl⟩ := Prod.mk.inj hprocess
    refine ⟨(Quiet.refl c).handles, rfl, rfl, fun id => ?_, rfl⟩
    show List.countP _ (c.continuations ++ [_]) = _
    rw [List.countP_append, List.countP_singleton]
    rfl

theorem Notifies.quiet (h : Notifies done c) (hquiet : Quiet c d) (hsub : done <+: more) :
    Notifies more d := by
  obtain ⟨g, hg, hhandles⟩ := hquiet.handles
  refine ⟨fun y hy => ?_, fun v hv => ?_, fun v hv => ?_, fun id hid => ?_⟩
  · rw [hhandles] at hy
    obtain ⟨x, hx, rfl⟩ := List.mem_map.mp hy
    rw [hg.view]
    exact hsub.subset (h.handles x hx)
  · exact hsub.subset (h.accepted v (hquiet.accepted ▸ hv))
  · rw [hquiet.notified, hquiet.queued]
    refine (h.once v (hquiet.accepted ▸ hv)).imp_right fun ⟨hzero, x, hx, hview, haborted⟩ => ?_
    refine ⟨hzero, g x, ?_, (hg.view x).trans hview, hg.aborted x haborted⟩
    rw [hhandles]
    exact List.mem_map_of_mem hx
  · rw [hquiet.notified, hquiet.queued]
    exact h.others id fun v hv => hid v (hquiet.accepted ▸ hv)

/-! ## Questions that are announced -/

theorem queued_make (c : QuestionClient) (view : QuestionView) (id : String) :
    (c.make view true).queued id =
      c.queued id + if c.callbacks < 16 ∧ view.questionId = id then 1 else 0 := by
  unfold make
  by_cases hcallbacks : c.callbacks < 16
  · rw [if_pos (by simpa using hcallbacks)]
    show List.countP _ (c.continuations ++ [_]) = _
    rw [List.countP_append, List.countP_singleton]
    simp [queued, hcallbacks]
  · rw [if_neg (by simpa using hcallbacks)]
    simp [queued, hcallbacks]

theorem make_history (c : QuestionClient) (view : QuestionView) (notify : Bool) :
    (c.make view notify).accepted = c.accepted ∧ (c.make view notify).notified = c.notified ∧
      (c.make view notify).returned = c.returned := by
  unfold make
  dsimp only
  split <;> exact ⟨rfl, rfl, rfl⟩

/-- An announced question has no handle yet, so it gets one, and its notification with it. -/
theorem Notifies.opened (h : Notifies frames c) (hknows : Knows frames frames c)
    (hlaw : Lawful (frames ++ [.questionOpened view])) {valid threw : Bool}
    (hprocess : c.process valid (.questionOpened view) = (threw, d)) :
    Notifies (if threw then frames else frames ++ [.questionOpened view]) d := by
  have hnew : .questionOpened view ∉ frames := ((eachAfter_concat.mp hlaw.opened).2 view rfl).1
  have hopens := hknows.opens hlaw.of_concat ((eachAfter_concat.mp hlaw.owners).2 view rfl) true
  have hpruned := quiet_pruned c
  have hfront : frames <+: frames ++ [.questionOpened view] := List.prefix_append _ _
  simp only [process] at hprocess
  generalize c.opened view true = result at hopens hprocess
  cases hopens with
  | ignored _ =>
    obtain ⟨rfl, rfl⟩ := Prod.mk.inj hprocess
    exact h.quiet hpruned hfront
  | existing i x hget _ hid =>
    -- the handle that is there would be of this question, which is announced only now
    have hx := (h.quiet hpruned List.prefix_rfl).handles x (List.mem_of_getElem? hget)
    have heq : x.view = view := hlaw.unique _ _
      (mentioned_of_opened (List.mem_append_left _ hx)) (mentioned_concat.mpr (Or.inr rfl)) hid
    exact absurd (heq ▸ hx) hnew
  | full _ _ _ _ =>
    obtain ⟨rfl, rfl⟩ := Prod.mk.inj hprocess
    exact h.quiet (hpruned.trans ⟨(Quiet.refl _).handles, rfl, rfl, fun _ => rfl, rfl⟩)
      List.prefix_rfl
  | made _ _ _ =>
    have hp := h.quiet hpruned hfront
    have hnotaccepted : ∀ v ∈ c.accepted, v.questionId ≠ view.questionId := by
      intro v hv hid
      have hopened := h.accepted v hv
      have heq : v = view := hlaw.unique _ _
        (mentioned_of_opened (List.mem_append_left _ hopened)) (mentioned_concat.mpr (Or.inr rfl)) hid
      exact hnew (heq ▸ hopened)
    obtain ⟨haccepted, hnotified, -⟩ := make_history c.pruned view true
    have hhandles : ∀ x ∈ (c.pruned.make view true).handles,
        .questionOpened x.view ∈ frames ++ [.questionOpened view] := by
      intro x hx
      rw [make_handles] at hx
      rcases List.mem_append.mp hx with hx | hx
      · exact hp.handles x hx
      · rw [List.mem_singleton.mp hx]
        exact List.mem_append_right _ (List.mem_singleton_self _)
    have hold : ∀ v ∈ c.accepted, ∀ n : Nat,
        n = c.notified.count v.questionId + c.queued v.questionId →
        n = 1 ∨ n = 0 ∧ ∃ x ∈ (c.pruned.make view true).handles, x.view = v ∧ x.aborted = true := by
      rintro v hv n rfl
      refine (hp.once v hv).imp_right ?_
      rintro ⟨hzero, x, hx, hrest⟩
      refine ⟨hzero, x, ?_, hrest⟩
      rw [make_handles]
      exact List.mem_append_left _ hx
    dsimp only at hprocess
    split at hprocess
    · rename_i hcallbacks
      obtain ⟨rfl, rfl⟩ := Prod.mk.inj hprocess
      have hcount : ∀ id, (c.pruned.make view true).notified.count id +
          (c.pruned.make view true).queued id =
          c.notified.count id + c.queued id + if view.questionId = id then 1 else 0 := by
        intro id
        rw [hnotified, queued_make]
        have hlt : c.pruned.callbacks < 16 := hcallbacks
        simp only [hlt, true_and]
        exact (Nat.add_assoc _ _ _).symm
      refine ⟨hhandles, fun v hv => ?_, fun v hv => ?_, fun id hid => ?_⟩
      · rw [haccepted] at hv
        rcases List.mem_append.mp hv with hv | hv
        · exact hp.accepted v hv
        · rw [List.mem_singleton.mp hv]
          exact List.mem_append_right _ (List.mem_singleton_self _)
      · have hsum := hcount v.questionId
        rw [haccepted] at hv
        rcases List.mem_append.mp hv with hv | hv
        · rw [if_neg (fun heq => hnotaccepted v hv heq.symm)] at hsum
          exact hold v hv _ hsum
        · obtain rfl := List.mem_singleton.mp hv
          rw [if_pos rfl, h.others _ hnotaccepted] at hsum
          exact Or.inl hsum
      · have hsum := hcount id
        rw [haccepted] at hid
        rw [if_neg (hid view (by simp)),
          h.others id fun v hv => hid v (List.mem_append_left _ hv)] at hsum
        exact hsum
    · rename_i hcallbacks
      obtain ⟨rfl, rfl⟩ := Prod.mk.inj hprocess
      have hcount : ∀ id, (c.pruned.make view true).notified.count id +
          (c.pruned.make view true).queued id = c.notified.count id + c.queued id := by
        intro id
        rw [hnotified, queued_make, if_neg fun hp => hcallbacks hp.1]
        rfl
      refine ⟨hhandles, fun v hv => hp.accepted v (haccepted ▸ hv), fun v hv => ?_,
        fun id hid => ?_⟩
      · exact hold v (haccepted ▸ hv) _ (hcount _)
      · rw [hcount]
        exact h.others id fun v hv => hid v (haccepted ▸ hv)

theorem Notifies.process (h : Notifies frames c) (hknows : Knows frames frames c)
    (hlaw : Lawful (frames ++ [f])) {valid threw : Bool}
    (hprocess : c.process valid f = (threw, d)) :
    Notifies (if threw then frames else frames ++ [f]) d := by
  have hfront : frames <+: if threw then frames else frames ++ [f] := by
    split
    · exact List.prefix_rfl
    · exact List.prefix_append _ _
  cases f with
  | questionOpened view => exact h.opened hknows hlaw hprocess
  | toolCall | toolCancel | questionClosed | pendingReply =>
    exact h.quiet (quiet_process hprocess nofun) hfront

theorem opened_returned (c : QuestionClient) (view : QuestionView) (notify : Bool) :
    (c.opened view notify).2.returned = c.returned := by
  unfold opened lookup
  dsimp only
  split
  · rfl
  split
  · rfl
  split
  · rfl
  · rfl
  split
  · rfl
  split
  · rfl
  · exact (make_history _ view notify).2.2

theorem process_returned {valid threw : Bool}
    (hprocess : c.process valid f = (threw, d)) : d.returned = c.returned := by
  cases f with
  | questionOpened view =>
    have hopened := opened_returned c view true
    simp only [process] at hprocess
    generalize c.opened view true = result at hprocess hopened
    split at hprocess
    · exact (Prod.mk.inj hprocess).2 ▸ hopened
    · exact (Prod.mk.inj hprocess).2 ▸ hopened
    · split at hprocess
      · exact (Prod.mk.inj hprocess).2 ▸ hopened
      · exact (Prod.mk.inj hprocess).2 ▸ hopened
  | toolCall | toolCancel | questionClosed | pendingReply =>
    refine (quiet_process hprocess fun v hv => ?_).returned
    cases hv

/-! ## Promises -/

/-- A reply makes no handle of a question that is announced, or that is nothing to the client any
more. -/
theorem quiet_openAll (hknows : Knows done done c) (hlaw : Lawful done) (views : List QuestionView)
    (hviews : ∀ v ∈ views, Mentioned done v ∧ (c.Released v ∨ .questionOpened v ∈ done)) :
    Quiet c (c.openAll views).2 := by
  induction views generalizing c with
  | nil => exact .refl c
  | cons view views ih =>
    obtain ⟨⟨hview, hannounced⟩, hrest⟩ := List.forall_mem_cons.mp hviews
    have hopens := hknows.opens hlaw (hlaw.owner_of_mentioned hview) false
    have hpruned := hknows.prune hlaw
    have htail : Quiet c (c.pruned.openAll views).2 := (quiet_pruned c).trans (ih hpruned hrest)
    unfold openAll
    generalize c.opened view false = result at hopens
    cases hopens with
    | ignored _ => exact htail
    | existing i x _ _ _ =>
      dsimp only
      split
      · rename_i heq
        rwa [heq] at htail
      · rename_i heq
        rw [heq] at htail
        exact htail
    | full _ _ _ _ => exact quiet_pruned c
    | made howned hstopped hnone =>
      -- an announced question of an owned call has its handle
      rcases hannounced with (hnot | hnot) | hopened
      · exact absurd howned hnot
      · rw [hstopped] at hnot
        cases hnot
      · rcases hpruned.opened view hopened with ⟨x, hx, hkept, hxv⟩ | hnot | hnot
        · exact absurd (congrArg _ hxv) (hnone x hx hkept)
        · exact absurd howned hnot
        · rw [show c.pruned.stopped = false from hstopped] at hnot
          cases hnot

/-- A reply lists a question that is not announced, of a call that the client owns. -/
def Surprised (done : List Frame) (c : QuestionClient) (k : Nat) : Prop :=
  ∃ views v, c.continuations[k]? = some (.pending views) ∧ v ∈ views ∧ ¬c.Released v ∧
    .questionOpened v ∉ done

theorem queued_eraseIdx {k : Nat} {t : Continuation} (hget : c.continuations[k]? = some t)
    (id : String) :
    c.queued id = queued { c with continuations := c.continuations.eraseIdx k } id +
      match t with
      | .notify _ id' => if id' = id then 1 else 0
      | .pending _ => 0 := by
  obtain ⟨hlt, ht⟩ := List.getElem?_eq_some_iff.mp hget
  have hperm := (List.getElem_cons_eraseIdx_perm hlt).countP_eq fun
    | .notify _ id' => id' == id
    | .pending _ => false
  rw [List.countP_cons, ht] at hperm
  refine hperm.symm.trans ?_
  cases t with
  | notify i id' => simp [queued]
  | pending views => simp [queued]

/-- The handles that a reply returns are open. -/
theorem mem_unaborted {is : List Nat} {id : String} (hmem : id ∈ c.unaborted is) :
    ∃ h ∈ c.handles, h.view.questionId = id ∧ h.aborted = false := by
  obtain ⟨i, -, hi⟩ := List.mem_filterMap.mp hmem
  split at hi
  · rename_i h hget
    split at hi
    · cases hi
    · rename_i hopen
      exact ⟨h, List.mem_of_getElem? hget, Option.some.inj hi, by simpa using hopen⟩
  · cases hi

/-- A closed question has no open handle. -/
theorem Notifies.closed (h : Notifies done c) (hknows : Knows done done c) {id : String}
    {o : QuestionOwner} (hclosed : .questionClosed id o ∈ done) :
    ∀ x ∈ c.handles, x.view.questionId = id → x.aborted = true := by
  rintro x hx rfl
  exact hknows.closed x.view o (h.handles x hx) hclosed x hx rfl

theorem Notifies.runContinuation (h : Notifies done c) (hknows : Knows done done c)
    (hlaw : Lawful done) {k : Nat} (hcond : ¬Surprised done c k)
    (hrun : c.runContinuation k = some d) :
    Notifies done d ∧ ∀ id o, .questionClosed id o ∈ done → d.returned.count id = c.returned.count id := by
  obtain ⟨t, ht, hrun⟩ := Option.bind_eq_some_iff.mp hrun
  obtain rfl := Option.some.inj hrun
  have herased : Knows done done { c with continuations := c.continuations.eraseIdx k } :=
    hknows.history rfl rfl rfl fun t ht => List.mem_of_mem_eraseIdx ht
  have hqueued := queued_eraseIdx ht
  cases t with
  | notify i id =>
    obtain ⟨x, hx, hxid⟩ := hknows.notify i id (List.mem_of_getElem? ht)
    have hxmem := List.mem_of_getElem? hx
    have hxopened := h.handles x hxmem
    simp only [resume, hx]
    split
    · rename_i haborted
      refine ⟨⟨h.handles, h.accepted, fun v hv => ?_, fun id' hid' => ?_⟩, fun _ _ _ => rfl⟩
      · have hcount := hqueued v.questionId
        dsimp only at hcount
        by_cases hid : id = v.questionId
        · have hview : x.view = v := hlaw.unique _ _ (mentioned_of_opened hxopened)
            (mentioned_of_opened (h.accepted v hv)) (hxid.trans hid)
          rw [if_pos hid] at hcount
          refine Or.inr ⟨?_, x, hxmem, hview, haborted⟩
          show c.notified.count v.questionId + queued { c with continuations := _ } v.questionId = 0
          rcases h.once v hv with hone | ⟨hzero, -⟩
          · omega
          · omega
        · rw [if_neg hid] at hcount
          have hold := h.once v hv
          rw [hcount] at hold
          exact hold
      · have hcount := hqueued id'
        have hzero := h.others id' hid'
        dsimp only at hcount
        show c.notified.count id' + queued { c with continuations := _ } id' = 0
        omega
    · refine ⟨⟨h.handles, h.accepted, fun v hv => ?_, fun id' hid' => ?_⟩, fun _ _ _ => rfl⟩
      · have hcount := hqueued v.questionId
        dsimp only at hcount
        have hsum : (c.notified ++ [id]).count v.questionId +
            queued { c with continuations := c.continuations.eraseIdx k } v.questionId =
            c.notified.count v.questionId + c.queued v.questionId := by
          rw [List.count_append, List.count_singleton, hcount]
          simp only [beq_iff_eq]
          omega
        have hold := h.once v hv
        rw [← hsum] at hold
        exact hold
      · have hcount := hqueued id'
        have hzero := h.others id' hid'
        dsimp only at hcount
        show (c.notified ++ [id]).count id' + queued { c with continuations := _ } id' = 0
        rw [List.count_append, List.count_singleton]
        simp only [beq_iff_eq]
        omega
  | pending views =>
    have hviews : ∀ v ∈ views, Mentioned done v ∧ (c.Released v ∨ .questionOpened v ∈ done) := by
      intro v hv
      refine ⟨hknows.pending views (List.mem_of_getElem? ht) v hv, ?_⟩
      by_contra hnot
      rw [not_or] at hnot
      exact hcond ⟨views, v, ht, hv, hnot⟩
    have hstart : Quiet c { c with continuations := c.continuations.eraseIdx k } :=
      ⟨(Quiet.refl c).handles, rfl, rfl, fun id => (hqueued id).symm, rfl⟩
    have hquiet := hstart.trans (quiet_openAll herased hlaw views hviews)
    have hafter := h.quiet hquiet (List.prefix_rfl)
    have hknowsAfter := herased.openAll hlaw views fun v hv => (hviews v hv).1
    simp only [resume]
    split
    · rename_i heq
      rw [heq] at hafter hquiet
      exact ⟨hafter, fun _ _ _ => congrArg _ hquiet.returned⟩
    · rename_i is mid heq
      rw [heq] at hafter hquiet hknowsAfter
      refine ⟨⟨hafter.handles, hafter.accepted, hafter.once, hafter.others⟩, fun id o hclosed => ?_⟩
      have hnone : id ∉ mid.unaborted is := by
        intro hmem
        obtain ⟨x, hx, hxid, hopen⟩ := mem_unaborted hmem
        rw [hafter.closed hknowsAfter hclosed x hx hxid] at hopen
        cases hopen
      show (mid.returned ++ mid.unaborted is).count id = c.returned.count id
      rw [List.count_append, List.count_eq_zero_of_not_mem hnone, hquiet.returned]
      rfl

end QuestionClient

end Client

namespace Questions

open Client

namespace HostedQuestions

variable {ν : Type} {readers : Readers ν} {s t : HostedQuestions ν} {e : Event ν}

/-- A reply is processed that lists a question before its `question_opened` frame. -/
def Early (s : HostedQuestions ν) : Event ν → Prop
  | .resume k => s.client.Surprised s.processed k
  | _ => False

/-- What a step leaves of the questions that are closed. -/
structure StaysClosed (s t : HostedQuestions ν) : Prop where
  processed : s.processed <+: t.processed
  returned : ∀ id o, .questionClosed id o ∈ s.processed →
    t.client.returned.count id = s.client.returned.count id

theorem StaysClosed.trans {u : HostedQuestions ν} (h : StaysClosed s t) (h' : StaysClosed t u) :
    StaysClosed s u :=
  ⟨h.processed.trans h'.processed, fun id o hclosed =>
    (h'.returned id o (h.processed.subset hclosed)).trans (h.returned id o hclosed)⟩

/-- The client notifies of questions, and both sides are in order. -/
structure Notifying (s : HostedQuestions ν) : Prop where
  coherent : s.Coherent
  client : s.client.Notifies s.processed

theorem Notifying.stepped (h : s.Notifying) (hcond : ¬s.Early e) (hstep : Stepped readers s e t) :
    t.Notifying ∧ StaysClosed s t := by
  have hcoherent := h.coherent.stepped hstep
  have hfront := h.coherent.processed_prefix hstep
  cases hstep with
  | host e host hpermits hhost =>
    exact ⟨⟨hcoherent, h.client.quiet (.refl _) hfront⟩, hfront, fun _ _ _ => rfl⟩
  | threw valid f client hf hclient =>
    have hlaw : Lawful (s.processed ++ [f]) :=
      processed_succ hf ▸ h.coherent.host.announced.lawful.take (s.read + 1)
    have hnotifies := h.client.process h.coherent.client hlaw hclient
    rw [if_pos rfl] at hnotifies
    exact ⟨⟨hcoherent, hnotifies⟩, hfront, fun id _ _ => congrArg _ (QuestionClient.process_returned hclient)⟩
  | read valid f client hf hclient =>
    have hlaw : Lawful (s.processed ++ [f]) :=
      processed_succ hf ▸ h.coherent.host.announced.lawful.take (s.read + 1)
    have hnotifies := h.client.process h.coherent.client hlaw hclient
    rw [if_neg (by simp), ← processed_succ hf] at hnotifies
    exact ⟨⟨hcoherent, hnotifies⟩, hfront, fun id _ _ => congrArg _ (QuestionClient.process_returned hclient)⟩
  | resume k client hclient =>
    obtain ⟨hnotifies, hreturned⟩ :=
      h.client.runContinuation h.coherent.client h.coherent.lawful hcond hclient
    exact ⟨⟨hcoherent, hnotifies⟩, hfront, hreturned⟩
  | callbackDone client hclient =>
    unfold QuestionClient.callbackDone at hclient
    split at hclient
    · cases hclient
    · obtain rfl := Option.some.inj hclient
      exact ⟨⟨hcoherent, h.client.handles, h.client.accepted, h.client.once, h.client.others⟩,
        hfront, fun _ _ _ => rfl⟩
  | handlerDone call =>
    exact ⟨⟨hcoherent, h.client.quiet (QuestionClient.quiet_of_active _) hfront⟩, hfront,
      fun _ _ _ => rfl⟩
  | fail =>
    exact ⟨⟨hcoherent, h.client.quiet (QuestionClient.quiet_fail _) hfront⟩, hfront,
      fun _ _ _ => rfl⟩

theorem notifying_start : (start : HostedQuestions ν).Notifying :=
  ⟨coherent_start, QuestionClient.notifies_start⟩

theorem Notifying.run {events : List (Event ν)} (h : s.Notifying)
    (heach : Next.Each (next readers) (fun s e => ¬s.Early e) events s)
    (hrun : Next.run (next readers) events s = some t) : t.Notifying ∧ StaysClosed s t := by
  refine heach.invariant (P := fun u => u.Notifying ∧ StaysClosed s u) ?_
    ⟨h, List.prefix_rfl, fun _ _ _ => rfl⟩ hrun
  intro u e v hu hcond hnext
  obtain ⟨hv, hstays⟩ := hu.1.stepped hcond (next_stepped hnext)
  exact ⟨hv, hu.2.trans hstays⟩

/-- As long as no reply lists a question before its announcement is processed: every announced question
of an owned call gets one call of `onQuestion`, unless it closed before that, and a closed question
has no open handle and is not returned again. -/
theorem questions_notify_once {events : List (Event ν)}
    (hrun : Next.run (next readers) events start = some s)
    (heach : Next.Each (next readers) (fun s e => ¬s.Early e) events start) :
    (∀ v ∈ s.client.accepted,
      s.client.notified.count v.questionId + s.client.queued v.questionId = 1 ∨
        s.client.notified.count v.questionId + s.client.queued v.questionId = 0 ∧
          ((∃ o, .questionClosed v.questionId o ∈ s.processed) ∨ s.client.Released v)) ∧
    ∀ before after mid, events = before ++ after →
      Next.run (next readers) before start = some mid →
      ∀ id o, .questionClosed id o ∈ mid.processed →
        (∀ h ∈ s.client.handles, h.view.questionId = id → h.aborted = true) ∧
          s.client.returned.count id = mid.client.returned.count id := by
  constructor
  · intro v hv
    obtain ⟨hs, -⟩ := notifying_start.run heach hrun
    refine (hs.client.once v hv).imp_right ?_
    rintro ⟨hzero, x, hx, rfl, haborted⟩
    exact ⟨hzero, hs.coherent.client.reasons x hx haborted⟩
  · rintro before after mid rfl hmid id o hclosed
    obtain ⟨heachBefore, heachAfter⟩ := heach.split hmid
    obtain ⟨hm, -⟩ := notifying_start.run heachBefore hmid
    obtain ⟨mid', hmid', hafter⟩ := Next.run_append.mp hrun
    obtain rfl := Option.some.inj (hmid.symm.trans hmid')
    obtain ⟨hs, hstays⟩ := hm.run heachAfter hafter
    exact ⟨hs.client.closed hs.coherent.client (hstays.processed.subset hclosed),
      hstays.returned id o hclosed⟩

/-! ## A reply that comes first -/

def sampleOwner (call : String) : QuestionOwner := ⟨call, "binding", "session", "slot"⟩

def sampleQuestion : Question := ⟨"Continue?", [⟨"go", "Go on", true, .boolean⟩]⟩

def ownerMembers (owner : QuestionOwner) : List (String × JsonTree Nat) :=
  [("call_id", .str owner.call), ("binding_id", .str owner.binding),
    ("session_id", .str owner.session), ("slot_id", .str owner.slot)]

def askParams (owner : QuestionOwner) : JsonTree Nat :=
  .obj (ownerMembers owner ++ [("definition", .obj [("title", .str "Continue?"),
    ("fields", .arr [.obj [("id", .str "go"), ("label", .str "Go on"), ("required", .bool true),
      ("kind", .obj [("type", .str "boolean")])]])])])

/-- The readers of an application that asks the sample question and declines. -/
def sampleReaders : Readers Nat where
  numbers := ⟨fun _ => 1, fun _ => true⟩
  question _ := some sampleQuestion
  outcome _ := some .declined

def sampleView (id call : String) : QuestionView := ⟨id, 1, sampleOwner call, sampleQuestion⟩

/-- A call is announced, and its question is opened. -/
def asked (call id : String) : List (Event Nat) :=
  [.host (.invoke (sampleOwner call)), .host (.access 0 true), .host (.access 0 true), .read true,
    .host (.ask (askParams (sampleOwner call))), .host (.advance 0 ⟨true, id, some 1⟩)]

/-- A `question_pending` lists the question, and its reply is sent and processed. -/
def listed : List (Event Nat) :=
  [.host (.pending (.obj [])), .host (.advance 1 ⟨true, "", none⟩),
    .host (.advance 1 ⟨true, "", none⟩), .read true, .resume 0]

/-- The question is announced, and the announcement is processed. -/
def announcedLate : List (Event Nat) := [.host (.advance 0 ⟨true, "", none⟩), .read true]

def silenced : List (Event Nat) := asked "call" "question" ++ (listed ++ announcedLate)

/-- Without the condition: the reply makes the handle, and the announcement that follows, of an open
question of an owned call, notifies of nothing. -/
theorem early_reply_silences :
    ¬∀ (events : List (Event Nat)) (s : HostedQuestions Nat),
      Next.run (next sampleReaders) events start = some s → ∀ v ∈ s.client.accepted,
        s.client.notified.count v.questionId + s.client.queued v.questionId = 1 ∨
          s.client.notified.count v.questionId + s.client.queued v.questionId = 0 ∧
            ((∃ o, .questionClosed v.questionId o ∈ s.processed) ∨ s.client.Released v) := by
  intro hclaim
  have hsome : (Next.run (next sampleReaders) silenced start).isSome = true := by decide
  have hrun := Next.run_getD hsome start
  generalize hs : ((Next.run (next sampleReaders) silenced start).getD start) = s at hrun
  have haccepted : sampleView "question" "call" ∈ s.client.accepted := by
    rw [← hs]
    decide
  have hprocessed : s.processed = [.toolCall (sampleOwner "call"),
      .pendingReply [sampleView "question" "call"],
      .questionOpened (sampleView "question" "call")] := by
    rw [← hs]
    decide
  have howned : Owned s.client.active (sampleOwner "call") ∧ s.client.stopped = false := by
    rw [← hs]
    exact ⟨⟨⟨sampleOwner "call", false⟩, by decide, rfl, rfl⟩, by decide⟩
  have hnone : s.client.notified.count "question" + s.client.queued "question" = 0 := by
    rw [← hs]
    decide
  rcases hclaim silenced s hrun _ haccepted with hone | ⟨-, ⟨o, hclosed⟩ | hnot | hstopped⟩
  · exact absurd (hnone.symm.trans hone) (by decide)
  · rw [hprocessed] at hclosed
    simp at hclosed
  · exact hnot howned.1
  · rw [howned.2] at hstopped
    cases hstopped

/-- The question is answered by the task at `k`, which sets `resolved`. -/
def answeredBy (owner : QuestionOwner) (k : Nat) (id : String) : List (Event Nat) :=
  .host (.answer (.obj (ownerMembers owner ++ [("question_id", .str id), ("revision", .str "1")]))) ::
    List.replicate 4 (.host (.advance k ⟨true, "", some 2⟩))

/-- The task at `k` goes on to close its question, and the client processes the frame. -/
def closedBy (k : Nat) : List (Event Nat) :=
  List.replicate 3 (.host (.advance k ⟨true, "", none⟩)) ++ [.read true]

/-- The question is announced and notified of; a `question_pending` lists it, and while the reply waits
for its promise the question is answered and closed. -/
def overtaken : List (Event Nat) :=
  asked "call" "question" ++ announcedLate ++ [.resume 0] ++
    ([.host (.pending (.obj [])), .host (.advance 1 ⟨true, "", none⟩),
      .host (.advance 1 ⟨true, "", none⟩), .read true] ++
      (answeredBy (sampleOwner "call") 2 "question" ++ closedBy 0))

/-- What a reply lists is announced already. -/
def isInTurn (s : HostedQuestions Nat) : Event Nat → Bool
  | .resume k =>
      match s.client.continuations[k]? with
      | some (.pending views) => views.all fun v => s.processed.contains (.questionOpened v)
      | _ => true
  | _ => true

theorem not_early_of_isInTurn {s : HostedQuestions Nat} {e : Event Nat} (h : isInTurn s e = true) :
    ¬s.Early e := by
  intro hearly
  cases e with
  | resume k =>
    obtain ⟨views, v, hget, hv, -, hnot⟩ := hearly
    simp only [isInTurn, hget] at h
    have hannounced := List.all_eq_true.mp h v hv
    exact hnot (List.contains_iff_mem.mp hannounced)
  | _ => exact hearly

/-- One call of `onQuestion`, and nothing for the reply that comes late. -/
theorem announced_question_notifies_once :
    ∃ mid s : HostedQuestions Nat, Next.run (next sampleReaders) overtaken start = some mid ∧
      Next.run (next sampleReaders) (overtaken ++ [.resume 0]) start = some s ∧
      mid.client.continuations = [.pending [sampleView "question" "call"]] ∧
      .questionClosed "question" (sampleOwner "call") ∈ mid.processed ∧
      s.client.notified = ["question"] ∧
      (∀ h ∈ s.client.handles, h.view.questionId = "question" → h.aborted = true) ∧
      s.client.returned.count "question" = mid.client.returned.count "question" ∧
      ∀ v ∈ s.client.accepted,
        s.client.notified.count v.questionId + s.client.queued v.questionId = 1 ∨
          s.client.notified.count v.questionId + s.client.queued v.questionId = 0 ∧
            ((∃ o, .questionClosed v.questionId o ∈ s.processed) ∨ s.client.Released v) := by
  have hmid : (Next.run (next sampleReaders) overtaken start).isSome = true := by decide +kernel
  have hsome : (Next.run (next sampleReaders) (overtaken ++ [.resume 0]) start).isSome = true := by
    decide +kernel
  have hbefore := Next.run_getD hmid start
  have hrun := Next.run_getD hsome start
  have heach : Next.Each (next sampleReaders) (fun s e => ¬s.Early e) (overtaken ++ [.resume 0])
      start := Next.Each.of_check (fun _ _ => not_early_of_isInTurn) (by decide +kernel)
  have hclosed : .questionClosed "question" (sampleOwner "call") ∈
      ((Next.run (next sampleReaders) overtaken start).getD start).processed := by decide +kernel
  obtain ⟨honce, hstays⟩ := questions_notify_once hrun heach
  obtain ⟨haborted, hreturned⟩ := hstays overtaken [.resume 0] _ rfl hbefore "question" _ hclosed
  exact ⟨_, _, hbefore, hrun, by decide +kernel, hclosed, by decide +kernel, haborted, hreturned,
    honce⟩

end HostedQuestions

end Questions

end AgentBridge
