import AgentBridge.Questions.Entries
import AgentBridge.Questions.Notifications
import Mathlib.Data.List.Induction

/-!
# Limits on both sides

The host counts the questions of a call that are not resolved, the client the handles that no
`question_closed` has closed.  The handles fit into the client as long as a call does not ask while the
frame that closes its last question is still to come.
-/

namespace AgentBridge

open Reasoning
open Host.Questions

namespace Host

namespace Questions

variable {ν : Type}

/-- The first question is opened and closed before anything says that the second one is open. -/
structure Before (frames : List Frame) (a b : QuestionView) : Prop where
  closed : .questionClosed a.questionId a.owner ∈ frames
  opened : .questionOpened a ∈ frames
  mentions : EachAfter (fun before f => f.Mentions b →
    .questionClosed a.questionId a.owner ∈ before ∧ .questionOpened a ∈ before) frames

theorem Before.append {frames : List Frame} {a b : QuestionView} (h : Before frames a b)
    (more : List Frame) : Before (frames ++ more) a b := by
  induction more using List.reverseRecOn with
  | nil => rwa [List.append_nil]
  | append_singleton more f ih =>
    rw [← List.append_assoc]
    exact ⟨List.mem_append_left _ ih.closed, List.mem_append_left _ ih.opened,
      ih.mentions.concat fun _ => ⟨ih.closed, ih.opened⟩⟩

/-- Once the second question is mentioned, the first one is over. -/
theorem Before.of_mentioned {frames : List Frame} {a b : QuestionView} (h : Before frames a b)
    {n : Nat} (hb : Mentioned (frames.take n) b) :
    .questionClosed a.questionId a.owner ∈ frames.take n ∧ .questionOpened a ∈ frames.take n := by
  obtain ⟨f, hf, hmentions⟩ := hb
  obtain ⟨init, rest, hsplit⟩ := List.append_of_mem hf
  obtain ⟨hclosed, hopened⟩ := h.mentions.take n init f rest hsplit hmentions
  rw [hsplit]
  exact ⟨List.mem_append_left _ hclosed, List.mem_append_left _ hopened⟩

namespace Service

variable {s t : Service ν}

/-- The questions of a call come one after the other. -/
def Ordered (s : Service ν) : Prop :=
  ∀ a ∈ s.views, ∀ b ∈ s.views, a.owner.call = b.owner.call → a ≠ b →
    Before s.emitted a b ∨ Before s.emitted b a

/-- A call asks while one of its questions is resolved and the frame that closes it is not yet
emitted. -/
def Racing (s : Service ν) : Event ν → Prop
  | .advance k _ => ∃ owner params, s.tasks[k]? = some (.asking owner params) ∧ s.stopped = false ∧
      ∃ e ∈ s.questions, e.owner.call = owner.call ∧ e.resolved = true ∧
        .questionClosed e.id e.owner ∉ s.emitted
  | _ => False

theorem ordered_start : (start : Service ν).Ordered := nofun

theorem Ordered.emitted (h : s.Ordered) {more : List Frame} {a b : QuestionView}
    (ha : a ∈ s.views) (hb : b ∈ s.views) (hcall : a.owner.call = b.owner.call) (hne : a ≠ b) :
    Before (s.emitted ++ more) a b ∨ Before (s.emitted ++ more) b a :=
  (h a ha b hb hcall hne).imp (·.append more) (·.append more)

theorem Ordered.aged (h : s.Ordered) (hstep : Aged s t) : t.Ordered := by
  intro a ha b hb hcall hne
  rw [hstep.views] at ha hb
  obtain ⟨more, hmore⟩ := hstep.emitted
  exact hmore ▸ h.emitted ha hb hcall hne

/-- The questions of the call were closed before the new one is opened. -/
theorem Ordered.opening (h : s.Ordered) (hsound : s.Sound) (hbounded : s.Bounded) {k : Nat}
    {input : Input} {entry : Entry} (hopen : Opening s k t entry)
    (hcond : ¬s.Racing (.advance k input)) : t.Ordered := by
  obtain ⟨params, htask⟩ := hopen.task
  have hover : ∀ a ∈ s.views, a.owner.call = entry.owner.call →
      Before s.emitted a entry.frame := by
    intro a ha hcall
    obtain ⟨e, he, rfl⟩ := List.mem_map.mp ha
    have hclosed : .questionClosed e.id e.owner ∈ s.emitted := by
      by_contra hnot
      exact hcond ⟨entry.owner, params, htask, hopen.running, e, he, hcall,
        hopen.settled hbounded e he hcall, hnot⟩
    have hopened : .questionOpened e.frame ∈ s.emitted := by
      obtain ⟨v, hv, hid, -, hopened⟩ := hsound.announced.closed e.id e.owner hclosed
      have hsame := List.inj_on_of_nodup_map hsound.announced.ids hv ha hid
      rw [hopen.running] at hopened
      exact hsame ▸ hopened.resolve_right (by simp)
    refine ⟨hclosed, hopened, fun init f rest hsplit hmentions => ?_⟩
    have hmentioned : Mentioned s.emitted entry.frame := ⟨f, by rw [hsplit]; simp, hmentions⟩
    obtain ⟨old, hold, hframe⟩ := List.mem_map.mp (hsound.announced.mentioned _ hmentioned)
    exact absurd (congrArg QuestionView.questionId hframe) (hopen.fresh old hold)
  intro a ha b hb hcall hne
  rw [hopen.emitted]
  rw [hopen.views, List.mem_append, List.mem_singleton] at ha hb
  rcases ha with ha | rfl
  · rcases hb with hb | rfl
    · exact h a ha b hb hcall hne
    · exact Or.inl (hover a ha hcall)
  · rcases hb with hb | rfl
    · exact Or.inr (hover b hb hcall.symm)
    · exact absurd rfl hne

theorem Ordered.next (h : s.Ordered) (hsound : s.Sound) (hbounded : s.Bounded)
    {readers : Readers ν} {e : Event ν} (hcond : ¬s.Racing e)
    (hnext : Service.next readers s e = some t) : t.Ordered := by
  rcases next_aged_or_opening hnext with hstep | ⟨k, input, entry, rfl, hopen⟩
  · exact h.aged hstep
  · exact h.opening hsound hbounded hopen hcond

end Service

end Questions

end Host

namespace Client

theorem Owned.call_mem {active : List ActiveCall} {owner : QuestionOwner}
    (h : Owned active owner) : owner.call ∈ active.map (·.owner.call) := by
  obtain ⟨a, ha, rfl, -⟩ := h
  exact List.mem_map_of_mem ha

namespace QuestionClient

variable {c d : QuestionClient} {frames done : List Frame} {view : QuestionView} {f : Frame}

/-! ## What makes `opened` throw -/

@[simp] theorem make_openedThrew {notify : Bool} :
    (c.make view notify).openedThrew = c.openedThrew := by
  unfold make
  dsimp only
  split <;> rfl

theorem opened_openedThrew (c : QuestionClient) (view : QuestionView) (notify : Bool) :
    (c.opened view notify).2.openedThrew = c.openedThrew := by
  unfold opened lookup
  dsimp only
  split
  · rfl
  split
  · rfl
  split
  · rfl
  · rfl
  split
  · rfl
  split
  · rfl
  · exact make_openedThrew

theorem openAll_openedThrew (c : QuestionClient) (views : List QuestionView) :
    (c.openAll views).2.openedThrew = c.openedThrew := by
  induction views generalizing c with
  | nil => rfl
  | cons view views ih =>
    have hopened := opened_openedThrew c view false
    unfold openAll
    split
    · rename_i heq
      rwa [heq] at hopened
    · rename_i heq
      rw [heq] at hopened
      exact (ih _).trans hopened
    · rename_i next heq
      rw [heq] at hopened
      have hrest := ih next
      split
      · rename_i hall
        rw [hall] at hrest
        exact hrest.trans hopened
      · rename_i hall
        rw [hall] at hrest
        exact hrest.trans hopened

theorem resume_openedThrew (c : QuestionClient) (t : Continuation) :
    (c.resume t).openedThrew = c.openedThrew := by
  cases t with
  | notify i id =>
    simp only [resume]
    split
    · rfl
    · split <;> rfl
  | pending views =>
    have hall := openAll_openedThrew c views
    simp only [resume]
    split
    · rename_i heq
      rwa [heq] at hall
    · rename_i heq
      rwa [heq] at hall

theorem accept_openedThrew {owner : QuestionOwner} {valid : Bool}
    (h : c.accept owner valid = some d) : d.openedThrew = c.openedThrew := by
  unfold accept at h
  split at h
  · exact Option.some.inj h ▸ rfl
  split at h
  · cases h
  split at h
  · exact Option.some.inj h ▸ rfl
  · exact Option.some.inj h ▸ rfl

theorem cancel_openedThrew {owner : QuestionOwner} (h : c.cancel owner = some d) :
    d.openedThrew = c.openedThrew := by
  unfold cancel at h
  split at h
  · exact Option.some.inj h ▸ rfl
  split at h
  · exact Option.some.inj h ▸ rfl
  · cases h

theorem closed_openedThrew {id : String} {owner : QuestionOwner} (h : c.closed id owner = some d) :
    d.openedThrew = c.openedThrew := by
  unfold closed at h
  split at h
  · exact Option.some.inj h ▸ rfl
  split at h
  · exact Option.some.inj h ▸ rfl
  · cases h

/-- Only an announcement for which `opened` throws raises the flag. -/
theorem process_openedThrew {valid threw : Bool} (hprocess : c.process valid f = (threw, d))
    (hopens : ∀ v, f = .questionOpened v → (c.opened v true).1 ≠ .threw) :
    d.openedThrew = c.openedThrew := by
  cases f with
  | toolCall owner =>
    simp only [process] at hprocess
    split at hprocess
    · rename_i haccept
      exact (Prod.mk.inj hprocess).2 ▸ accept_openedThrew haccept
    · exact (Prod.mk.inj hprocess).2 ▸ rfl
  | toolCancel owner =>
    simp only [process] at hprocess
    split at hprocess
    · rename_i hcancel
      have hflag := cancel_openedThrew hcancel
      rw [← (Prod.mk.inj hprocess).2]
      exact hflag
    · exact (Prod.mk.inj hprocess).2 ▸ rfl
  | questionOpened v =>
    have hflag := opened_openedThrew c v true
    have hnot := hopens v rfl
    simp only [process] at hprocess
    generalize c.opened v true = result at hprocess hflag hnot
    split at hprocess
    · exact absurd rfl hnot
    · exact (Prod.mk.inj hprocess).2 ▸ hflag
    · split at hprocess
      · exact (Prod.mk.inj hprocess).2 ▸ hflag
      · exact (Prod.mk.inj hprocess).2 ▸ hflag
  | questionClosed id owner =>
    simp only [process] at hprocess
    split at hprocess
    · rename_i hclosed
      exact (Prod.mk.inj hprocess).2 ▸ closed_openedThrew hclosed
    · exact (Prod.mk.inj hprocess).2 ▸ rfl
  | pendingReply views => exact (Prod.mk.inj hprocess).2 ▸ rfl

/-- What the loop of `opened` keeps in the map belongs to calls of the client. -/
theorem Knows.owned_of_kept (h : Knows frames done c) (hlaw : Lawful frames) {x : QuestionHandle}
    (hx : x ∈ c.pruned.handles) (hkept : x.kept = true) : Owned c.active x.view.owner := by
  obtain ⟨y, hy, rfl⟩ := List.mem_map.mp hx
  rw [(closing_release c.active).view]
  rcases owns_eq hlaw h.active h.calls (hlaw.owner_of_mentioned (h.handles y hy)) with
    ⟨-, howned⟩ | ⟨howns, -⟩
  · exact howned
  · rw [release, if_pos howns, drop] at hkept
    split at hkept
    · cases hkept
    · rename_i hnot
      exact absurd hkept hnot

/-- Calls of the client have at most eight questions each. -/
theorem Knows.length_kept (h : Knows frames done c) (hlaw : Lawful frames) {views : List QuestionView}
    (hviews : ∀ v, Mentioned frames v → v ∈ views) (hview : view ∈ views)
    (hsame : ∀ call, views.countP (fun v => v.owner.call = call) ≤ 8)
    (howned : Owned c.active view.owner)
    (hnone : ∀ x ∈ c.pruned.handles, x.kept = true → x.view.questionId ≠ view.questionId) :
    (c.pruned.handles.filter (·.kept)).length < 128 := by
  have hpruned := h.prune hlaw
  have hkept : ∀ v ∈ (c.pruned.handles.filter (·.kept)).map (·.view), v ∈ views ∧
      Owned c.active v.owner ∧ v.questionId ≠ view.questionId := by
    intro v hv
    obtain ⟨x, hx, rfl⟩ := List.mem_map.mp hv
    obtain ⟨hx, hxkept⟩ := List.mem_filter.mp hx
    exact ⟨hviews _ (hpruned.handles x hx), h.owned_of_kept hlaw hx hxkept, hnone x hx hxkept⟩
  have hnodup : (view :: (c.pruned.handles.filter (·.kept)).map (·.view)).Nodup := by
    refine List.nodup_cons.mpr ⟨fun hmem => (hkept view hmem).2.2 rfl, ?_⟩
    refine List.Nodup.of_map (·.questionId) ?_
    rw [List.map_map]
    exact hpruned.ids
  have hlength : (view :: (c.pruned.handles.filter (·.kept)).map (·.view)).length ≤
      8 * (c.active.map (·.owner.call)).length := by
    refine length_le_mul_of_classes (f := fun v : QuestionView => v.owner.call) (fun v hv => ?_)
      fun call _ => ?_
    · refine Owned.call_mem ?_
      rcases List.mem_cons.mp hv with rfl | hv
      · exact howned
      · exact (hkept v hv).2.1
    · refine Nat.le_trans (countP_le_of_nodup_subset hnodup (fun v hv => ?_) _) (hsame call)
      rcases List.mem_cons.mp hv with rfl | hv
      · exact hview
      · exact (hkept v hv).1
  rw [List.length_cons, List.length_map, List.length_map] at hlength
  have hroom := h.room
  omega

/-- Calls of the client have at most one open handle each. -/
theorem Knows.length_open (h : Knows frames done c) (hlaw : Lawful frames)
    (howned : Owned c.active view.owner)
    (hnone : ∀ x ∈ c.pruned.handles, x.kept = true → x.view.questionId ≠ view.questionId)
    (hone : ∀ v w, v = view ∨ (∃ x ∈ c.pruned.handles, x.aborted = false ∧ x.view = v) →
      w = view ∨ (∃ x ∈ c.pruned.handles, x.aborted = false ∧ x.view = w) →
      v.owner.call = w.owner.call → v = w) :
    ((c.pruned.handles.filter (·.kept)).filter fun x => !x.aborted).length < 16 := by
  have hpruned := h.prune hlaw
  have hopen : ∀ v ∈ ((c.pruned.handles.filter (·.kept)).filter fun x => !x.aborted).map (·.view),
      (∃ x ∈ c.pruned.handles, x.aborted = false ∧ x.view = v) ∧ Owned c.active v.owner ∧
        v.questionId ≠ view.questionId := by
    intro v hv
    obtain ⟨x, hx, rfl⟩ := List.mem_map.mp hv
    obtain ⟨hx, haborted⟩ := List.mem_filter.mp hx
    obtain ⟨hx, hxkept⟩ := List.mem_filter.mp hx
    exact ⟨⟨x, hx, by simpa using haborted, rfl⟩, h.owned_of_kept hlaw hx hxkept, hnone x hx hxkept⟩
  have hnodup : (view ::
      ((c.pruned.handles.filter (·.kept)).filter fun x => !x.aborted).map (·.view)).Nodup := by
    refine List.nodup_cons.mpr ⟨fun hmem => (hopen view hmem).2.2 rfl, ?_⟩
    refine List.Nodup.of_map (·.questionId) ?_
    rw [List.map_map]
    exact List.Nodup.sublist (List.filter_sublist.map _) hpruned.ids
  have hcalls := List.Nodup.map_on (f := fun v : QuestionView => v.owner.call)
    (fun v hv w hw hcall => hone v w ((List.mem_cons.mp hv).imp_right fun hv => (hopen v hv).1)
      ((List.mem_cons.mp hw).imp_right fun hw => (hopen w hw).1) hcall) hnodup
  have hsub : ∀ call ∈ (view :: ((c.pruned.handles.filter (·.kept)).filter fun x => !x.aborted).map
      (·.view)).map (·.owner.call), call ∈ c.active.map (·.owner.call) := by
    intro call hmem
    obtain ⟨v, hv, rfl⟩ := List.mem_map.mp hmem
    refine Owned.call_mem ?_
    rcases List.mem_cons.mp hv with rfl | hv
    · exact howned
    · exact (hopen v hv).2.1
  have hlength := (hcalls.subperm hsub).length_le
  rw [List.length_map, List.length_cons, List.length_map, List.length_map] at hlength
  have hroom := h.room
  omega

end QuestionClient

end Client

open Client

namespace Questions

namespace HostedQuestions

variable {ν : Type} {readers : Readers ν} {s t : HostedQuestions ν} {e : Event ν}

/-! ## Both sides -/

def Racing (s : HostedQuestions ν) : Event ν → Prop
  | .host e => s.host.Racing e
  | _ => False

/-- The invariant of runs in which no call races. -/
structure Limited (s : HostedQuestions ν) : Prop where
  coherent : s.Coherent
  bounded : s.host.Bounded
  ordered : s.host.Ordered
  quiet : s.client.openedThrew = false

/-- A question that is over has no open handle, and is not announced again. -/
theorem Limited.opened_ne_threw (h : s.Limited) {view : QuestionView}
    (hget : s.host.emitted[s.read]? = some (.questionOpened view)) :
    (s.client.opened view true).1 ≠ .threw := by
  have hlaw := h.coherent.lawful
  have hall := h.coherent.host.announced.lawful
  have hknows := h.coherent.client
  have hmem := List.mem_of_getElem? hget
  have hviews : ∀ v, Mentioned s.processed v → v ∈ s.host.views :=
    fun v hv => h.coherent.host.announced.mentioned v hv.of_take
  have hview := h.coherent.host.announced.mentioned view (mentioned_of_opened hmem)
  have hsame : ∀ call, s.host.views.countP (fun v => v.owner.call = call) ≤ 8 := by
    intro call
    unfold Service.views
    rw [List.countP_map]
    exact h.bounded.same call
  have howner : .toolCall view.owner ∈ s.processed :=
    hall.owners.at_position hget view rfl
  have hopens := hknows.opens hlaw howner true
  generalize s.client.opened view true = result at hopens
  cases hopens with
  | ignored | existing | made => exact nofun
  | full howned hstopped hnone hfull =>
    exfalso
    have hpruned := hknows.prune hlaw
    -- neither of two such questions of a call comes before the other
    have hnot : ∀ v w, v = view ∨ (∃ x ∈ s.client.pruned.handles, x.aborted = false ∧ x.view = v) →
        w = view ∨ (∃ x ∈ s.client.pruned.handles, x.aborted = false ∧ x.view = w) →
        ¬Before s.host.emitted v w := by
      intro v w hv hw hbefore
      have hover : .questionClosed v.questionId v.owner ∈ s.processed ∧
          .questionOpened v ∈ s.processed := by
        rcases hw with rfl | ⟨x, hx, -, rfl⟩
        · exact hbefore.mentions.at_position hget rfl
        · exact hbefore.of_mentioned (hpruned.handles x hx)
      rcases hv with rfl | ⟨x, hx, hopen, rfl⟩
      · exact (hall.opened.at_position hget v rfl).1 hover.2
      · rw [hpruned.closed _ _ hover.2 hover.1 x hx rfl] at hopen
        cases hopen
    have hin : ∀ v, v = view ∨ (∃ x ∈ s.client.pruned.handles, x.aborted = false ∧ x.view = v) →
        v ∈ s.host.views := by
      rintro v (rfl | ⟨x, hx, -, rfl⟩)
      · exact hview
      · exact hviews _ (hpruned.handles x hx)
    have hkept := hknows.length_kept hlaw hviews hview hsame howned hnone
    have hopen := hknows.length_open hlaw howned hnone fun v w hv hw hcall => by
      by_contra hne
      exact (h.ordered v (hin v hv) w (hin w hw) hcall hne).elim (hnot v w hv hw) (hnot w v hw hv)
    simp only [QuestionClient.isFull, Bool.or_eq_true, decide_eq_true_iff] at hfull
    omega

theorem Limited.stepped (h : s.Limited) (hcond : ¬s.Racing e) (hstep : Stepped readers s e t) :
    t.Limited := by
  have hcoherent := h.coherent.stepped hstep
  cases hstep with
  | host e host hpermits hhost =>
    exact ⟨hcoherent, h.bounded.next hhost,
      h.ordered.next h.coherent.host h.bounded hcond hhost, h.quiet⟩
  | threw valid f client hf hclient | read valid f client hf hclient =>
    refine ⟨hcoherent, h.bounded, h.ordered, ?_⟩
    refine (QuestionClient.process_openedThrew hclient fun v hv => ?_).trans h.quiet
    exact h.opened_ne_threw (hv ▸ hf)
  | resume k client hclient =>
    refine ⟨hcoherent, h.bounded, h.ordered, ?_⟩
    obtain ⟨t, -, hclient⟩ := Option.bind_eq_some_iff.mp hclient
    obtain rfl := Option.some.inj hclient
    exact (QuestionClient.resume_openedThrew _ t).trans h.quiet
  | callbackDone client hclient =>
    refine ⟨hcoherent, h.bounded, h.ordered, ?_⟩
    unfold QuestionClient.callbackDone at hclient
    split at hclient
    · cases hclient
    · exact Option.some.inj hclient ▸ h.quiet
  | handlerDone call => exact ⟨hcoherent, h.bounded, h.ordered, h.quiet⟩
  | fail => exact ⟨hcoherent, h.bounded, h.ordered, h.quiet⟩

theorem limited_start : (start : HostedQuestions ν).Limited :=
  ⟨coherent_start, Service.bounded_start, Service.ordered_start, rfl⟩

theorem bounded_next (h : s.host.Bounded) (hnext : next readers s e = some t) : t.host.Bounded := by
  cases next_stepped hnext with
  | host e host _ hhost => exact h.next hhost
  | _ => exact h

theorem vouched_next {past : Service ν → Prop} (h : s.host.Vouched past) (hpast : past s.host)
    (hnext : next readers s e = some t) : t.host.Vouched past := by
  cases next_stepped hnext with
  | host e host _ hhost => exact h.next hpast hhost
  | _ => exact h

/-- The limits of the host hold in every state, and an answer was stored through an entry that was in
the map and matched.  As long as no call races, `opened` does not throw on an announcement. -/
theorem question_limits {events : List (Event ν)} (hrun : Next.run (next readers) events start = some s) :
    (∀ call, (s.host.entries.filter fun e => e.owner.call = call && !e.resolved).length ≤ 1) ∧
    (∀ call, (s.host.entries.filter (·.owner.call = call)).length ≤ 8) ∧
    s.host.entries.length ≤ 128 ∧
    (∀ q params, (q, params) ∈ s.host.stored → ∃ before after mid, events = before ++ after ∧
      Next.run (next readers) before start = some mid ∧ mid.host.Admits q params) ∧
    (Next.Each (next readers) (fun s e => ¬s.Racing e) events start →
      s.client.openedThrew = false) := by
  have hbounded : s.host.Bounded :=
    Next.run_invariant (fun _ _ _ h hnext => bounded_next h hnext) Service.bounded_start hrun
  refine ⟨hbounded.entries_unresolved, hbounded.entries_same, hbounded.entries_total,
    fun q params hmem => ?_, fun heach => ?_⟩
  · let past (u : Service ν) := ∃ mid, Next.Visited (next readers) events start mid ∧ mid.host = u
    have hvouched : s.host.Vouched past :=
      Next.run_visited (P := fun u : HostedQuestions ν => u.host.Vouched past)
        (fun u _ _ hu h hnext => vouched_next h ⟨u, hu, rfl⟩ hnext) Service.vouched_start hrun
    obtain ⟨u, ⟨mid, ⟨before, after, hsplit, hmid⟩, rfl⟩, hadmits⟩ := hvouched.stored _ hmem
    exact ⟨before, after, mid, hsplit, hmid, hadmits⟩
  · have hlimited : s.Limited := heach.invariant
      (fun _ _ _ h hcond hnext => Limited.stepped h hcond (next_stepped hnext)) limited_start hrun
    exact hlimited.quiet

/-! ## One handle too many -/

def boundOwner (binding call : String) : QuestionOwner := ⟨call, binding, "session", "slot"⟩

/-- Sixteen calls, of four bindings. -/
def crowd : List QuestionOwner :=
  ["a", "b", "c", "d"].map (boundOwner "1") ++ ["e", "f", "g", "h"].map (boundOwner "2") ++
    ["i", "j", "k", "l"].map (boundOwner "3") ++ ["m", "n", "o", "p"].map (boundOwner "4")

def calledBy (owner : QuestionOwner) (i : Nat) : List (Event Nat) :=
  [.host (.invoke owner), .host (.access i true), .host (.access i true), .read true]

/-- A question is asked by the task at `k`, and its announcement is processed. -/
def askedBy (owner : QuestionOwner) (k : Nat) (id : String) : List (Event Nat) :=
  [.host (.ask (askParams owner)), .host (.advance k ⟨true, id, some 1⟩),
    .host (.advance k ⟨true, "", none⟩), .read true]

/-- Every call asks a question; one is answered, and its call asks the next before the task of the first
has gone on. -/
def crowded : List (Event Nat) :=
  crowd.zipIdx.flatMap (fun p => calledBy p.1 p.2 ++ askedBy p.1 p.2 p.1.call) ++
    (answeredBy (boundOwner "1" "a") 16 "a" ++ askedBy (boundOwner "1" "a") 17 "z")

/-- Without the condition: the client has sixteen open handles when the next question of an answered
one's call is announced. -/
theorem early_ask_throws :
    ¬∀ (events : List (Event Nat)) (s : HostedQuestions Nat),
      Next.run (next sampleReaders) events start = some s → s.client.openedThrew = false := by
  intro hclaim
  have hthrew : (Next.run (next sampleReaders) crowded start).map (·.client.openedThrew) =
      some true := by decide +kernel
  obtain ⟨s, hrun, hs⟩ := Option.map_eq_some_iff.mp hthrew
  exact absurd ((hclaim crowded s hrun).symm.trans hs) (by decide)

/-- A call asks, is answered, and asks again once its question is closed. -/
def askedAgain : List (Event Nat) :=
  asked "call" "first" ++ announcedLate ++
    (answeredBy (sampleOwner "call") 1 "first" ++ closedBy 0 ++
      askedBy (sampleOwner "call") 2 "second")

/-- What is resolved is closed when a question is asked. -/
def isUnraced (s : HostedQuestions Nat) : Event Nat → Bool
  | .host (.advance k _) =>
      match s.host.tasks[k]? with
      | some (.asking _ _) => s.host.questions.all fun e =>
          !e.resolved || s.host.emitted.contains (.questionClosed e.id e.owner)
      | _ => true
  | _ => true

theorem not_racing_of_isUnraced {s : HostedQuestions Nat} {e : Event Nat}
    (h : isUnraced s e = true) : ¬s.Racing e := by
  intro hracing
  match e with
  | .host (.advance k input) =>
    obtain ⟨owner, params, htask, -, e, he, -, hresolved, hnot⟩ := hracing
    simp only [isUnraced, htask] at h
    have hover := List.all_eq_true.mp h e he
    rw [hresolved, Bool.not_true, Bool.false_or] at hover
    exact hnot (List.contains_iff_mem.mp hover)

theorem asked_question_fits :
    ∃ s : HostedQuestions Nat, Next.run (next sampleReaders) askedAgain start = some s ∧
      s.host.emitted.length = 4 ∧ s.client.handles.length = 2 ∧ s.host.entries.length ≤ 128 ∧
      s.client.openedThrew = false := by
  have hsome : (Next.run (next sampleReaders) askedAgain start).isSome = true := by decide +kernel
  have hrun := Next.run_getD hsome start
  have heach : Next.Each (next sampleReaders) (fun s e => ¬s.Racing e) askedAgain start :=
    Next.Each.of_check (fun _ _ => not_racing_of_isUnraced) (by decide +kernel)
  have hlimits := question_limits hrun
  exact ⟨_, hrun, by decide +kernel, by decide +kernel, hlimits.2.2.1, hlimits.2.2.2.2 heach⟩

end HostedQuestions

end Questions

end AgentBridge
