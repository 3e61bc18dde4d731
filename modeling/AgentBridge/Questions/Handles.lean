import AgentBridge.Client.Questions
import AgentBridge.Questions.Frames
import Mathlib.Data.List.Nodup

/-!
# The handles of questions

What a client knows after it processed lawful frames: every announced question has its handle, unless
the client no longer owns the call, and a closed one has no open handle left.
-/

namespace AgentBridge

open Reasoning
open Host.Questions

namespace Client

/-- The call runs, and its signal is not aborted. -/
def Owned (active : List ActiveCall) (owner : QuestionOwner) : Prop :=
  ∃ a ∈ active, a.owner = owner ∧ a.aborted = false

namespace QuestionClient

variable {c d : QuestionClient} {frames done : List Frame} {owner : QuestionOwner}
  {view : QuestionView} {f : Frame}

/-- The client has nothing more to do with the call of a question. -/
def Released (c : QuestionClient) (v : QuestionView) : Prop :=
  ¬Owned c.active v.owner ∨ c.stopped = true

/-- The client, after frames of which it processed the first ones. -/
structure Knows (frames done : List Frame) (c : QuestionClient) : Prop where
  active : ∀ a ∈ c.active, .toolCall a.owner ∈ frames
  calls : (c.active.map (·.owner.call)).Nodup
  room : c.active.length ≤ 16
  handles : ∀ h ∈ c.handles, Mentioned frames h.view
  pending : ∀ views, .pending views ∈ c.continuations → ∀ v ∈ views, Mentioned frames v
  ids : ((c.handles.filter (·.kept)).map (·.view.questionId)).Nodup
  dropped : ∀ h ∈ c.handles, h.kept = false → h.aborted = true
  opened : ∀ v, .questionOpened v ∈ done →
    (∃ h ∈ c.handles, h.kept = true ∧ h.view = v) ∨ c.Released v
  closed : ∀ v o, .questionOpened v ∈ done → .questionClosed v.questionId o ∈ done →
    ∀ h ∈ c.handles, h.view = v → h.aborted = true
  /-- A handle is closed for a reason. -/
  reasons : ∀ h ∈ c.handles, h.aborted = true →
    (∃ o, .questionClosed h.view.questionId o ∈ frames) ∨ c.Released h.view
  notify : ∀ i id, .notify i id ∈ c.continuations →
    ∃ h, c.handles[i]? = some h ∧ h.view.questionId = id

theorem knows_start : Knows [] [] start where
  active := nofun
  calls := List.nodup_nil
  room := by decide
  handles := nofun
  pending := nofun
  ids := List.nodup_nil
  dropped := nofun
  opened := nofun
  closed := nofun
  reasons := nofun
  notify := nofun

/-! ## Owned calls -/

theorem owns_eq (hlaw : Lawful frames) (hactive : ∀ a ∈ c.active, .toolCall a.owner ∈ frames)
    (hcalls : (c.active.map (·.owner.call)).Nodup) (howner : .toolCall owner ∈ frames) :
    owns c.active owner = some true ∧ Owned c.active owner ∨
      owns c.active owner = some false ∧ ¬Owned c.active owner := by
  unfold owns
  cases hfind : c.active.find? fun a => a.owner.call == owner.call with
  | none =>
    refine Or.inr ⟨rfl, fun ⟨a, ha, howned, _⟩ => ?_⟩
    simpa [howned] using List.find?_eq_none.mp hfind a ha
  | some a =>
    have ha := List.mem_of_find?_eq_some hfind
    have hcall : a.owner.call = owner.call := by simpa using List.find?_some hfind
    have heq : a.owner = owner := hlaw.owner_eq (hactive a ha) howner hcall
    cases haborted : a.aborted with
    | true =>
      refine Or.inr ⟨by simp [haborted], fun ⟨b, hb, hbo, hopen⟩ => ?_⟩
      have hsame := List.inj_on_of_nodup_map hcalls hb ha (by rw [hbo, heq])
      rw [hsame, haborted] at hopen
      cases hopen
    | false => exact Or.inl ⟨by simp [haborted, heq], a, ha, heq, haborted⟩

/-! ## Handles that close -/

/-- A change of handles that opens none and keeps none again. -/
structure Closing (g : QuestionHandle → QuestionHandle) : Prop where
  view : ∀ h, (g h).view = h.view
  aborted : ∀ h, h.aborted = true → (g h).aborted = true
  kept : ∀ h, (g h).kept = true → h.kept = true
  dropped : ∀ h, (h.kept = false → h.aborted = true) → (g h).kept = false → (g h).aborted = true

theorem closing_closeIf (p : QuestionHandle → Bool) : Closing (closeIf p) where
  view h := by unfold closeIf; split <;> rfl
  aborted h hh := by unfold closeIf; split <;> simp [hh]
  kept h hh := by unfold closeIf at hh; split at hh <;> exact hh
  dropped h hdropped hh := by
    unfold closeIf at hh ⊢
    split at hh
    · rename_i hp
      rw [if_pos hp]
    · rename_i hp
      rw [if_neg hp]
      exact hdropped hh

theorem closing_drop : Closing drop where
  view h := by unfold drop; split <;> rfl
  aborted h hh := by unfold drop; split <;> simp [hh]
  kept h hh := by unfold drop at hh; split at hh <;> simp_all
  dropped h hdropped hh := by
    unfold drop at hh ⊢
    split at hh
    · rename_i hkept
      rw [if_pos hkept]
    · rename_i hkept
      rw [if_neg hkept]
      exact hdropped hh

/-- What the loop of `opened` does to a handle. -/
def release (active : List ActiveCall) (h : QuestionHandle) : QuestionHandle :=
  if owns active h.view.owner = some false then drop h else h

theorem closing_release (active : List ActiveCall) : Closing (release active) where
  view h := by unfold release; split; exacts [closing_drop.view h, rfl]
  aborted h hh := by unfold release; split; exacts [closing_drop.aborted h hh, hh]
  kept h hh := by unfold release at hh; split at hh; exacts [closing_drop.kept h hh, hh]
  dropped h hdropped hh := by
    unfold release at hh ⊢
    split at hh
    · rename_i howns
      rw [if_pos howns]
      exact closing_drop.dropped h hdropped hh
    · rename_i howns
      rw [if_neg howns]
      exact hdropped hh

theorem drop_of_not_kept {h : QuestionHandle} (hkept : h.kept = false) : drop h = h := by
  rw [drop, if_neg (by simp [hkept])]

theorem kept_ids_sublist {g : QuestionHandle → QuestionHandle} (hg : Closing g)
    (handles : List QuestionHandle) :
    (((handles.map g).filter (·.kept)).map (·.view.questionId)).Sublist
      ((handles.filter (·.kept)).map (·.view.questionId)) := by
  induction handles with
  | nil => exact List.Sublist.refl _
  | cons h hs ih =>
    rw [List.map_cons]
    by_cases hgk : (g h).kept = true
    · rw [List.filter_cons_of_pos hgk, List.filter_cons_of_pos (hg.kept h hgk), List.map_cons,
        List.map_cons, hg.view]
      exact ih.cons_cons _
    · rw [List.filter_cons_of_neg hgk]
      by_cases hk : h.kept = true
      · rw [List.filter_cons_of_pos hk, List.map_cons]
        exact ih.cons _
      · rw [List.filter_cons_of_neg hk]
        exact ih

/-- Handles close, and those that leave the map or close do so for a reason. -/
theorem Knows.map (h : Knows frames done c) {g : QuestionHandle → QuestionHandle} (hg : Closing g)
    (hkept : ∀ x ∈ c.handles, x.kept = true → (g x).kept = false → c.Released x.view)
    (hreasons : ∀ x ∈ c.handles, x.aborted = false → (g x).aborted = true →
      (∃ o, .questionClosed x.view.questionId o ∈ frames) ∨ c.Released x.view) :
    Knows frames done { c with handles := c.handles.map g } where
  active := h.active
  calls := h.calls
  room := h.room
  handles y hy := by
    obtain ⟨x, hx, rfl⟩ := List.mem_map.mp hy
    exact hg.view x ▸ h.handles x hx
  pending := h.pending
  ids := List.Nodup.sublist (kept_ids_sublist hg c.handles) h.ids
  dropped y hy := by
    obtain ⟨x, hx, rfl⟩ := List.mem_map.mp hy
    exact hg.dropped x (h.dropped x hx)
  opened v hv := by
    rcases h.opened v hv with ⟨x, hx, hxkept, rfl⟩ | hreleased
    · cases hgk : (g x).kept with
      | true => exact Or.inl ⟨g x, List.mem_map_of_mem hx, hgk, hg.view x⟩
      | false => exact Or.inr (hkept x hx hxkept hgk)
    · exact Or.inr hreleased
  closed v o hopened hclosed y hy hview := by
    obtain ⟨x, hx, rfl⟩ := List.mem_map.mp hy
    exact hg.aborted x (h.closed v o hopened hclosed x hx (hg.view x ▸ hview))
  reasons y hy haborted := by
    obtain ⟨x, hx, rfl⟩ := List.mem_map.mp hy
    rw [hg.view]
    cases hx' : x.aborted with
    | true => exact h.reasons x hx hx'
    | false => exact hreasons x hx hx' haborted
  notify i id hmem := by
    obtain ⟨x, hx, hid⟩ := h.notify i id hmem
    refine ⟨g x, ?_, by rw [hg.view]; exact hid⟩
    show (c.handles.map g)[i]? = _
    rw [List.getElem?_map, hx]
    rfl

/-! ## `opened` -/

theorem prune_eq (hlaw : Lawful frames) (hactive : ∀ a ∈ c.active, .toolCall a.owner ∈ frames)
    (hcalls : (c.active.map (·.owner.call)).Nodup) (handles : List QuestionHandle)
    (hmentioned : ∀ x ∈ handles, Mentioned frames x.view) :
    prune c.active handles = (handles.map (release c.active), false) := by
  induction handles with
  | nil => rfl
  | cons x xs ih =>
    rw [List.forall_mem_cons] at hmentioned
    rw [prune, ih hmentioned.2, List.map_cons]
    have howner := hlaw.owner_of_mentioned hmentioned.1
    cases hkept : x.kept with
    | false =>
      rw [if_neg (by simp), release, drop_of_not_kept hkept, ite_self]
    | true =>
      rw [if_pos rfl]
      rcases owns_eq hlaw hactive hcalls howner with ⟨howns, -⟩ | ⟨howns, -⟩
      · simp [release, howns]
      · simp [release, howns]

/-- The client, once `opened` went through its map. -/
def pruned (c : QuestionClient) : QuestionClient :=
  { c with handles := c.handles.map (release c.active) }

/-- What `opened` comes to. -/
inductive Opens (c : QuestionClient) (view : QuestionView) (notify : Bool) :
    Opened × QuestionClient → Prop
  | ignored : c.Released view → Opens c view notify (.ignored, c.pruned)
  | existing (i : Nat) (h : QuestionHandle) : c.pruned.handles[i]? = some h → h.kept = true →
      h.view.questionId = view.questionId → Opens c view notify (.handle i, c.pruned)
  | full : Owned c.active view.owner → c.stopped = false →
      (∀ h ∈ c.pruned.handles, h.kept = true → h.view.questionId ≠ view.questionId) →
      isFull c.pruned.handles = true → Opens c view notify (.threw, c.pruned)
  | made : Owned c.active view.owner → c.stopped = false →
      (∀ h ∈ c.pruned.handles, h.kept = true → h.view.questionId ≠ view.questionId) →
      Opens c view notify (.handle c.pruned.handles.length, c.pruned.make view notify)

theorem Knows.opens (h : Knows frames done c) (hlaw : Lawful frames)
    (howner : .toolCall view.owner ∈ frames) (notify : Bool) :
    Opens c view notify (c.opened view notify) := by
  have hopened : c.opened view notify = c.pruned.lookup view notify := by
    unfold QuestionClient.opened
    rw [prune_eq hlaw h.active h.calls c.handles h.handles]
    rfl
  rw [hopened, lookup]
  by_cases hstopped : c.pruned.stopped = true
  · rw [if_pos hstopped]
    exact .ignored (Or.inr hstopped)
  rw [if_neg hstopped]
  rw [Bool.not_eq_true] at hstopped
  rcases owns_eq hlaw h.active h.calls howner with ⟨howns, howned⟩ | ⟨howns, howned⟩
  · rw [show owns c.pruned.active view.owner = some true from howns]
    dsimp only
    split
    · rename_i i hfind
      obtain ⟨hlt, hp, -⟩ := List.findIdx?_eq_some_iff_getElem.mp hfind
      simp only [Bool.and_eq_true, beq_iff_eq] at hp
      exact .existing i _ (List.getElem?_eq_getElem hlt) hp.1 hp.2
    · rename_i hfind
      have hnone : ∀ x ∈ c.pruned.handles, x.kept = true →
          x.view.questionId ≠ view.questionId := by
        intro x hx hkept hid
        simpa [hkept, hid] using List.findIdx?_eq_none_iff.mp hfind x hx
      split
      · rename_i hfull
        exact .full howned hstopped hnone hfull
      · exact .made howned hstopped hnone
  · rw [show owns c.pruned.active view.owner = some false from howns]
    exact .ignored (Or.inl howned)

@[simp] theorem make_handles {notify : Bool} :
    (c.make view notify).handles = c.handles ++ [⟨view, false, true⟩] := by
  unfold QuestionClient.make
  dsimp only
  split <;> rfl

@[simp] theorem make_active {notify : Bool} : (c.make view notify).active = c.active := by
  unfold QuestionClient.make
  dsimp only
  split <;> rfl

@[simp] theorem make_stopped {notify : Bool} : (c.make view notify).stopped = c.stopped := by
  unfold QuestionClient.make
  dsimp only
  split <;> rfl

theorem Knows.prune (h : Knows frames done c) (hlaw : Lawful frames) :
    Knows frames done c.pruned := by
  have hreleased : ∀ x ∈ c.handles, release c.active x ≠ x → c.Released x.view := by
    intro x hx hne
    have howner := hlaw.owner_of_mentioned (h.handles x hx)
    rcases owns_eq hlaw h.active h.calls howner with ⟨howns, -⟩ | ⟨-, howned⟩
    · exact absurd (by simp [release, howns]) hne
    · exact Or.inl howned
  refine h.map (closing_release c.active) (fun x hx hkept hdropped => hreleased x hx fun heq => ?_)
    fun x hx hopen haborted => Or.inr (hreleased x hx fun heq => ?_)
  · rw [heq, hkept] at hdropped
    cases hdropped
  · rw [heq, hopen] at haborted
    cases haborted

/-- A question without a handle gets one: had it been announced, it would have one. -/
theorem Knows.make (h : Knows frames done c) (hview : Mentioned frames view)
    (howned : Owned c.active view.owner) (hstopped : c.stopped = false)
    (hnone : ∀ x ∈ c.handles, x.kept = true → x.view.questionId ≠ view.questionId) (notify : Bool) :
    Knows frames done (c.make view notify) := by
  have hnew : ∀ v, .questionOpened v ∈ done → v ≠ view := by
    rintro v hv rfl
    rcases h.opened v hv with ⟨x, hx, hkept, hxv⟩ | hreleased | hreleased
    · exact hnone x hx hkept (congrArg _ hxv)
    · exact hreleased howned
    · rw [hstopped] at hreleased
      cases hreleased
  have hhandles : Knows frames done { c with handles := c.handles ++ [⟨view, false, true⟩] } := by
    refine ⟨h.active, h.calls, h.room, ?_, h.pending, ?_, ?_, ?_, ?_, ?_, ?_⟩
    · intro x hx
      rcases List.mem_append.mp hx with hx | hx
      · exact h.handles x hx
      · exact List.mem_singleton.mp hx ▸ hview
    · show (((c.handles ++ [(⟨view, false, true⟩ : QuestionHandle)]).filter (·.kept)).map
        (·.view.questionId)).Nodup
      rw [List.filter_append, List.map_append, List.nodup_append]
      refine ⟨h.ids, by simp, fun id hid id' hid' heq => ?_⟩
      obtain ⟨x, hx, rfl⟩ := List.mem_map.mp hid
      rw [List.mem_filter] at hx
      have hlast : id' = view.questionId := by simpa using hid'
      exact hnone x hx.1 hx.2 (heq.trans hlast)
    · intro x hx hkept
      rcases List.mem_append.mp hx with hx | hx
      · exact h.dropped x hx hkept
      · rw [List.mem_singleton.mp hx] at hkept
        cases hkept
    · intro v hv
      rcases h.opened v hv with ⟨x, hx, hrest⟩ | hreleased
      · exact Or.inl ⟨x, List.mem_append_left _ hx, hrest⟩
      · exact Or.inr hreleased
    · intro v o hopened hclosed x hx hxv
      rcases List.mem_append.mp hx with hx | hx
      · exact h.closed v o hopened hclosed x hx hxv
      · rw [List.mem_singleton.mp hx] at hxv
        exact absurd hxv.symm (hnew v hopened)
    · intro x hx haborted
      rcases List.mem_append.mp hx with hx | hx
      · exact h.reasons x hx haborted
      · rw [List.mem_singleton.mp hx] at haborted
        cases haborted
    · intro i id hmem
      obtain ⟨x, hx, hid⟩ := h.notify i id hmem
      exact ⟨x, List.getElem?_append_left (List.getElem?_eq_some_iff.mp hx).1 ▸ hx, hid⟩
  unfold QuestionClient.make
  dsimp only
  split
  · refine ⟨hhandles.active, hhandles.calls, hhandles.room, hhandles.handles, ?_, hhandles.ids,
      hhandles.dropped, hhandles.opened, hhandles.closed, hhandles.reasons, ?_⟩
    · intro views hmem
      rcases List.mem_append.mp hmem with hmem | hmem
      · exact h.pending views hmem
      · cases List.mem_singleton.mp hmem
    · intro i id hmem
      rcases List.mem_append.mp hmem with hmem | hmem
      · exact hhandles.notify i id hmem
      · obtain ⟨rfl, rfl⟩ := Continuation.notify.inj (List.mem_singleton.mp hmem)
        exact ⟨⟨view, false, true⟩, List.getElem?_concat_length, rfl⟩
  · exact hhandles

/-- What `opened` leaves, if the question was mentioned. -/
theorem Knows.lookup (h : Knows frames done c) (hlaw : Lawful frames) (hview : Mentioned frames view)
    {notify : Bool} {result : Opened × QuestionClient} (hopens : Opens c view notify result) :
    Knows frames done result.2 := by
  have hpruned := h.prune hlaw
  cases hopens with
  | ignored _ => exact hpruned
  | existing i x _ _ _ => exact hpruned
  | full _ _ _ _ => exact hpruned
  | made howned hstopped hnone => exact hpruned.make hview howned hstopped hnone notify

/-! ## Frames -/

/-- A frame arrives and is not yet processed. -/
theorem Knows.arrive (h : Knows frames done c) (f : Frame) : Knows (frames ++ [f]) done c where
  active a ha := List.mem_append_left _ (h.active a ha)
  calls := h.calls
  room := h.room
  handles x hx := mentioned_concat.mpr (Or.inl (h.handles x hx))
  pending views hmem v hv := mentioned_concat.mpr (Or.inl (h.pending views hmem v hv))
  ids := h.ids
  dropped := h.dropped
  opened := h.opened
  closed := h.closed
  reasons x hx haborted :=
    (h.reasons x hx haborted).imp_left fun ⟨o, ho⟩ => ⟨o, List.mem_append_left _ ho⟩
  notify := h.notify

/-- A frame was processed. -/
theorem Knows.finish (h : Knows (frames ++ [f]) frames c) (hlaw : Lawful (frames ++ [f]))
    (hopened : ∀ v, f = .questionOpened v →
      (∃ x ∈ c.handles, x.kept = true ∧ x.view = v) ∨ c.Released v)
    (hclosed : ∀ v o, f = .questionClosed v.questionId o → .questionOpened v ∈ frames →
      ∀ x ∈ c.handles, x.view = v → x.aborted = true) :
    Knows (frames ++ [f]) (frames ++ [f]) c where
  active := h.active
  calls := h.calls
  room := h.room
  handles := h.handles
  pending := h.pending
  ids := h.ids
  dropped := h.dropped
  opened v hv := by
    rcases List.mem_append.mp hv with hv | hv
    · exact h.opened v hv
    · exact hopened v (List.mem_singleton.mp hv).symm
  closed v o hv ho x hx hxv := by
    have hlast := (eachAfter_concat.mp hlaw.opened).2
    rcases List.mem_append.mp hv with hv | hv
    · rcases List.mem_append.mp ho with ho | ho
      · exact h.closed v o hv ho x hx hxv
      · exact hclosed v o (List.mem_singleton.mp ho).symm hv x hx hxv
    · obtain rfl := (List.mem_singleton.mp hv).symm
      rcases List.mem_append.mp ho with ho | ho
      · exact absurd ho ((hlast v rfl).2 o)
      · cases List.mem_singleton.mp ho
  reasons := h.reasons
  notify := h.notify

/-- A frame that says nothing of questions is processed as soon as it arrives. -/
theorem Knows.quiet (h : Knows frames frames c) (hlaw : Lawful (frames ++ [f]))
    (hopened : ∀ v, f ≠ .questionOpened v) (hclosed : ∀ id o, f ≠ .questionClosed id o) :
    Knows (frames ++ [f]) (frames ++ [f]) c :=
  (h.arrive f).finish hlaw (fun v hv => absurd hv (hopened v))
    fun v o ho => absurd ho (hclosed v.questionId o)

/-! ## Calls -/

theorem released_mono (hsub : Owned d.active view.owner → Owned c.active view.owner)
    (hstopped : c.stopped = true → d.stopped = true) (h : c.Released view) : d.Released view :=
  Or.imp (fun hnot howned => hnot (hsub howned)) hstopped h

/-- The client owns fewer calls than before. -/
theorem Knows.shrink (h : Knows frames done c) {active : List ActiveCall} {stopped : Bool}
    (hsub : ∀ a ∈ active, ∃ b ∈ c.active, b.owner = a.owner)
    (hcalls : (active.map (·.owner.call)).Nodup) (hroom : active.length ≤ c.active.length)
    (howned : ∀ o, Owned active o → Owned c.active o)
    (hstopped : c.stopped = true → stopped = true) :
    Knows frames done { c with active, stopped } where
  active a ha := by
    obtain ⟨b, hb, heq⟩ := hsub a ha
    exact heq ▸ h.active b hb
  calls := hcalls
  room := Nat.le_trans hroom h.room
  handles := h.handles
  pending := h.pending
  ids := h.ids
  dropped := h.dropped
  opened v hv := (h.opened v hv).imp_right (released_mono (howned _) hstopped)
  closed := h.closed
  reasons x hx haborted := (h.reasons x hx haborted).imp_right (released_mono (howned _) hstopped)
  notify := h.notify

/-- Signals abort. -/
theorem Knows.abort (h : Knows frames done c) {g : ActiveCall → ActiveCall} {stopped : Bool}
    (howner : ∀ a, (g a).owner = a.owner) (haborted : ∀ a, a.aborted = true → (g a).aborted = true)
    (hstopped : c.stopped = true → stopped = true) :
    Knows frames done { c with active := c.active.map g, stopped } := by
  refine h.shrink (fun a ha => ?_) ?_ (Nat.le_of_eq (List.length_map _)) ?_ hstopped
  · obtain ⟨b, hb, rfl⟩ := List.mem_map.mp ha
    exact ⟨b, hb, (howner b).symm⟩
  · have hmap : (fun a : ActiveCall => a.owner.call) ∘ g = fun a => a.owner.call :=
      funext fun a => congrArg _ (howner a)
    rw [List.map_map, hmap]
    exact h.calls
  · rintro o ⟨a, ha, hao, hopen⟩
    obtain ⟨b, hb, rfl⟩ := List.mem_map.mp ha
    refine ⟨b, hb, (howner b).symm.trans hao, ?_⟩
    cases hb' : b.aborted with
    | false => rfl
    | true =>
      rw [haborted b hb'] at hopen
      cases hopen

/-- A call that is accepted is another one than those of the questions so far. -/
theorem Knows.accept (h : Knows frames frames c) (hlaw : Lawful (frames ++ [.toolCall owner]))
    {valid : Bool} (haccept : c.accept owner valid = some d) :
    Knows (frames ++ [.toolCall owner]) (frames ++ [.toolCall owner]) d := by
  have hquiet := h.quiet hlaw nofun nofun
  unfold QuestionClient.accept at haccept
  split at haccept
  · exact Option.some.inj haccept ▸ hquiet
  split at haccept
  · cases haccept
  rename_i hvalid
  simp only [Bool.or_eq_true, not_or, Bool.not_eq_true] at hvalid
  split at haccept
  · exact Option.some.inj haccept ▸ hquiet
  rename_i hroom
  obtain rfl := Option.some.inj haccept
  -- the calls of the questions so far came before this one
  have howned : ∀ v, Mentioned frames v →
      Owned (c.active ++ [⟨owner, false⟩]) v.owner → Owned c.active v.owner := by
    rintro v hv ⟨a, ha, hao, hopen⟩
    rcases List.mem_append.mp ha with ha | ha
    · exact ⟨a, ha, hao, hopen⟩
    · have hcall := hlaw.of_concat.owner_of_mentioned hv
      rw [List.mem_singleton.mp ha] at hao
      exact absurd (congrArg (·.call) hao.symm)
        ((eachAfter_concat.mp hlaw.calls).2 owner v.owner rfl hcall)
  refine ⟨fun a ha => ?_, ?_, ?_, hquiet.handles, hquiet.pending, h.ids, h.dropped, fun v hv => ?_,
    hquiet.closed, fun x hx haborted => ?_, h.notify⟩
  · rcases List.mem_append.mp ha with ha | ha
    · exact hquiet.active a ha
    · rw [List.mem_singleton.mp ha]
      exact List.mem_append_right _ (List.mem_singleton_self _)
  · show ((c.active ++ [(⟨owner, false⟩ : ActiveCall)]).map (·.owner.call)).Nodup
    rw [List.map_append, List.nodup_append]
    refine ⟨h.calls, by simp, fun id hid id' hid' => ?_⟩
    obtain ⟨a, ha, rfl⟩ := List.mem_map.mp hid
    rw [List.map_singleton, List.mem_singleton] at hid'
    subst hid'
    simpa using List.any_eq_false.mp hvalid.2 a ha
  · show (c.active ++ [_]).length ≤ 16
    rw [List.length_append, List.length_singleton]
    omega
  · have hv' : .questionOpened v ∈ frames := by
      rcases List.mem_append.mp hv with hv | hv
      · exact hv
      · cases List.mem_singleton.mp hv
    exact (h.opened v hv').imp_right
      (released_mono (howned v (mentioned_of_opened hv')) fun hs => hs)
  · refine (hquiet.reasons x hx haborted).imp_right ?_
    exact released_mono (howned x.view (h.handles x hx)) fun hs => hs

/-- The handles of a call close together with its signal. -/
theorem Knows.cancel (h : Knows frames frames c) (hlaw : Lawful (frames ++ [.toolCancel owner]))
    (hcancel : c.cancel owner = some d) :
    Knows (frames ++ [.toolCancel owner]) (frames ++ [.toolCancel owner])
      (d.cancelOwner owner.call) := by
  have hquiet := h.quiet hlaw nofun nofun
  -- the client no longer owns the call
  have hcancelled : Knows (frames ++ [.toolCancel owner]) (frames ++ [.toolCancel owner]) d ∧
      ∀ a ∈ d.active, a.owner.call = owner.call → a.aborted = true := by
    unfold QuestionClient.cancel at hcancel
    split at hcancel
    · rename_i hnone
      obtain rfl := Option.some.inj hcancel
      refine ⟨hquiet, fun a ha hcall => ?_⟩
      simpa [hcall] using List.find?_eq_none.mp hnone a ha
    · split at hcancel
      · obtain rfl := Option.some.inj hcancel
        refine ⟨hquiet.abort (fun a => ?_) (fun a ha => ?_) fun hs => hs, fun a ha hcall => ?_⟩
        · unfold QuestionClient.abort
          split <;> rfl
        · unfold QuestionClient.abort
          split
          · rfl
          · exact ha
        · obtain ⟨b, hb, rfl⟩ := List.mem_map.mp ha
          unfold QuestionClient.abort at hcall ⊢
          split at hcall
          · rename_i heq
            rw [if_pos heq]
          · rename_i hne
            exact absurd hcall hne
      · cases hcancel
  obtain ⟨hd, haborted⟩ := hcancelled
  refine hd.map (closing_closeIf _) (fun x hx hkept hnot => ?_) fun x hx hopen hclosed => ?_
  · unfold closeIf at hnot
    split at hnot
    · simp [hkept] at hnot
    · rw [hkept] at hnot
      cases hnot
  · unfold closeIf at hclosed
    split at hclosed
    · rename_i hp
      rw [Bool.and_eq_true, beq_iff_eq] at hp
      refine Or.inr (Or.inl ?_)
      rintro ⟨a, ha, hao, haopen⟩
      rw [haborted a ha (hao ▸ hp.2)] at haopen
      cases haopen
    · rw [hopen] at hclosed
      cases hclosed

theorem Knows.close (h : Knows frames frames c) {id : String}
    (hlaw : Lawful (frames ++ [.questionClosed id owner])) (hclosed : c.closed id owner = some d) :
    Knows (frames ++ [.questionClosed id owner]) (frames ++ [.questionClosed id owner]) d := by
  have harrived := h.arrive (.questionClosed id owner)
  unfold QuestionClient.closed at hclosed
  split at hclosed
  · rename_i hnone
    obtain rfl := Option.some.inj hclosed
    refine harrived.finish hlaw nofun fun v o heq _ x hx hxv => ?_
    obtain ⟨rfl, -⟩ := Frame.questionClosed.inj heq
    refine h.dropped x hx ?_
    simpa [hxv] using List.find?_eq_none.mp hnone x hx
  · split at hclosed
    · obtain rfl := Option.some.inj hclosed
      have hmapped := harrived.map (closing_closeIf fun h => h.view.questionId == id)
        (fun x hx hkept hnot => ?_) fun x hx hopen haborted => ?_
      · refine hmapped.finish hlaw nofun fun v o heq _ y hy hyv => ?_
        obtain ⟨rfl, -⟩ := Frame.questionClosed.inj heq
        obtain ⟨x, hx, rfl⟩ := List.mem_map.mp hy
        rw [(closing_closeIf _).view] at hyv
        unfold closeIf
        cases hkept : x.kept with
        | true => simp [hyv]
        | false => simpa using h.dropped x hx hkept
      · unfold closeIf at hnot
        split at hnot
        · simp [hkept] at hnot
        · rw [hkept] at hnot
          cases hnot
      · unfold closeIf at haborted
        split at haborted
        · rename_i hp
          rw [Bool.and_eq_true, beq_iff_eq] at hp
          refine Or.inl ⟨owner, List.mem_append_right _ ?_⟩
          rw [hp.2]
          exact List.mem_singleton_self _
        · rw [hopen] at haborted
          cases haborted
    · cases hclosed

/-! ## Every step of the client -/

/-- What the client told the application does not matter to what it knows. -/
theorem Knows.history (h : Knows frames done c) (hactive : d.active = c.active)
    (hstopped : d.stopped = c.stopped) (hhandles : d.handles = c.handles)
    (hcontinuations : ∀ t ∈ d.continuations, t ∈ c.continuations) : Knows frames done d where
  active := hactive ▸ h.active
  calls := hactive ▸ h.calls
  room := hactive ▸ h.room
  handles := hhandles ▸ h.handles
  pending views hmem := h.pending views (hcontinuations _ hmem)
  ids := hhandles ▸ h.ids
  dropped := hhandles ▸ h.dropped
  opened v hv := by
    rw [hhandles]
    exact (h.opened v hv).imp_right (released_mono (hactive ▸ id) (hstopped ▸ id))
  closed := hhandles ▸ h.closed
  reasons x hx haborted :=
    (h.reasons x (hhandles ▸ hx) haborted).imp_right (released_mono (hactive ▸ id) (hstopped ▸ id))
  notify i id hmem := hhandles ▸ h.notify i id (hcontinuations _ hmem)

theorem Knows.process_opened (h : Knows frames frames c)
    (hlaw : Lawful (frames ++ [.questionOpened view])) {valid threw : Bool}
    (hprocess : c.process valid (.questionOpened view) = (threw, d)) :
    if threw then Knows frames frames d
    else Knows (frames ++ [.questionOpened view]) (frames ++ [.questionOpened view]) d := by
  have hbefore := hlaw.of_concat
  have howner := (eachAfter_concat.mp hlaw.owners).2 view rfl
  have hview : Mentioned (frames ++ [.questionOpened view]) view :=
    mentioned_concat.mpr (Or.inr rfl)
  have hpruned := h.prune hbefore
  have hopens := h.opens hbefore howner true
  simp only [QuestionClient.process] at hprocess
  generalize c.opened view true = result at hopens hprocess
  cases hopens with
  | ignored hreleased =>
    obtain ⟨rfl, rfl⟩ := Prod.mk.inj hprocess
    refine (hpruned.arrive _).finish hlaw (fun v hv => ?_) nofun
    exact Frame.questionOpened.inj hv ▸ Or.inr hreleased
  | existing i x hget hkept hid =>
    have hx := List.mem_of_getElem? hget
    have hdone : Knows (frames ++ [.questionOpened view]) (frames ++ [.questionOpened view])
        c.pruned := by
      refine (hpruned.arrive _).finish hlaw (fun v hv => Or.inl ⟨x, hx, hkept, ?_⟩) nofun
      obtain rfl := Frame.questionOpened.inj hv
      exact hlaw.unique _ _ (mentioned_concat.mpr (Or.inl (hpruned.handles x hx))) hview hid
    dsimp only at hprocess
    split at hprocess
    · obtain ⟨rfl, rfl⟩ := Prod.mk.inj hprocess
      exact hdone.history rfl rfl rfl fun t ht => ht
    · obtain ⟨rfl, rfl⟩ := Prod.mk.inj hprocess
      exact hdone
  | full _ _ _ _ =>
    obtain ⟨rfl, rfl⟩ := Prod.mk.inj hprocess
    exact hpruned.history rfl rfl rfl fun t ht => ht
  | made howned hstopped hnone =>
    have hdone : Knows (frames ++ [.questionOpened view]) (frames ++ [.questionOpened view])
        (c.pruned.make view true) := by
      refine ((hpruned.arrive _).make hview howned hstopped hnone true).finish hlaw (fun v hv => ?_)
        nofun
      obtain rfl := Frame.questionOpened.inj hv
      exact Or.inl ⟨⟨view, false, true⟩, by simp, rfl, rfl⟩
    dsimp only at hprocess
    split at hprocess
    · obtain ⟨rfl, rfl⟩ := Prod.mk.inj hprocess
      exact hdone.history rfl rfl rfl fun t ht => ht
    · obtain ⟨rfl, rfl⟩ := Prod.mk.inj hprocess
      exact hdone

/-- A frame that throws is not processed. -/
theorem Knows.process (h : Knows frames frames c) (hlaw : Lawful (frames ++ [f])) {valid threw : Bool}
    (hprocess : c.process valid f = (threw, d)) :
    if threw then Knows frames frames d else Knows (frames ++ [f]) (frames ++ [f]) d := by
  cases f with
  | toolCall owner =>
    simp only [QuestionClient.process] at hprocess
    split at hprocess
    · rename_i haccept
      obtain ⟨rfl, rfl⟩ := Prod.mk.inj hprocess
      exact h.accept hlaw haccept
    · obtain ⟨rfl, rfl⟩ := Prod.mk.inj hprocess
      exact h
  | toolCancel owner =>
    simp only [QuestionClient.process] at hprocess
    split at hprocess
    · rename_i hcancel
      obtain ⟨rfl, rfl⟩ := Prod.mk.inj hprocess
      exact h.cancel hlaw hcancel
    · obtain ⟨rfl, rfl⟩ := Prod.mk.inj hprocess
      exact h
  | questionOpened view => exact h.process_opened hlaw hprocess
  | questionClosed id owner =>
    simp only [QuestionClient.process] at hprocess
    split at hprocess
    · rename_i hclosed
      obtain ⟨rfl, rfl⟩ := Prod.mk.inj hprocess
      exact h.close hlaw hclosed
    · obtain ⟨rfl, rfl⟩ := Prod.mk.inj hprocess
      exact h
  | pendingReply views =>
    obtain ⟨rfl, rfl⟩ := Prod.mk.inj hprocess
    have hquiet := h.quiet hlaw nofun nofun
    refine ⟨hquiet.active, hquiet.calls, hquiet.room, hquiet.handles, fun vs hmem v hv => ?_,
      hquiet.ids, hquiet.dropped, hquiet.opened, hquiet.closed, hquiet.reasons,
      fun i id hmem => ?_⟩
    · rcases List.mem_append.mp hmem with hmem | hmem
      · exact hquiet.pending vs hmem v hv
      · obtain rfl := Continuation.pending.inj (List.mem_singleton.mp hmem)
        exact mentioned_concat.mpr (Or.inr hv)
    · rcases List.mem_append.mp hmem with hmem | hmem
      · exact hquiet.notify i id hmem
      · cases List.mem_singleton.mp hmem

/-- The views of a reply are looked up one after the other. -/
theorem Knows.openAll (h : Knows frames done c) (hlaw : Lawful frames) (views : List QuestionView)
    (hviews : ∀ v ∈ views, Mentioned frames v) : Knows frames done (c.openAll views).2 := by
  induction views generalizing c with
  | nil => exact h
  | cons view views ih =>
    rw [List.forall_mem_cons] at hviews
    have hopens := h.opens hlaw (hlaw.owner_of_mentioned hviews.1) false
    have hafter := h.lookup hlaw hviews.1 hopens
    unfold QuestionClient.openAll
    split
    · rename_i heq
      rw [heq] at hafter
      exact hafter
    · rename_i heq
      rw [heq] at hafter
      exact ih hafter hviews.2
    · rename_i heq
      rw [heq] at hafter
      have hrest := ih hafter hviews.2
      split
      · rename_i hall
        rwa [hall] at hrest
      · rename_i hall
        rw [hall] at hrest
        exact hrest

theorem Knows.resume (h : Knows frames done c) (hlaw : Lawful frames) {t : Continuation}
    (ht : ∀ views, t = .pending views → ∀ v ∈ views, Mentioned frames v) :
    Knows frames done (c.resume t) := by
  cases t with
  | notify i id =>
    simp only [QuestionClient.resume]
    split
    · exact h
    · split
      · exact h.history rfl rfl rfl fun t ht => ht
      · exact h.history rfl rfl rfl fun t ht => ht
  | pending views =>
    have hall := h.openAll hlaw views (ht views rfl)
    simp only [QuestionClient.resume]
    split
    · rename_i heq
      rwa [heq] at hall
    · rename_i heq
      rw [heq] at hall
      exact hall.history rfl rfl rfl fun t ht => ht

theorem Knows.runContinuation (h : Knows frames done c) (hlaw : Lawful frames) {k : Nat}
    (hrun : c.runContinuation k = some d) : Knows frames done d := by
  obtain ⟨t, ht, hrun⟩ := Option.bind_eq_some_iff.mp hrun
  obtain rfl := Option.some.inj hrun
  have herased : Knows frames done { c with continuations := c.continuations.eraseIdx k } :=
    h.history rfl rfl rfl fun t ht => List.mem_of_mem_eraseIdx ht
  exact herased.resume hlaw fun views heq => h.pending views (heq ▸ List.mem_of_getElem? ht)

theorem Knows.handlerDone (h : Knows frames done c) (call : String) :
    Knows frames done (c.handlerDone call) := by
  refine h.shrink (fun a ha => ⟨a, List.mem_of_mem_filter ha, rfl⟩) ?_ (List.length_filter_le _ _)
    (fun o ⟨a, ha, hrest⟩ => ⟨a, List.mem_of_mem_filter ha, hrest⟩) fun hs => hs
  exact List.Nodup.sublist (List.filter_sublist.map _) h.calls

theorem Knows.fail (h : Knows frames done c) : Knows frames done c.fail := by
  have haborted : Knows frames done
      { c with active := c.active.map fun a => { a with aborted := true }, stopped := true } :=
    h.abort (fun _ => rfl) (fun _ _ => rfl) fun _ => rfl
  exact haborted.map closing_drop (fun _ _ _ _ => Or.inr rfl) fun _ _ _ _ => Or.inr (Or.inr rfl)

end QuestionClient

end Client

end AgentBridge
