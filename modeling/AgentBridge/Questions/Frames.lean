import AgentBridge.Host.Questions
import AgentBridge.Reasoning.Prefixes

/-!
# The frames of questions

What the order of the frames of a host says about its calls and its questions, whatever the client
does with them.
-/

namespace AgentBridge

open Reasoning

namespace Host

namespace Questions

/-- The frame says that the question is open. -/
def Frame.Mentions : Frame → QuestionView → Prop
  | .questionOpened view, v => v = view
  | .pendingReply views, v => v ∈ views
  | _, _ => False

def Mentioned (frames : List Frame) (v : QuestionView) : Prop := ∃ f ∈ frames, f.Mentions v

theorem mentioned_concat {frames : List Frame} {f : Frame} {v : QuestionView} :
    Mentioned (frames ++ [f]) v ↔ Mentioned frames v ∨ f.Mentions v := by
  constructor
  · rintro ⟨g, hg, hv⟩
    rcases List.mem_append.mp hg with hg | hg
    · exact Or.inl ⟨g, hg, hv⟩
    · exact Or.inr (List.mem_singleton.mp hg ▸ hv)
  · rintro (⟨g, hg, hv⟩ | hv)
    · exact ⟨g, List.mem_append_left _ hg, hv⟩
    · exact ⟨f, by simp, hv⟩

theorem Mentioned.of_take {frames : List Frame} {n : Nat} {v : QuestionView}
    (h : Mentioned (frames.take n) v) : Mentioned frames v := by
  obtain ⟨f, hf, hv⟩ := h
  exact ⟨f, List.mem_of_mem_take hf, hv⟩

theorem mentioned_of_opened {frames : List Frame} {v : QuestionView}
    (h : .questionOpened v ∈ frames) : Mentioned frames v := ⟨_, h, rfl⟩

structure Lawful (frames : List Frame) : Prop where
  /-- A call is announced once. -/
  calls : EachAfter (fun before f => ∀ o o', f = .toolCall o → .toolCall o' ∈ before →
    o'.call ≠ o.call) frames
  /-- A question comes after its call. -/
  owners : EachAfter (fun before f => ∀ v, f.Mentions v → .toolCall v.owner ∈ before) frames
  /-- A question is announced once, and not after it was closed. -/
  opened : EachAfter (fun before f => ∀ v, f = .questionOpened v → .questionOpened v ∉ before ∧
    ∀ o, .questionClosed v.questionId o ∉ before) frames
  unique : ∀ v v', Mentioned frames v → Mentioned frames v' → v.questionId = v'.questionId → v = v'

namespace Lawful

variable {frames : List Frame} {f : Frame}

theorem nil : Lawful [] where
  calls := EachAfter.nil
  owners := EachAfter.nil
  opened := EachAfter.nil
  unique v _ h := by
    obtain ⟨f, hf, -⟩ := h
    simp at hf

theorem take (h : Lawful frames) (n : Nat) : Lawful (frames.take n) where
  calls := h.calls.take n
  owners := h.owners.take n
  opened := h.opened.take n
  unique v v' hv hv' := h.unique v v' hv.of_take hv'.of_take

theorem of_concat (h : Lawful (frames ++ [f])) : Lawful frames := by
  have htake := h.take frames.length
  rwa [List.take_left] at htake

/-- Two announced calls of one id are one call. -/
theorem owner_eq (h : Lawful frames) {o o' : QuestionOwner} (ho : .toolCall o ∈ frames)
    (ho' : .toolCall o' ∈ frames) (hcall : o.call = o'.call) : o = o' := by
  obtain ⟨before, rest, hl⟩ := List.append_of_mem ho
  rw [hl, List.mem_append, List.mem_cons] at ho'
  rcases ho' with hbefore | heq | hrest
  · exact absurd hcall.symm (h.calls before _ rest hl o o' rfl hbefore)
  · exact (Frame.toolCall.inj heq).symm
  · obtain ⟨mid, tail, hmid⟩ := List.append_of_mem hrest
    refine absurd hcall (h.calls (before ++ .toolCall o :: mid) _ tail ?_ o' o rfl (by simp))
    rw [hl, hmid]
    simp

theorem owner_of_mentioned (h : Lawful frames) {v : QuestionView} (hv : Mentioned frames v) :
    .toolCall v.owner ∈ frames := by
  obtain ⟨f, hf, hv⟩ := hv
  obtain ⟨before, rest, hl⟩ := List.append_of_mem hf
  rw [hl]
  exact List.mem_append_left _ (h.owners before f rest hl v hv)

/-- A frame that is no call, no question and no reply keeps the laws. -/
theorem concat_quiet (h : Lawful frames) (hcall : ∀ o, f ≠ .toolCall o)
    (hmentions : ∀ v, ¬f.Mentions v) : Lawful (frames ++ [f]) where
  calls := h.calls.concat fun o _ hf => absurd hf (hcall o)
  owners := h.owners.concat fun v hv => absurd hv (hmentions v)
  opened := h.opened.concat fun v hf => absurd (show f.Mentions v from hf ▸ rfl) (hmentions v)
  unique v v' hv hv' := by
    refine h.unique v v' ?_ ?_
    · exact (mentioned_concat.mp hv).resolve_right (hmentions v)
    · exact (mentioned_concat.mp hv').resolve_right (hmentions v')

theorem concat_call (h : Lawful frames) {owner : QuestionOwner}
    (hnew : ∀ o, .toolCall o ∈ frames → o.call ≠ owner.call) :
    Lawful (frames ++ [.toolCall owner]) where
  calls := h.calls.concat fun o o' hf hmem => by
    obtain rfl := Frame.toolCall.inj hf
    exact hnew o' hmem
  owners := h.owners.concat nofun
  opened := h.opened.concat nofun
  unique v v' hv hv' := by
    refine h.unique v v' ?_ ?_
    · exact (mentioned_concat.mp hv).resolve_right nofun
    · exact (mentioned_concat.mp hv').resolve_right nofun

end Lawful

end Questions

end Host

end AgentBridge
