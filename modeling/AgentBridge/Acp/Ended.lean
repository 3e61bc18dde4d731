import AgentBridge.Acp.Recording

/-!
# What a recording that has ended leaves

Once the agent's end is recorded, no record of the run is left to be written, so that a checkpoint
makes no call any more.
-/

namespace AgentBridge

open Reasoning

namespace Acp

/-! ## The end of a recording -/

/-- The recording is over, and no record is left to be written. -/
structure Recorder.Quiet {D : Type} (r : Recorder D) : Prop where
  finished : r.finished = true
  written : ∀ w ∈ r.records, w.dirty = false ∨ w.stored.state.isFinal = true

section

variable {D F σ α : Type} {m : StoreMachine σ} {x : Recorder D × σ}

@[simp] theorem wp_recorder {Q : Recorder D → Recorder D × σ → Prop}
    {E : RecordingFault → Recorder D × σ → Prop} : Prog.wp recorder Q E x = Q x.1 x := rfl

@[simp] theorem wp_modifyRecorder {Q : Unit → Recorder D × σ → Prop}
    {E : RecordingFault → Recorder D × σ → Prop} (f : Recorder D → Recorder D) :
    Prog.wp (modifyRecorder f) Q E x = Q () (f x.1, x.2) := rfl

@[simp] theorem wp_fail {Q : α → Recorder D × σ → Prop}
    {E : RecordingFault → Recorder D × σ → Prop} (e : RecordingError) :
    Prog.wp (fail e : Recording D σ α) Q E x = E (.error e) x := rfl

/-- A call of the store leaves the recorder alone. -/
theorem wp_storeCall {call : StoreCall α} {Q : α → Recorder D × σ → Prop}
    {E : RecordingFault → Recorder D × σ → Prop} (hok : ∀ a t, Q a (x.1, t))
    (herror : ∀ f t, E f (x.1, t)) : Prog.wp (storeCall m call) Q E x := by
  refine Prog.wp_call (fun a y hy => ?_) fun f y hy => ?_
  · split at hy
    · obtain ⟨h, rfl⟩ := Prod.mk.inj hy
      exact hok a _
    · exact absurd (Prod.mk.inj hy).1 (by simp)
  · split at hy
    · exact absurd (Prod.mk.inj hy).1 (by simp)
    · obtain ⟨h, rfl⟩ := Prod.mk.inj hy
      exact herror f _

theorem wp_working {Q : Working → Recorder D × σ → Prop}
    {E : RecordingFault → Recorder D × σ → Prop} {index : Nat}
    (hok : ∀ w, x.1.records[index]? = some w → Q w x)
    (hpanic : x.1.records[index]? = none → E .panic x) : Prog.wp (working index) Q E x := by
  unfold working
  rw [Prog.wp_bind, wp_recorder]
  cases hw : x.1.records[index]? with
  | none => exact hpanic hw
  | some w => exact hok w hw

/-- A record of the bridge's own is written at once. -/
theorem evidence_quiet (name : String) (data : JsonValue) (reply : Option RecordId)
    (h : x.1.Quiet) :
    Prog.wp (evidence m name data reply) (fun _ t => t.1.Quiet) (fun _ t => t.1.Quiet) x := by
  unfold evidence insert
  simp only [Prog.wp_bind, wp_recorder, wp_modifyRecorder, Prog.wp_pure]
  refine wp_storeCall (fun stored t => ⟨h.finished, fun w hw => ?_⟩) fun _ _ => h
  cases List.mem_append.mp hw with
  | inl hw => exact h.written w hw
  | inr hw => exact .inl (by rw [List.mem_singleton.mp hw])

/-- A checkpoint of such a recording makes no call. -/
theorem checkpoint_quiet (h : x.1.Quiet) :
    Prog.wp (checkpoint m) (fun _ t => t = x) (fun _ _ => False) x := by
  unfold checkpoint
  rw [Prog.wp_bind, wp_recorder]
  refine Prog.wp_forM (fun rest t => (∀ i ∈ rest, i < x.1.records.length) ∧ t = x)
    (fun i rest t ht => ?_) ⟨fun i hi => List.mem_range.mp hi, rfl⟩ |>.mono
    (fun _ _ ht => ht.2) fun _ _ he => he
  obtain ⟨hlt, rfl⟩ := ht
  unfold checkpointRecord
  rw [Prog.wp_bind]
  refine wp_working (fun w hw => ?_) fun hnone => ?_
  · have hwritten := h.written w (List.mem_of_getElem? hw)
    have hskip : (w.dirty && !w.stored.state.isFinal) = false := by
      cases hwritten with
      | inl hclean => rw [hclean, Bool.false_and]
      | inr hfinal => rw [hfinal, Bool.not_true, Bool.and_false]
    rw [hskip]
    exact ⟨fun j hj => hlt j (List.mem_cons_of_mem i hj), rfl⟩
  · rw [List.getElem?_eq_none_iff] at hnone
    exact absurd (hlt i List.mem_cons_self) (Nat.not_lt.mpr hnone)

/-- A round of `finish` writes the record that it is at, or finds it final. -/
theorem finishRecord_quiet (complete : Bool) {i : Nat} {rest : List Nat} {length : Nat}
    (hlength : x.1.records.length = length)
    (h : ∀ (n : Nat) w, x.1.records[n]? = some w → n ∉ i :: rest →
      w.dirty = false ∨ w.stored.state.isFinal = true) :
    Prog.wp (finishRecord m complete i)
      (fun _ t => t.1.records.length = length ∧ ∀ (n : Nat) w, t.1.records[n]? = some w →
        n ∉ rest → w.dirty = false ∨ w.stored.state.isFinal = true) (fun _ _ => True) x := by
  have hother {n : Nat} {w : Working} (hw : x.1.records[n]? = some w) (hn : n ∉ rest)
      (hne : n ≠ i) : w.dirty = false ∨ w.stored.state.isFinal = true :=
    h n w hw fun hmem => hn ((List.mem_cons.mp hmem).resolve_left hne)
  unfold finishRecord
  rw [Prog.wp_bind]
  refine wp_working (fun w hw => ?_) fun _ => trivial
  split
  · next hfinal =>
    refine ⟨hlength, fun n v hv hn => ?_⟩
    by_cases hne : n = i
    · rw [hne, hw] at hv
      rw [← Option.some.inj hv]
      exact .inr hfinal
    · exact hother hv hn hne
  · unfold storeCheckpoint
    rw [Prog.wp_bind]
    refine wp_storeCall (fun stored t => ?_) fun _ _ => trivial
    rw [wp_modifyRecorder]
    refine ⟨(List.length_modify _ _ _).trans hlength, fun n v hv hn => ?_⟩
    have hmodified : (x.1.records.modify i _)[n]? = some v := hv
    rw [List.getElem?_modify] at hmodified
    by_cases hne : i = n
    · subst hne
      rw [hw] at hmodified
      simp only [if_pos, Option.map_eq_map, Option.map_some, Option.some.injEq] at hmodified
      exact .inl (by rw [← hmodified])
    · simp only [if_neg hne, Option.map_eq_map, Option.map_id'] at hmodified
      exact hother hmodified hn (Ne.symm hne)

/-- What `finish` leaves, when it returns. -/
theorem finish_quiet (complete : Bool) :
    Prog.wp (finish m complete) (fun _ t => t.1.Quiet) (fun _ _ => True) x := by
  unfold finish
  simp only [Prog.wp_bind, wp_recorder, wp_modifyRecorder]
  refine (Prog.wp_forM (fun rest (t : Recorder D × σ) =>
    t.1.records.length = x.1.records.length ∧ ∀ (n : Nat) w, t.1.records[n]? = some w →
      n ∉ rest → w.dirty = false ∨ w.stored.state.isFinal = true)
    (fun i rest t ht => finishRecord_quiet complete ht.1 ht.2) ⟨rfl, fun n w hw hn => ?_⟩).mono
    (fun _ t ht => ⟨rfl, fun w hw => ?_⟩) fun _ _ _ => trivial
  · exact absurd (List.mem_range.mpr (List.getElem?_eq_some_iff.mp hw).1) hn
  · obtain ⟨n, hn⟩ := List.getElem?_of_mem hw
    exact ht.2 n w hn List.not_mem_nil

/-- The agent's end, once it is recorded. -/
theorem observe_finished_quiet {F : Type} (protocol : Protocol D F) (reason : StopReason) :
    Prog.wp (observe m protocol (.finished reason)) (fun _ t => t.1.Quiet) (fun _ _ => True) x := by
  unfold observe observeEvent runFinished
  rw [Prog.wp_bind, wp_recorder]
  split
  · trivial
  · refine Prog.wp_last fun _ y => ?_
    refine Prog.wp_last fun r y => ?_
    extract_lets rest
    have hrest (u : Unit) (z : Recorder D × σ) :
        Prog.wp (rest u) (fun _ t => t.1.Quiet) (fun _ _ => True) z :=
      Prog.wp_last fun _ _ => finish_quiet _
    split
    · exact Prog.wp_last fun _ _ => Prog.wp_last fun u t => hrest u t
    · exact hrest () y

end

end Acp

end AgentBridge
