import AgentBridge.Acp.Permissions
import AgentBridge.Acp.Retirement

/-!
# The sessions of a connection

A native session that is reserved has one live handle at most, so that no more than one of its routes
takes anything; a run that is lost retires its session for good.
-/

namespace AgentBridge

open Reasoning

namespace Acp

variable {U T : Type}

namespace Connection

/-- The invariant of a connection: a native session that is reserved has one live handle at most, and
none while it is being set up. -/
structure Sound (c : Connection U T) : Prop where
  sessions : ∀ s ∈ c.sessions, s.Sound
  held : ∀ s ∈ c.sessions, s.live = true → s.native ∈ c.reserved ∧ s.native ∉ c.settingUp
  owner : ∀ (i k : Nat) (s s' : NativeSession U T), c.sessions[i]? = some s →
    c.sessions[k]? = some s' → s.live = true → s'.live = true → s.native = s'.native → i = k
  setup : ∀ native ∈ c.settingUp, native ∈ c.reserved

/-- The sessions of a connection later. -/
def Follows (c c' : Connection U T) : Prop :=
  ∀ (i : Nat) (s : NativeSession U T), c.sessions[i]? = some s →
    ∃ s', c'.sessions[i]? = some s' ∧ s.Follows s'

variable {c c' : Connection U T} {i : Nat} {s s' : NativeSession U T}

theorem Follows.refl (c : Connection U T) : Follows c c := fun _ s hs => ⟨s, hs, .refl s⟩

theorem Follows.trans {a b c : Connection U T} (h : Follows a b) (h' : Follows b c) : Follows a c := by
  intro i s hs
  obtain ⟨s', hs', hfollows⟩ := h i s hs
  obtain ⟨s'', hs'', hlater⟩ := h' i s' hs'
  exact ⟨s'', hs'', hfollows.trans hlater⟩

theorem start_sound : (start : Connection U T).Sound where
  sessions _ hs := by cases hs
  held _ hs := by cases hs
  owner _ _ _ _ hs := by cases hs
  setup _ hn := by cases hn

/-- One session changes, but neither becomes another one nor gets its handle back. -/
theorem Sound.setSession (h : c.Sound) (hi : c.sessions[i]? = some s) (hsound : s'.Sound)
    (hnative : s'.native = s.native) (hlive : s'.live = true → s.live = true) :
    (c.setSession i s').Sound := by
  obtain ⟨hlt, -⟩ := List.getElem?_eq_some_iff.mp hi
  have hset : ∀ (k : Nat) (t : NativeSession U T), (c.sessions.set i s')[k]? = some t →
      (k = i ∧ t = s') ∨ c.sessions[k]? = some t := by
    intro k t ht
    rw [List.getElem?_set] at ht
    by_cases hk : i = k
    · rw [if_pos hk, if_pos hlt] at ht
      exact .inl ⟨hk.symm, (Option.some.inj ht).symm⟩
    · rw [if_neg hk] at ht
      exact .inr ht
  -- a session of the new list is, but for its runs, one of the old list
  have hold : ∀ (k : Nat) (t : NativeSession U T), (c.sessions.set i s')[k]? = some t →
      t.live = true → ∃ u : NativeSession U T, c.sessions[k]? = some u ∧ u.live = true ∧ u.native = t.native := by
    intro k t ht htlive
    rcases hset k t ht with ⟨rfl, rfl⟩ | ht
    · exact ⟨s, hi, hlive htlive, hnative.symm⟩
    · exact ⟨t, ht, htlive, rfl⟩
  exact {
    sessions := by
      intro t ht
      rcases List.mem_or_eq_of_mem_set ht with ht | rfl
      · exact h.sessions t ht
      · exact hsound
    held := by
      intro t ht htlive
      obtain ⟨k, hk⟩ := List.getElem?_of_mem ht
      obtain ⟨u, hu, hulive, hunative⟩ := hold k t hk htlive
      rw [← hunative]
      exact h.held u (List.mem_of_getElem? hu) hulive
    owner := by
      intro k l t t' ht ht' htlive htlive' hsame
      obtain ⟨u, hu, hulive, hunative⟩ := hold k t ht htlive
      obtain ⟨u', hu', hulive', hunative'⟩ := hold l t' ht' htlive'
      exact h.owner k l u u' hu hu' hulive hulive' (by rw [hunative, hunative', hsame])
    setup := h.setup }

theorem setSession_follows (hi : c.sessions[i]? = some s) (hfollows : s.Follows s') :
    Follows c (c.setSession i s') := by
  intro k t ht
  obtain ⟨hlt, -⟩ := List.getElem?_eq_some_iff.mp hi
  show ∃ t', (c.sessions.set i s')[k]? = some t' ∧ _
  rw [List.getElem?_set]
  by_cases hk : i = k
  · rw [if_pos hk, if_pos hlt]
    rw [← hk, hi] at ht
    rw [← Option.some.inj ht]
    exact ⟨s', rfl, hfollows⟩
  · rw [if_neg hk]
    exact ⟨t, ht, .refl t⟩

/-- A handle of a native session that no other live handle has. -/
theorem Sound.addSession {native : String} (h : c.Sound) (fresh : Bool)
    (hreserved : native ∈ c.reserved) (hready : native ∉ c.settingUp)
    (hnone : ∀ s ∈ c.sessions, s.live = true → s.native ≠ native) :
    (c.addSession (.new native fresh)).Sound where
  sessions s hs := by
    rcases List.mem_append.mp hs with hs | hs
    · exact h.sessions s hs
    · rw [List.mem_singleton.mp hs]
      exact NativeSession.new_sound native fresh
  held s hs hlive := by
    rcases List.mem_append.mp hs with hs | hs
    · exact h.held s hs hlive
    · rw [List.mem_singleton.mp hs]
      exact ⟨hreserved, hready⟩
  owner i k s s' hs hs' hlive hlive' hsame := by
    have hcases : ∀ l t, (c.sessions ++ [.new native fresh])[l]? = some t →
        c.sessions[l]? = some t ∨ (l = c.sessions.length ∧ t = .new native fresh) := by
      intro l t ht
      by_cases hl : l < c.sessions.length
      · rw [List.getElem?_append_left hl] at ht
        exact .inl ht
      · rw [List.getElem?_append_right (by omega)] at ht
        obtain ⟨hlt, hget⟩ := List.getElem?_eq_some_iff.mp ht
        rw [List.length_singleton] at hlt
        refine .inr ⟨by omega, ?_⟩
        rw [← hget, List.getElem_singleton]
    rcases hcases i s hs with hs | ⟨hi, rfl⟩
    · rcases hcases k s' hs' with hs' | ⟨hk, rfl⟩
      · exact h.owner i k s s' hs hs' hlive hlive' hsame
      · exact absurd hsame (hnone s (List.mem_of_getElem? hs) hlive)
    · rcases hcases k s' hs' with hs' | ⟨hk, rfl⟩
      · exact absurd hsame.symm (hnone s' (List.mem_of_getElem? hs') hlive')
      · rw [hi, hk]
  setup := h.setup

theorem addSession_follows (c : Connection U T) (s : NativeSession U T) : Follows c (c.addSession s) := by
  intro i t ht
  obtain ⟨hlt, -⟩ := List.getElem?_eq_some_iff.mp ht
  exact ⟨t, (List.getElem?_append_left hlt).trans ht, .refl t⟩

/-- A native session is reserved for its setup; none of the live handles is of it. -/
theorem Sound.reserve {native : String} (h : c.Sound) (hnew : native ∉ c.reserved)
    (setup : List String) (hsetup : ∀ n ∈ setup, n = native ∨ n ∈ c.settingUp) :
    Sound { c with reserved := native :: c.reserved, settingUp := setup } where
  sessions := h.sessions
  held s hs hlive := by
    obtain ⟨hreserved, hready⟩ := h.held s hs hlive
    refine ⟨List.mem_cons_of_mem _ hreserved, fun hmem => ?_⟩
    rcases hsetup _ hmem with heq | hmem
    · exact hnew (heq ▸ hreserved)
    · exact hready hmem
  owner := h.owner
  setup n hn := by
    rcases hsetup n hn with rfl | hn
    · exact List.mem_cons_self ..
    · exact List.mem_cons_of_mem _ (h.setup n hn)

/-- A session is released once no live handle is of it. -/
theorem Sound.release {native : String} (h : c.Sound)
    (hnone : ∀ s ∈ c.sessions, s.live = true → s.native ≠ native) :
    Sound { c with
      reserved := c.reserved.filter (· ≠ native)
      settingUp := c.settingUp.filter (· ≠ native) } where
  sessions := h.sessions
  held s hs hlive := by
    obtain ⟨hreserved, hready⟩ := h.held s hs hlive
    refine ⟨List.mem_filter.mpr ⟨hreserved, by simpa using hnone s hs hlive⟩, fun hmem => ?_⟩
    exact hready (List.mem_of_mem_filter hmem)
  owner := h.owner
  setup n hn := by
    obtain ⟨hn, hne⟩ := List.mem_filter.mp hn
    exact List.mem_filter.mpr ⟨h.setup n hn, hne⟩

/-- A setup that ended. -/
theorem Sound.ready {native : String} (h : c.Sound) :
    Sound { c with settingUp := c.settingUp.filter (· ≠ native) } where
  sessions := h.sessions
  held s hs hlive := by
    obtain ⟨hreserved, hready⟩ := h.held s hs hlive
    exact ⟨hreserved, fun hmem => hready (List.mem_of_mem_filter hmem)⟩
  owner := h.owner
  setup n hn := h.setup n (List.mem_of_mem_filter hn)

theorem filter_settingUp {native : String} (h : c.Sound) (hs : s ∈ c.sessions)
    (hlive : s.live = true) (hnative : s.native = native) :
    c.settingUp.filter (· ≠ native) = c.settingUp := by
  rw [List.filter_eq_self]
  intro n hn
  have hne : n ≠ native := by
    rintro rfl
    exact (h.held s hs hlive).2 (hnative ▸ hn)
  simpa using hne

/-- The handle is used up, with no run left on it. -/
theorem Sound.consume (h : c.Sound) (hi : c.sessions[i]? = some s) (hfree : s.Free) :
    (c.setSession i { s with live := false }).Sound := by
  have hs := h.sessions s (List.mem_of_getElem? hi)
  refine h.setSession hi ⟨hs.runs, hs.past, hs.quiescent, fun _ => hfree.2⟩ rfl fun hlive => ?_
  cases hlive

theorem step_sound {e : Event U T} (h : c.Sound) (hstep : step c e = some c') :
    c'.Sound ∧ Follows c c' := by
  cases e with
  | close =>
    cases hstep
    exact ⟨⟨h.sessions, h.held, h.owner, h.setup⟩, fun _ s hs => ⟨s, hs, .refl s⟩⟩
  | newSession native =>
    rw [step] at hstep
    by_cases hold : native ∈ c.reserved
    · rw [if_pos hold] at hstep
      cases hstep
      exact ⟨h, .refl c⟩
    · rw [if_neg hold] at hstep
      cases hstep
      have hreserve := h.reserve hold c.settingUp fun n hn => .inr hn
      refine ⟨hreserve.addSession true (List.mem_cons_self ..)
        (fun hmem => hold (h.setup native hmem)) fun s hs hlive heq => ?_,
        addSession_follows _ _⟩
      exact hold (heq ▸ (h.held s hs hlive).1)
  | reserve native =>
    rw [step] at hstep
    by_cases hold : native ∈ c.reserved
    · rw [if_pos hold] at hstep
      cases hstep
      exact ⟨h, .refl c⟩
    · rw [if_neg hold] at hstep
      cases hstep
      exact ⟨h.reserve hold _ fun n hn => List.mem_cons.mp hn, fun _ s hs => ⟨s, hs, .refl s⟩⟩
  | claimFailed native =>
    rw [step] at hstep
    by_cases hsetup : native ∈ c.settingUp
    · rw [if_pos hsetup] at hstep
      cases hstep
      refine ⟨h.release fun s hs hlive heq => ?_, fun _ s hs => ⟨s, hs, .refl s⟩⟩
      exact (h.held s hs hlive).2 (heq ▸ hsetup)
    · rw [if_neg hsetup] at hstep
      cases hstep
  | resumed native done =>
    rw [step] at hstep
    by_cases hsetup : native ∈ c.settingUp
    · rw [if_pos hsetup] at hstep
      have hready : Sound { c with settingUp := c.settingUp.filter (· ≠ native) } := h.ready
      cases done with
      | false =>
        cases hstep
        exact ⟨hready, fun _ s hs => ⟨s, hs, .refl s⟩⟩
      | true =>
        cases hstep
        refine ⟨hready.addSession false (h.setup native hsetup) (fun hmem => ?_)
          fun s hs hlive heq => ?_, addSession_follows _ _⟩
        · simpa using (List.mem_filter.mp hmem).2
        · exact (h.held s hs hlive).2 (heq ▸ hsetup)
    · rw [if_neg hsetup] at hstep
      cases hstep
  | dispatch i x =>
    rw [step] at hstep
    cases hi : c.sessions[i]? with
    | none =>
      rw [hi] at hstep
      cases hstep
    | some s =>
      rw [hi] at hstep
      dsimp only at hstep
      by_cases hfree : s.Free
      · rw [if_pos hfree] at hstep
        cases hstep
        have hs := h.sessions s (List.mem_of_getElem? hi)
        have hsame := NativeSession.dispatch_follows x s
        exact ⟨h.setSession hi (NativeSession.dispatch_sound x hs hfree) hsame.1 fun _ => hfree.1,
          setSession_follows hi hsame⟩
      · rw [if_neg hfree] at hstep
        cases hstep
  | turn i j e =>
    rw [step] at hstep
    cases hi : c.sessions[i]? with
    | none =>
      rw [hi] at hstep
      cases hstep
    | some s =>
      rw [hi] at hstep
      obtain ⟨s', hs', rfl⟩ := Option.map_eq_some_iff.mp hstep
      have hs := h.sessions s (List.mem_of_getElem? hi)
      have hsame := NativeSession.turn_follows hs hs'
      refine ⟨h.setSession hi (NativeSession.turn_sound hs hs') hsame.1 fun hlive => ?_,
        setSession_follows hi hsame⟩
      obtain ⟨_, _, -, -, -, -, rfl⟩ := NativeSession.turn_eq hs hs'
      exact hlive
  | handoff i saved =>
    rw [step] at hstep
    cases hi : c.sessions[i]? with
    | none =>
      rw [hi] at hstep
      cases hstep
    | some s =>
      rw [hi] at hstep
      dsimp only at hstep
      by_cases hfree : s.Free
      · rw [if_pos hfree] at hstep
        have hmem := List.mem_of_getElem? hi
        have hused := h.consume hi hfree
        have hfollows : Follows c (c.setSession i { s with live := false }) :=
          setSession_follows hi (.refl s)
        by_cases hkept : ((s.flags.retired || !s.flags.quiescent) || !saved) = true
        · rw [if_pos hkept] at hstep
          cases hstep
          exact ⟨hused, hfollows⟩
        · rw [if_neg hkept] at hstep
          cases hstep
          have hnone : ∀ t ∈ (c.setSession i { s with live := false }).sessions, t.live = true →
              t.native ≠ s.native := by
            intro t ht htlive heq
            obtain ⟨k, hk⟩ := List.getElem?_of_mem ht
            replace hk : (c.sessions.set i { s with live := false })[k]? = some t := hk
            obtain ⟨hlt, -⟩ := List.getElem?_eq_some_iff.mp hi
            rw [List.getElem?_set] at hk
            by_cases hik : i = k
            · rw [if_pos hik, if_pos hlt] at hk
              rw [← Option.some.inj hk] at htlive
              cases htlive
            · rw [if_neg hik] at hk
              exact hik (h.owner i k s t hi hk hfree.1 htlive heq.symm)
          have hreleased := hused.release hnone
          have hfilter : c.settingUp.filter (· ≠ s.native) = c.settingUp :=
            filter_settingUp h hmem hfree.1 rfl
          rw [show (c.setSession i { s with live := false }).settingUp.filter (· ≠ s.native) =
            c.settingUp from hfilter] at hreleased
          exact ⟨hreleased, hfollows⟩
      · rw [if_neg hfree] at hstep
        cases hstep
  | discard i =>
    rw [step] at hstep
    cases hi : c.sessions[i]? with
    | none =>
      rw [hi] at hstep
      cases hstep
    | some s =>
      rw [hi] at hstep
      dsimp only at hstep
      by_cases hfree : s.Free
      · rw [if_pos hfree] at hstep
        cases hstep
        exact ⟨h.consume hi hfree, setSession_follows hi (.refl s)⟩
      · rw [if_neg hfree] at hstep
        cases hstep

theorem run_sound {es : List (Event U T)} (h : c.Sound) (hrun : Next.run step es c = some c') :
    c'.Sound :=
  Next.run_invariant (P := Sound) (fun _ _ _ h hstep => (step_sound h hstep).1) h hrun

theorem run_follows {es : List (Event U T)} (h : c.Sound) (hrun : Next.run step es c = some c') :
    Follows c c' :=
  Next.run_relation (P := Sound) Follows.refl Follows.trans
    (fun _ _ _ h hstep => (step_sound h hstep).1) (fun _ _ _ h hstep => (step_sound h hstep).2) h hrun

/-- What a connection holds of every run that its sessions dispatched. -/
structure KeepsLifecycle (c : Connection U T) : Prop where
  unwraps : ∀ s ∈ c.sessions, ∀ a ∈ s.runs, a.panicked = false
  settled : ∀ s ∈ c.sessions, ∀ a ∈ s.runs, a.settled = true ↔ a.run.Ended
  cancelling : ∀ s ∈ c.sessions, ∀ a ∈ s.runs, a.run.cancellationRequested = true →
    a.run.status ≠ .starting ∧ a.run.status ≠ .running
  /-- A dispatch is accepted only after runs that all took a successful response. -/
  dispatches : ∀ s ∈ c.sessions, ∀ x, (s.dispatchBlocks x).1 = .ok () → ∀ a ∈ s.runs,
    a.settled = true ∧ ∃ reason, .finished (.ok reason) ∈ a.route.queued.take a.route.taken
  /-- No two routes of a native session take anything. -/
  alone : ∀ (i k j l : Nat) (s s' : NativeSession U T) (a b : AcpRun U T),
    c.sessions[i]? = some s → c.sessions[k]? = some s' → s.native = s'.native →
    s.runs[j]? = some a → s'.runs[l]? = some b →
    a.route.accepting = true → b.route.accepting = true → i = k ∧ j = l

theorem Sound.keepsLifecycle (h : c.Sound) : c.KeepsLifecycle where
  unwraps s hs a ha := ((h.sessions s hs).runs a ha).calm
  settled s hs a ha := ((h.sessions s hs).runs a ha).settled_iff
  cancelling s hs a ha hflag := by
    have hsound := (h.sessions s hs).runs a ha
    cases hsettled : a.settled with
    | false =>
      rw [((hsound.lively hsettled).cancelling).mpr hflag]
      simp
    | true => rcases hsound.ended hsettled with hend | hend | hend | hend <;> rw [hend] <;> simp
  dispatches s hs x hok a ha := by
    have hsession := h.sessions s hs
    rcases NativeSession.dispatchBlocks_cases x s with ⟨-, hquiet, -⟩ | ⟨⟨e, herror⟩, -⟩
    · have hgood := hsession.quiescent.mp hquiet a ha
      exact ⟨(hsession.runs a ha).settled_of_succeeded hgood, (hsession.runs a ha).succeeded hgood⟩
    · rw [hok] at herror
      cases herror
  alone i k j l s s' a b hi hk hsame hj hl haccepts hbaccepts := by
    have hlive : ∀ t ∈ c.sessions, ∀ d ∈ t.runs, d.route.accepting = true → t.live = true := by
      intro t ht d hd hopen
      by_contra hused
      have hover := (h.sessions t ht).used (by simpa using hused) d hd
      rw [((h.sessions t ht).runs d hd).shut (.inr hover)] at hopen
      cases hopen
    have hs := List.mem_of_getElem? hi
    have hik : i = k := h.owner i k s s' hi hk
      (hlive s hs a (List.mem_of_getElem? hj) haccepts)
      (hlive s' (List.mem_of_getElem? hk) b (List.mem_of_getElem? hl) hbaccepts) hsame
    rw [← hik, hi] at hk
    rw [← Option.some.inj hk] at hl
    exact ⟨hik, (h.sessions s hs).one_accepts hj hl haccepts hbaccepts⟩

end Connection

/-- In every order of the events of a connection and of the runs on it: no lifecycle event is
rejected, a request to cancel stays, and the session of a run that is lost never dispatches again. -/
theorem runs_never_mix (es more : List (Connection.Event U T)) (c c' : Connection U T)
    (hrun : Next.run Connection.step es .start = some c)
    (hmore : Next.run Connection.step more c = some c') :
    c.KeepsLifecycle ∧
      ∀ (i j : Nat) (s : NativeSession U T) (a : AcpRun U T),
        c.sessions[i]? = some s → s.runs[j]? = some a →
        ∃ (s' : NativeSession U T) (a' : AcpRun U T),
          c'.sessions[i]? = some s' ∧ s'.runs[j]? = some a' ∧
          (a.run.cancellationRequested = true → a'.run.cancellationRequested = true) ∧
          (a.Lost → ∀ x, ∃ e, (s'.dispatchBlocks x).1 = .error e) := by
  have hsound := Connection.run_sound Connection.start_sound hrun
  have hlater := Connection.run_sound hsound hmore
  refine ⟨hsound.keepsLifecycle, fun i j s a hi hj => ?_⟩
  obtain ⟨s', hi', -, hruns⟩ := Connection.run_follows hsound hmore i s hi
  obtain ⟨a', hj', hflag, hlost⟩ := hruns j a hj
  refine ⟨s', a', hi', hj', hflag, fun hgone x => ?_⟩
  exact (hlater.sessions s' (List.mem_of_getElem? hi')).refuses (List.mem_of_getElem? hj')
    (hlost hgone) x

/-! A run that loses its connection while `next` waits, and is dropped. -/

namespace Sample

def task : Dispatch where
  spec
  text := "hello"
  isClosed := false
  forRun := .ok .default

def drain : Drain := inOrder

def losing : List (Connection.Event Nat Unit) :=
  [.newSession "native-1", .dispatch 0 task, .turn 0 0 (.sent drain (.ok ())),
    .turn 0 0 (.next drain), .close, .turn 0 0 (.receiveClosed drain)]

def dropping : List (Connection.Event Nat Unit) :=
  [.turn 0 0 (.drop drain (.ok ())), .turn 0 0 (.release drain)]

def lost : Connection Nat Unit := (Next.run Connection.step losing .start).getD .start

def dropped : Connection Nat Unit := (Next.run Connection.step dropping lost).getD lost

theorem lost_sessions : 0 < lost.sessions.length := by decide +kernel

theorem lost_runs : 0 < (lost.sessions.get ⟨0, lost_sessions⟩).runs.length := by decide +kernel

end Sample

theorem sample_lost_run_retires : ∃ s' : NativeSession Nat Unit,
    Sample.dropped.sessions[0]? = some s' ∧ ∀ x, ∃ e, (s'.dispatchBlocks x).1 = .error e := by
  obtain ⟨-, hlater⟩ := runs_never_mix Sample.losing Sample.dropping Sample.lost Sample.dropped
    (Next.run_getD (by decide +kernel) _) (Next.run_getD (by decide +kernel) _)
  obtain ⟨s', -, hs, -, -, hrefuses⟩ := hlater 0 0 _ _
    (List.getElem?_eq_getElem Sample.lost_sessions) (List.getElem?_eq_getElem Sample.lost_runs)
  exact ⟨s', hs, hrefuses (.inr (.inl (by decide +kernel)))⟩

end Acp

end AgentBridge
