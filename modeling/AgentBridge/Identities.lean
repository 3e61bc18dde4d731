import AgentBridge.Acp.Recording
import AgentBridge.Questions.Pending
import AgentBridge.Reasoning.LengthPrefix

/-!
# The identities built from a caller's strings

Records of a run, answers to requests and scopes of providers are named after strings that a caller
chose.  Each name puts a string after its length, and so determines it.
-/

namespace AgentBridge

open Reasoning

/-- The text of `Recorder::draft` that names record `n` of a run. -/
def runRecord (run : String) (n : Nat) : String :=
  "run/" ++ lengthPrefixed run ++ "/record/" ++ toString n

/-- The text of `QuestionResponder::resolve` that names the answer to a request. -/
def questionAnswer (request : String) : String :=
  "question/" ++ lengthPrefixed request ++ "/answer"

/-- The scope that `inspect` gives a provider's launches. -/
def launchScope (id scope : String) : String :=
  "provider/" ++ lengthPrefixed id ++ "/profile/" ++ lengthPrefixed scope

theorem recordId_asStr (run : RunId) (n : Nat) :
    (Acp.recordId run n).asStr = runRecord run.asStr n := by
  simp only [Acp.recordId, runRecord, lengthPrefixed, String.append_assoc]

theorem answerId_asStr (request : RecordId) :
    (Questions.answerId request).asStr = questionAnswer request.asStr := by
  simp only [Questions.answerId, questionAnswer, lengthPrefixed, String.append_assoc]

theorem runRecord_inj {run run' : String} {n n' : Nat} :
    runRecord run n = runRecord run' n' ↔ run = run' ∧ n = n' := by
  unfold runRecord
  rw [String.append_assoc, String.append_assoc, String.append_assoc, String.append_assoc,
    String.append_right_inj, lengthPrefixed_append_inj, String.append_right_inj]
  exact and_congr_right fun _ => ⟨fun h => Nat.repr_injective h, congrArg toString⟩

theorem questionAnswer_inj {request request' : String} :
    questionAnswer request = questionAnswer request' ↔ request = request' := by
  unfold questionAnswer
  rw [String.append_assoc, String.append_assoc, String.append_right_inj, lengthPrefixed_append_inj]
  exact and_iff_left rfl

theorem launchScope_inj {id id' scope scope' : String} :
    launchScope id scope = launchScope id' scope' ↔ id = id' ∧ scope = scope' := by
  have htail : lengthPrefixed scope = lengthPrefixed scope' ↔ scope = scope' := by
    rw [← String.append_empty (s := lengthPrefixed scope),
      ← String.append_empty (s := lengthPrefixed scope'), lengthPrefixed_append_inj]
    exact and_iff_left rfl
  unfold launchScope
  rw [String.append_assoc, String.append_assoc, String.append_assoc, String.append_assoc,
    String.append_right_inj, lengthPrefixed_append_inj, String.append_right_inj, htail]

/-- The first characters differ. -/
theorem runRecord_ne_questionAnswer (run request : String) (n : Nat) :
    runRecord run n ≠ questionAnswer request := by
  intro h
  have hlists := congrArg String.toList h
  simp only [runRecord, questionAnswer, String.toList_append, List.append_assoc] at hlists
  have hrun : "run/".toList = 'r' :: ['u', 'n', '/'] := rfl
  have hquestion : "question/".toList = 'q' :: "uestion/".toList := rfl
  rw [hrun, hquestion, List.cons_append, List.cons_append] at hlists
  exact absurd (List.cons.inj hlists).1 (by decide)

/-- Whatever the strings contain, the names determine them, and a record of a run is never an answer
to a request. -/
theorem identities_injective :
    (∀ run run' : String, ∀ n n' : Nat, runRecord run n = runRecord run' n' → run = run' ∧ n = n') ∧
    (∀ request request' : String, questionAnswer request = questionAnswer request' →
      request = request') ∧
    (∀ id id' scope scope' : String, launchScope id scope = launchScope id' scope' →
      id = id' ∧ scope = scope') ∧
    (∀ (run : String) (n : Nat) (request : String), runRecord run n ≠ questionAnswer request) ∧
    (∀ (run : RunId) (n : Nat), (Acp.recordId run n).asStr = runRecord run.asStr n) ∧
    (∀ request : RecordId, (Questions.answerId request).asStr = questionAnswer request.asStr) :=
  ⟨fun _ _ _ _ h => runRecord_inj.mp h, fun _ _ h => questionAnswer_inj.mp h,
    fun _ _ _ _ h => launchScope_inj.mp h,
    fun run n request => runRecord_ne_questionAnswer run request n, recordId_asStr, answerId_asStr⟩

example : questionAnswer "a/é" = "question/4:a/é/answer" := by decide

end AgentBridge
