import AgentBridge.Client.Tools

/-!
# Tool results that the host takes

The client's limits and the host's are checked apart.  What passes the first may fail the second: the
host counts the outcome around a value as one more level, reads no lone surrogate, and counts the
bytes of the numbers as it prints them itself.
-/

namespace AgentBridge

open Reasoning

namespace Client

variable {ν μ : Type} {doubles : Doubles ν} {numbers : Host.Numbers μ} {readNumber : ν → μ}

/-- The messages of `check`. -/
def checkMessages : List String :=
  ["JSON exceeds depth limit", Refusal.notData.message, Refusal.notPlain.message,
    Refusal.holes.message, Refusal.symbols.message]

mutual

theorem error_of_check (value : JsValue ν) {d : Nat} {message : String}
    (h : check doubles value d = .error message) : message ∈ checkMessages := by
  unfold check at h
  split at h
  · obtain rfl := Except.error.inj h
    simp [checkMessages]
  · cases value with
    | num n =>
      simp only at h
      split at h
      · cases h
      · obtain rfl := Except.error.inj h
        simp [checkMessages]
    | arr items => exact error_of_checkItems items h
    | obj members => exact error_of_checkMembers members h
    | other refusal =>
      obtain rfl := Except.error.inj h
      cases refusal <;> simp [checkMessages]
    | _ => cases h

theorem error_of_checkItems (items : List (JsValue ν)) {d : Nat} {message : String}
    (h : checkItems doubles items d = .error message) : message ∈ checkMessages := by
  cases items with
  | nil => cases h
  | cons item items =>
    unfold checkItems at h
    cases hitem : check doubles item d with
    | error e =>
      rw [hitem] at h
      obtain rfl := Except.error.inj h
      exact error_of_check item hitem
    | ok _ =>
      rw [hitem] at h
      exact error_of_checkItems items h

theorem error_of_checkMembers (members : List (List UInt16 × JsValue ν)) {d : Nat}
    {message : String} (h : checkMembers doubles members d = .error message) :
    message ∈ checkMessages := by
  cases members with
  | nil => cases h
  | cons member members =>
    unfold checkMembers at h
    cases hitem : check doubles member.2 d with
    | error e =>
      rw [hitem] at h
      obtain rfl := Except.error.inj h
      exact error_of_check member.2 hitem
    | ok _ =>
      rw [hitem] at h
      exact error_of_checkMembers members h

end

/-- The client's own errors reach the host as they are. -/
theorem errorText_isWellFormed {message : String}
    (h : message ∈ "tool result exceeds byte limit" :: checkMessages) :
    (Utf16.decode ((errorText message).take 2000)).isSome = true := by
  have hall : ∀ m ∈ "tool result exceeds byte limit" :: checkMessages,
      (Utf16.decode ((errorText m).take 2000)).isSome = true := by decide +kernel
  exact hall message h

/-! ## The outcome -/

theorem success_read (readNumber : ν → μ) (value : JsValue ν) :
    (success value).read readNumber = (value.read readNumber).map fun t =>
      .obj [("kind", .str "success"), ("value", t)] := by
  simp only [success, JsValue.read, JsValue.readMembers, Utf16.read_encode]
  cases value.read readNumber <;> rfl

theorem failure_read (readNumber : ν → μ) (message : List UInt16) :
    (failure message).read readNumber = (Utf16.read message).map fun s =>
      .obj [("kind", .str "error"), ("message", .str s)] := by
  simp only [failure, JsValue.read, JsValue.readMembers, Utf16.read_encode]
  cases Utf16.read message <;> rfl

theorem validOutcome_success (numbers : Host.Numbers μ) (t : JsonTree μ) :
    Host.Tools.validOutcome numbers (.obj [("kind", .str "success"), ("value", t)]) = true ↔
      t.textBytes numbers.bytes + 27 ≤ Host.crossingLimit ∧ Host.validJson numbers t 1 = true := by
  have hkind : JsonTree.stringBytes "kind" = 6 := by decide +kernel
  have hsuccess : JsonTree.stringBytes "success" = 9 := by decide +kernel
  have hvalue : JsonTree.stringBytes "value" = 7 := by decide +kernel
  have hlength : Host.textLength numbers (.obj [("kind", .str "success"), ("value", t)]) =
      t.textBytes numbers.bytes + 27 := by
    simp only [Host.textLength, JsonTree.textBytes, JsonTree.membersBytes, hkind, hsuccess, hvalue]
    omega
  have hjson : Host.validJson numbers (.obj [("kind", .str "success"), ("value", t)]) 0 =
      Host.validJson numbers t 1 := by
    simp [Host.validJson, Host.validFields]
  have hmembers : (JsonTree.index (.obj [("kind", .str "success"), ("value", t)]) "kind").asStr =
      some "success" := rfl
  have hget : (JsonTree.get (.obj [("kind", .str "success"), ("value", t)]) "value").isSome = true :=
    rfl
  unfold Host.Tools.validOutcome
  simp only [hlength, hjson, hmembers, hget, Bool.and_true, Bool.and_eq_true, decide_eq_true_eq]

theorem validOutcome_failure (numbers : Host.Numbers μ) {message : List UInt16} {s : String}
    (hlength : message.length ≤ 2000) (hread : Utf16.read message = some s) :
    Host.Tools.validOutcome numbers (.obj [("kind", .str "error"), ("message", .str s)]) = true := by
  have hkind : JsonTree.stringBytes "kind" = 6 := by decide +kernel
  have herror : JsonTree.stringBytes "error" = 7 := by decide +kernel
  have hmessage : JsonTree.stringBytes "message" = 9 := by decide +kernel
  have hbytes : JsonTree.stringBytes s ≤ 12002 := by
    have hunits := Utf16.unitsBytes_le message
    rw [← Utf16.stringBytes_eq hread]
    unfold Utf16.stringBytes
    omega
  have htext : Host.textLength numbers (.obj [("kind", .str "error"), ("message", .str s)]) ≤
      Host.crossingLimit := by
    simp only [Host.textLength, JsonTree.textBytes, JsonTree.membersBytes, hkind, herror, hmessage,
      Host.crossingLimit]
    omega
  have hjson : Host.validJson numbers (.obj [("kind", .str "error"), ("message", .str s)]) 0 =
      true := by
    simp [Host.validJson, Host.validFields]
  have hmembers : (JsonTree.index (.obj [("kind", .str "error"), ("message", (.str s : JsonTree μ))])
      "kind").asStr = some "error" := rfl
  have hget : (JsonTree.index (.obj [("kind", .str "error"), ("message", (.str s : JsonTree μ))])
      "message").asStr.isSome = true := rfl
  unfold Host.Tools.validOutcome
  simp only [hjson, hmembers, hget, Bool.and_true, decide_eq_true_eq]
  exact htext

/-- What an execution needs so that its outcome is one that the host takes. -/
def Execution.Crosses (doubles : Doubles ν) (numbers : Host.Numbers μ) (readNumber : ν → μ) :
    Execution ν → Prop
  | .throws none => True
  | .throws (some text) => (Utf16.decode (text.take 2000)).isSome = true
  | .returns value => check doubles value 0 = .ok () → value.textBytes doubles.bytes ≤ 60000 →
      value.depth ≤ 15 ∧ value.isWellFormed = true ∧
        value.textBytes (fun n => numbers.bytes (readNumber n)) + 27 ≤ Host.crossingLimit

/-- The host reads the outcome, and finds it valid. -/
def Accepts (numbers : Host.Numbers μ) (readNumber : ν → μ) (outcome : JsValue ν) : Prop :=
  ∃ t, outcome.read readNumber = some t ∧ Host.Tools.validOutcome numbers t = true

theorem accepts_failure_iff {text : List UInt16} :
    Accepts numbers readNumber (failure (text.take 2000)) ↔
      (Utf16.decode (text.take 2000)).isSome = true := by
  have hlength : (text.take 2000).length ≤ 2000 := List.length_take_le _ _
  unfold Accepts
  rw [failure_read]
  constructor
  · rintro ⟨t, hread, -⟩
    obtain ⟨s, hs, -⟩ := Option.map_eq_some_iff.mp hread
    obtain ⟨cs, hcs, -⟩ := Option.map_eq_some_iff.mp hs
    rw [hcs]
    rfl
  · intro h
    obtain ⟨cs, hcs⟩ := Option.isSome_iff_exists.mp h
    have hread : Utf16.read (text.take 2000) = some (String.ofList cs) := by
      rw [Utf16.read, hcs]
      rfl
    exact ⟨_, by rw [hread]; rfl, validOutcome_failure numbers hlength hread⟩

theorem accepts_success_iff (hnumbers : doubles.SafeIn numbers readNumber) {value : JsValue ν}
    (hcheck : check doubles value 0 = .ok ()) : Accepts numbers readNumber (success value) ↔
      value.depth ≤ 15 ∧ value.isWellFormed = true ∧
        value.textBytes (fun n => numbers.bytes (readNumber n)) + 27 ≤ Host.crossingLimit := by
  have hwell := read_isSome readNumber value hcheck
  have hvalid : ∀ t, value.read readNumber = some t →
      (Host.Tools.validOutcome numbers (.obj [("kind", .str "success"), ("value", t)]) = true ↔
        value.textBytes (fun n => numbers.bytes (readNumber n)) + 27 ≤ Host.crossingLimit ∧
          value.depth ≤ 15) := by
    intro t ht
    have hjson : Host.validJson numbers t 1 = true ↔ t.depth + 1 ≤ 16 :=
      validJson_of_check hnumbers value hcheck ht
    rw [validOutcome_success, hjson, textBytes_of_read numbers.bytes value ht, depth_of_read value ht]
    omega
  unfold Accepts
  rw [success_read]
  constructor
  · rintro ⟨t, hread, h⟩
    obtain ⟨t', ht', rfl⟩ := Option.map_eq_some_iff.mp hread
    obtain ⟨hbytes, hdepth⟩ := (hvalid t' ht').mp h
    refine ⟨hdepth, ?_, hbytes⟩
    rw [← hwell, ht']
    rfl
  · rintro ⟨hdepth, hformed, hbytes⟩
    rw [← hwell] at hformed
    obtain ⟨t, ht⟩ := Option.isSome_iff_exists.mp hformed
    exact ⟨_, by rw [ht]; rfl, (hvalid t ht).mpr ⟨hbytes, hdepth⟩⟩

/-- The outcome of an execution is one that the host takes exactly when the execution crosses. -/
theorem accepts_outcome_iff (hnumbers : doubles.SafeIn numbers readNumber)
    {execution : Execution ν} {o : JsValue ν} (ho : outcome doubles execution = some o) :
    Accepts numbers readNumber o ↔ execution.Crosses doubles numbers readNumber := by
  cases execution with
  | throws text =>
    cases text with
    | none => cases ho
    | some text =>
      obtain rfl := Option.some.inj ho
      exact accepts_failure_iff
  | returns value =>
    cases hcheck : check doubles value 0 with
    | error message =>
      simp only [outcome, invoke, hcheck] at ho
      obtain rfl := Option.some.inj ho
      have hformed := errorText_isWellFormed (List.mem_cons_of_mem _ (error_of_check value hcheck))
      simp only [Execution.Crosses, hcheck]
      constructor
      · intro _ h
        cases h
      · exact fun _ => accepts_failure_iff.mpr hformed
    | ok _ =>
      by_cases hbytes : value.textBytes doubles.bytes > 60000
      · simp only [outcome, invoke, hcheck, if_pos hbytes] at ho
        obtain rfl := Option.some.inj ho
        have hformed := errorText_isWellFormed (List.mem_cons_self (l := checkMessages))
        simp only [Execution.Crosses]
        constructor
        · intro _ _ hsmall
          omega
        · exact fun _ => accepts_failure_iff.mpr hformed
      · simp only [outcome, invoke, hcheck, if_neg hbytes] at ho
        obtain rfl := Option.some.inj ho
        have hsmall : value.textBytes doubles.bytes ≤ 60000 := by omega
        rw [accepts_success_iff hnumbers hcheck]
        simp only [Execution.Crosses, hcheck]
        constructor
        · exact fun h _ _ => h
        · exact fun h => h trivial hsmall

/-! ## The request -/

/-- The parameters as the host holds them. -/
def ToolResultFrame.hostParams (frame : ToolResultFrame ν) (t : JsonTree μ) : JsonTree μ :=
  .obj [("call_id", .str frame.call), ("binding_id", .str frame.binding),
    ("session_id", .str frame.session), ("slot_id", .str frame.slot), ("outcome", t)]

theorem params_read (readNumber : ν → μ) (frame : ToolResultFrame ν) :
    frame.params.read readNumber = (frame.outcome.read readNumber).map frame.hostParams := by
  simp only [ToolResultFrame.params, JsValue.read, JsValue.readMembers, Utf16.read_encode]
  cases frame.outcome.read readNumber <;> rfl

/-- The call of the frame is pending, with a binding, a session and a slot of these names. -/
structure IsPending (h : Host.Tools.Hub μ) (frame : ToolResultFrame ν) (entry : Host.Tools.Pending) :
    Prop where
  named : frame.call ≠ ""
  pending : h.pending frame.call = some entry
  opened : (h.calls entry.call).response = .opened
  binding : frame.binding = entry.binding
  session : frame.session = entry.session
  slot : frame.slot = entry.slot

theorem reply_hostParams {h : Host.Tools.Hub μ} {frame : ToolResultFrame ν}
    {entry : Host.Tools.Pending} (hpending : IsPending h frame entry) (t : JsonTree μ) :
    Host.Tools.reply numbers h (frame.hostParams t) =
      if Host.Tools.validOutcome numbers t = true then (.ok (), h.accept frame.call entry.call t)
      else (.error "invalid tool result", h) := by
  obtain ⟨hnamed, hentry, hopened, hbinding, hsession, hslot⟩ := hpending
  have hempty : frame.call.isEmpty = false := by
    rw [Bool.eq_false_iff]
    exact fun h' => hnamed (String.isEmpty_iff.mp h')
  have hid : Host.stringParam (frame.hostParams t) "call_id" = .ok frame.call := by
    simp [Host.stringParam, ToolResultFrame.hostParams, JsonTree.index, JsonTree.get,
      JsonTree.asStr, hempty]
  have hbindingId : ((frame.hostParams t).index "binding_id").asStr = some entry.binding := by
    rw [← hbinding]
    rfl
  have hsessionId : ((frame.hostParams t).index "session_id").asStr = some entry.session := by
    rw [← hsession]
    rfl
  have hslotId : ((frame.hostParams t).index "slot_id").asStr = some entry.slot := by
    rw [← hslot]
    rfl
  have houtcome : (frame.hostParams t).index "outcome" = t := rfl
  unfold Host.Tools.reply
  simp only [hid, hentry, hbindingId, hsessionId, hslotId, ne_eq, not_true_eq_false, or_self,
    if_false, houtcome]
  cases hvalid : Host.Tools.validOutcome numbers t with
  | false => rfl
  | true =>
    have hresponse : ((h.removePending frame.call).calls entry.call).response = .opened := hopened
    simp only [hresponse]
    rfl

theorem receive_iff {h : Host.Tools.Hub μ} {frame : ToolResultFrame ν} {entry : Host.Tools.Pending}
    (hpending : IsPending h frame entry) :
    (∃ h', receive doubles numbers readNumber h frame = .ok h') ↔
      frame.lineBytes doubles ≤ Host.maxLine ∧ Accepts numbers readNumber frame.outcome := by
  unfold receive Accepts
  by_cases hline : frame.lineBytes doubles > Host.maxLine
  · simp only [if_pos hline]
    constructor
    · rintro ⟨h', hreceived⟩
      cases hreceived
    · omega
  · rw [if_neg hline, params_read]
    have hfits : frame.lineBytes doubles ≤ Host.maxLine := by omega
    cases hread : frame.outcome.read readNumber with
    | none => simp
    | some t =>
      simp only [Option.map_some, reply_hostParams hpending t]
      by_cases hvalid : Host.Tools.validOutcome numbers t = true
      · simp [hvalid, hfits]
      · simp [hvalid]

/-- A result for a call that is still pending is accepted exactly when its line fits and the execution
crosses. -/
theorem tool_result_is_accepted_iff (hnumbers : doubles.SafeIn numbers readNumber)
    {h : Host.Tools.Hub μ} {frame : ToolResultFrame ν} {entry : Host.Tools.Pending}
    (hpending : IsPending h frame entry) {execution : Execution ν}
    (hsent : outcome doubles execution = some frame.outcome) :
    (∃ h', receive doubles numbers readNumber h frame = .ok h') ↔
      frame.lineBytes doubles ≤ Host.maxLine ∧ execution.Crosses doubles numbers readNumber := by
  rw [receive_iff hpending, accepts_outcome_iff hnumbers hsent]

/-- The receiver waits. -/
def isOpened : Host.Tools.Slot μ → Bool
  | .opened => true
  | _ => false

namespace Sample

def engine : Doubles Int := ⟨fun _ => 1, fun _ => true, fun _ => true, fun _ => true⟩

/-- Arrays around an empty one. -/
def nested : Nat → JsValue Int
  | 0 => .arr []
  | n + 1 => .arr [nested n]

def frame (o : JsValue Int) : ToolResultFrame Int :=
  ⟨7, "invocation", "binding", "session", "assistant", o⟩

def entry : Host.Tools.Pending := ⟨0, "binding", "session", "assistant"⟩

theorem check_nested (n : Nat) {d : Nat} (h : n + d ≤ 16) : check engine (nested n) d = .ok () := by
  induction n generalizing d with
  | zero =>
    have hd : ¬d > 16 := by omega
    simp [check, nested, checkItems, hd]
  | succ n ih =>
    have hd : ¬d > 16 := by omega
    have hitem := ih (d := d + 1) (by omega)
    simp [check, nested, checkItems, hd, hitem]

theorem textBytes_nested (n : Nat) (numberBytes : Int → Nat) :
    (nested n).textBytes numberBytes = 2 * n + 2 := by
  induction n with
  | zero => rfl
  | succ n ih =>
    simp only [nested, JsValue.textBytes, JsValue.itemsBytes, ih]
    omega

theorem depth_nested (n : Nat) : (nested n).depth = n := by
  induction n with
  | zero => rfl
  | succ n ih =>
    simp only [nested, JsValue.depth, JsValue.depthItems, ih]
    omega

theorem outcome_nested (n : Nat) (h : n ≤ 16) :
    outcome engine (.returns (nested n)) = some (success (nested n)) := by
  have hbytes : ¬(nested n).textBytes engine.bytes > 60000 := by
    rw [textBytes_nested]
    omega
  simp only [outcome, invoke, check_nested n (d := 0) (by omega), if_neg hbytes]

end Sample

theorem sample_isPending (o : JsValue Int) :
    IsPending Host.Tools.Sample.sentHub (Sample.frame o) Sample.entry := by
  have hfind : (Host.Tools.Sample.sentHub.pending "invocation").map
      (fun e => (e.call, e.binding, e.session, e.slot)) =
        some (0, "binding", "session", "assistant") := by decide +kernel
  have hopened : isOpened (Host.Tools.Sample.sentHub.calls 0).response = true := by decide +kernel
  have hpending : Host.Tools.Sample.sentHub.pending "invocation" = some Sample.entry := by
    generalize Host.Tools.Sample.sentHub = h at hfind
    obtain ⟨e, he, hfields⟩ := Option.map_eq_some_iff.mp hfind
    rw [he]
    cases e
    cases hfields
    rfl
  have hresponse : (Host.Tools.Sample.sentHub.calls 0).response = .opened := by
    generalize Host.Tools.Sample.sentHub = h at hopened
    cases hr : (h.calls 0).response with
    | opened => rfl
    | _ =>
      rw [hr] at hopened
      cases hopened
  generalize Host.Tools.Sample.sentHub = h at hpending hresponse
  exact ⟨by simp [Sample.frame], hpending, hresponse, rfl, rfl, rfl⟩

theorem nested_result_is_accepted :
    ∃ h', receive Sample.engine Host.Tools.Sample.digits (fun n : Int => n)
      Host.Tools.Sample.sentHub (Sample.frame (success (Sample.nested 15))) = .ok h' := by
  apply (tool_result_is_accepted_iff (fun _ _ => rfl) (sample_isPending _)
    (Sample.outcome_nested 15 (by decide))).mpr
  refine ⟨by decide +kernel, ?_⟩
  intro _ _
  rw [Sample.depth_nested, Sample.textBytes_nested]
  exact ⟨Nat.le_refl 15, by decide +kernel, by decide⟩

/-- A value of the greatest depth that the client lets pass is refused. -/
theorem deep_result_is_refused :
    outcome Sample.engine (.returns (Sample.nested 16)) = some (success (Sample.nested 16)) ∧
    IsPending Host.Tools.Sample.sentHub (Sample.frame (success (Sample.nested 16))) Sample.entry ∧
    ¬∃ h', receive Sample.engine Host.Tools.Sample.digits (fun n : Int => n)
      Host.Tools.Sample.sentHub (Sample.frame (success (Sample.nested 16))) = .ok h' := by
  have hpending := sample_isPending (success (Sample.nested 16))
  have hsent := Sample.outcome_nested 16 (Nat.le_refl 16)
  refine ⟨hsent, hpending, ?_⟩
  rw [receive_iff hpending]
  rintro ⟨-, haccepted⟩
  have hnumbers : Sample.engine.SafeIn Host.Tools.Sample.digits fun n : Int => n := fun _ _ => rfl
  have hcrosses := (accepts_outcome_iff hnumbers hsent).mp haccepted
  have hsmall : (Sample.nested 16).textBytes Sample.engine.bytes ≤ 60000 := by
    rw [Sample.textBytes_nested]
    omega
  have hdepth := (hcrosses (Sample.check_nested 16 (Nat.le_refl 16)) hsmall).1
  rw [Sample.depth_nested] at hdepth
  omega

end Client

end AgentBridge
