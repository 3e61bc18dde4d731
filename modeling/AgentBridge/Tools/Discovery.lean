import AgentBridge.Tools.Registry

/-!
# What is discovered can be invoked

A grant shows a tool exactly when it lets it be invoked.  The two look for it in different ways, and
agree because every entry is kept under its own name.  An entry is never replaced.
-/

namespace AgentBridge

open Reasoning

namespace Tools

variable {ν : Type} {library : SchemaLibrary ν} {r r' r'' : ToolRegistry ν} {name : String}
  {arguments : JsonTree ν} {grant : ToolGrant} {invocation : ToolInvocation}

/-! ## Registration -/

/-- The registry after any number of registrations. -/
inductive Later (library : SchemaLibrary ν) (r : ToolRegistry ν) : ToolRegistry ν → Prop where
  | refl : Later library r r
  | register {I O : Type} {r' r'' : ToolRegistry ν} (codec : Codec ν I O) (reference : ToolRef)
      (description : String) (handler : ToolInvocation → I → Future (Except ToolError O))
      (before : Later library r r')
      (registered : r'.register codec reference description handler = .ok r'') :
      Later library r r''
  | registerDynamic {r' r'' : ToolRegistry ν} (definition : ToolDefinition ν)
      (handler : ToolInvocation → JsonTree ν → Future (Except ToolError (JsonTree ν)))
      (before : Later library r r')
      (registered : r'.registerDynamic library definition handler = .ok r'') :
      Later library r r''

/-- A registration adds one entry, under a name that was free. -/
structure Added (entry : Entry ν) (r r' : ToolRegistry ν) : Prop where
  free : r.entries.get entry.definition.reference.name = none
  after : r' = r.insert entry

theorem register_added {I O : Type} {codec : Codec ν I O} {reference : ToolRef}
    {description : String} {handler : ToolInvocation → I → Future (Except ToolError O)}
    (h : r.register codec reference description handler = .ok r') :
    ∃ schema, Added ⟨⟨reference, description, schema⟩, typedHandler codec handler⟩ r r' := by
  unfold ToolRegistry.register at h
  split at h
  · cases h
  · split at h
    · cases h
    · rename_i hfree
      split at h
      · cases h
      · split at h
        · cases h
        · rename_i schema _ _
          exact ⟨schema, by simpa using hfree, (Except.ok.inj h).symm⟩

theorem registerDynamic_added {definition : ToolDefinition ν}
    {handler : ToolInvocation → JsonTree ν → Future (Except ToolError (JsonTree ν))}
    (h : r.registerDynamic library definition handler = .ok r') :
    ∃ validator, compileSchema library definition.inputSchema = .ok validator ∧
      Added ⟨definition, dynamicHandler library validator handler⟩ r r' := by
  unfold ToolRegistry.registerDynamic at h
  split at h
  · cases h
  · split at h
    · cases h
    · rename_i hfree
      cases hcompiled : compileSchema library definition.inputSchema with
      | error error =>
        rw [hcompiled] at h
        cases h
      | ok validator =>
        rw [hcompiled] at h
        exact ⟨validator, rfl, by simpa using hfree, (Except.ok.inj h).symm⟩

theorem Added.get {entry : Entry ν} (h : Added entry r r') :
    r'.entries.get entry.definition.reference.name = some entry := by
  rw [h.after]
  exact (SortedMap.get_insert _ _ _ _).trans (if_pos rfl)

theorem Added.keeps {entry old : Entry ν} (h : Added entry r r')
    (hold : r.entries.get name = some old) : r'.entries.get name = some old := by
  have hne : ¬ name = entry.definition.reference.name := by
    rintro rfl
    rw [h.free] at hold
    cases hold
  rw [h.after]
  exact (SortedMap.get_insert _ _ _ _).trans ((if_neg hne).trans hold)

/-- A name keeps its entry. -/
theorem Later.keeps (h : Later library r r') {entry : Entry ν}
    (hentry : r.entries.get name = some entry) : r'.entries.get name = some entry := by
  induction h with
  | refl => exact hentry
  | register codec reference description handler before registered ih =>
    obtain ⟨schema, hadded⟩ := register_added registered
    exact hadded.keeps ih
  | registerDynamic definition handler before registered ih =>
    obtain ⟨validator, -, hadded⟩ := registerDynamic_added registered
    exact hadded.keeps ih

/-! ## Discovery -/

theorem catalog_eq (hscope : ToolRegistry.authorizeScope grant invocation = .ok ()) :
    r.catalog grant invocation = .ok (((r.entries.entries.map (·.2)).filter
      fun entry => grant.tools.contains entry.definition.reference).map (·.definition)) := by
  unfold ToolRegistry.catalog
  rw [hscope]
  rfl

/-- The search over the entries finds what the search by name does. -/
theorem mem_catalog_iff (hscope : ToolRegistry.authorizeScope grant invocation = .ok ())
    (definition : ToolDefinition ν) :
    (∃ definitions, r.catalog grant invocation = .ok definitions ∧ definition ∈ definitions) ↔
      ∃ entry, r.entries.get definition.reference.name = some entry ∧
        entry.definition = definition ∧ definition.reference ∈ grant.tools := by
  rw [catalog_eq hscope]
  constructor
  · rintro ⟨definitions, hcatalog, hmem⟩
    rw [← Except.ok.inj hcatalog, List.mem_map] at hmem
    obtain ⟨entry, hentry, rfl⟩ := hmem
    obtain ⟨hmem, hgranted⟩ := List.mem_filter.mp hentry
    obtain ⟨⟨key, other⟩, hkey, rfl⟩ := List.mem_map.mp hmem
    have hname := r.keyed key other hkey
    refine ⟨other, ?_, rfl, by simpa using hgranted⟩
    rw [hname]
    exact SortedMap.get_of_mem hkey
  · rintro ⟨entry, hentry, rfl, hgranted⟩
    refine ⟨_, rfl, List.mem_map.mpr ⟨entry, List.mem_filter.mpr ⟨?_, by simpa using hgranted⟩, rfl⟩⟩
    exact List.mem_map.mpr ⟨_, SortedMap.mem_of_get hentry, rfl⟩

/-! ## Invocation -/

theorem authorize_ok_iff {entry : Entry ν} :
    r.authorize name grant invocation = .ok entry ↔
      ToolRegistry.authorizeScope grant invocation = .ok () ∧
        r.entries.get name = some entry ∧ entry.definition.reference ∈ grant.tools := by
  unfold ToolRegistry.authorize
  cases hscope : ToolRegistry.authorizeScope grant invocation with
  | error error => exact ⟨nofun, fun h => nomatch h.1⟩
  | ok _ =>
    show (if _ then _ else _) = _ ↔ _
    cases hentry : r.entries.get name with
    | none =>
      refine ⟨fun h => ?_, fun h => nomatch h.2.1⟩
      split at h <;> cases h
    | some other =>
      have hname : other.definition.reference.name = name :=
        r.keyed name other (SortedMap.mem_of_get hentry)
      by_cases hgranted : other.definition.reference ∈ grant.tools
      · have hnamed : (grant.tools.any fun tool => tool.name == name) = true :=
          List.any_eq_true.mpr ⟨_, hgranted, by simpa using hname⟩
        have hcontains : grant.tools.contains other.definition.reference = true := by
          simpa using hgranted
        simp only [hnamed, hcontains, Bool.not_true, Bool.false_eq_true, if_false]
        constructor
        · intro h
          cases h
          exact ⟨trivial, rfl, hgranted⟩
        · rintro ⟨-, h, -⟩
          cases h
          rfl
      · have hcontains : grant.tools.contains other.definition.reference = false := by
          simpa using hgranted
        simp only [hcontains, Bool.not_false, if_true]
        constructor
        · intro h
          split at h <;> cases h
        · rintro ⟨-, h, hmem⟩
          cases h
          exact absurd hmem hgranted

theorem authorize_error {error : ToolError}
    (h : r.authorize name grant invocation = .error error) :
    error = .notGranted ∨ error = .unknownTool := by
  unfold ToolRegistry.authorize at h
  cases hscope : ToolRegistry.authorizeScope grant invocation with
  | error refused =>
    have hrefused : refused = .notGranted := by
      unfold ToolRegistry.authorizeScope at hscope
      split at hscope
      · exact (Except.error.inj hscope).symm
      · cases hscope
    rw [hscope] at h
    exact .inl ((Except.error.inj h).symm.trans hrefused)
  | ok _ =>
    rw [hscope] at h
    have h : (if _ then _ else _) = _ := h
    split at h
    · exact .inl (Except.error.inj h).symm
    · split at h
      · exact .inr (Except.error.inj h).symm
      · split at h
        · exact .inl (Except.error.inj h).symm
        · cases h

/-- What an invocation that is not authorized comes to. -/
theorem invoke_refused {error : ToolError} (h : r.authorize name grant invocation = .error error)
    (polls : Nat) :
    r.invoke name arguments grant invocation polls = ⟨none, none, some (.error error)⟩ := by
  unfold ToolRegistry.invoke
  rw [h]

theorem invoke_authorized {entry : Entry ν} (h : r.authorize name grant invocation = .ok entry)
    (hrunning : invocation.cancellation 0 = false) (polls : Nat) :
    r.invoke name arguments grant invocation polls =
      ToolRegistry.select invocation.cancellation entry (entry.handler invocation arguments)
        polls := by
  unfold ToolRegistry.invoke
  rw [h]
  exact if_neg (by simp [hrunning])

/-- The first poll of the handler starts it, and no later one starts another. -/
theorem select_started {cancellation : Nat → Bool} (hrunning : cancellation 1 = false)
    (entry : Entry ν) (future : HandlerFuture ν) (polls : Nat) :
    (ToolRegistry.select cancellation entry future (polls + 1)).reached = some entry.definition ∧
      (ToolRegistry.select cancellation entry future (polls + 1)).ran = future.ran := by
  induction polls with
  | zero =>
    unfold ToolRegistry.select
    rw [hrunning]
    exact ⟨rfl, rfl⟩
  | succ n ih =>
    rw [ToolRegistry.select]
    split
    · exact ih
    · split
      · exact ih
      · exact ⟨rfl, rfl⟩

/-- A token that is cancelled before the first poll keeps the handler from starting. -/
theorem select_cancelled {cancellation : Nat → Bool} (hcancelled : cancellation 1 = true)
    (entry : Entry ν) (future : HandlerFuture ν) (polls : Nat) :
    ToolRegistry.select cancellation entry future polls =
      ⟨none, none, if polls = 0 then none else some (.error .cancelled)⟩ := by
  induction polls with
  | zero => rfl
  | succ n ih =>
    rw [ToolRegistry.select, ih]
    cases n with
    | zero =>
      rw [hcancelled]
      rfl
    | succ n => rfl

/-- A handler runs only for an invocation that is authorized and not yet cancelled. -/
theorem reached_iff {definition : ToolDefinition ν} {polls : Nat} :
    (r.invoke name arguments grant invocation polls).reached = some definition ↔
      (∃ entry, r.authorize name grant invocation = .ok entry ∧ entry.definition = definition) ∧
        invocation.cancellation 0 = false ∧ invocation.cancellation 1 = false ∧ 0 < polls := by
  cases hauthorized : r.authorize name grant invocation with
  | error error =>
    rw [invoke_refused hauthorized]
    exact ⟨nofun, fun ⟨⟨_, h, _⟩, _⟩ => nomatch h⟩
  | ok entry =>
    cases hbefore : invocation.cancellation 0 with
    | true =>
      have hinvoke : r.invoke name arguments grant invocation polls =
          ⟨none, none, some (.error .cancelled)⟩ := by
        unfold ToolRegistry.invoke
        rw [hauthorized]
        exact if_pos hbefore
      rw [hinvoke]
      exact ⟨nofun, fun ⟨_, h, _⟩ => nomatch h⟩
    | false =>
      rw [invoke_authorized hauthorized hbefore]
      cases hfirst : invocation.cancellation 1 with
      | true =>
        rw [select_cancelled hfirst]
        exact ⟨nofun, fun ⟨_, _, h, _⟩ => nomatch h⟩
      | false =>
        cases polls with
        | zero => exact ⟨nofun, fun ⟨_, _, _, h⟩ => absurd h (Nat.lt_irrefl 0)⟩
        | succ n =>
          rw [(select_started hfirst entry _ n).1]
          constructor
          · intro h
            exact ⟨⟨entry, rfl, Option.some.inj h⟩, rfl, rfl, Nat.succ_pos n⟩
          · rintro ⟨⟨other, hother, rfl⟩, -⟩
            rw [Except.ok.inj hother]

/-- The application is called by the handler that was reached, with what this passes on. -/
theorem ran_of_invoke {polls : Nat} {input : JsonTree ν}
    (h : (r.invoke name arguments grant invocation polls).ran = some input) :
    ∃ entry, r.authorize name grant invocation = .ok entry ∧
      (r.invoke name arguments grant invocation polls).reached = some entry.definition ∧
      (entry.handler invocation arguments).ran = some input := by
  cases hauthorized : r.authorize name grant invocation with
  | error error =>
    rw [invoke_refused hauthorized] at h
    cases h
  | ok entry =>
    cases hbefore : invocation.cancellation 0 with
    | true =>
      unfold ToolRegistry.invoke at h
      rw [hauthorized] at h
      simp only [hbefore, if_true] at h
      cases h
    | false =>
      rw [invoke_authorized hauthorized hbefore] at h ⊢
      cases hfirst : invocation.cancellation 1 with
      | true =>
        rw [select_cancelled hfirst] at h
        cases h
      | false =>
        cases polls with
        | zero => cases h
        | succ n =>
          obtain ⟨hreached, hran⟩ := select_started hfirst entry
            (entry.handler invocation arguments) n
          exact ⟨entry, rfl, hreached, hran.symm.trans h⟩

/-- A dynamic handler passes on what is within the limit and accepted by the validator. -/
theorem dynamicHandler_ran_iff {validator : JsonTree ν → Bool}
    {handler : ToolInvocation → JsonTree ν → Future (Except ToolError (JsonTree ν))}
    {input : JsonTree ν} :
    (dynamicHandler library validator handler invocation arguments).ran = some input ↔
      input = arguments ∧ input.textBytes library.numberBytes ≤ byteLimit ∧
        validator input = true := by
  unfold dynamicHandler
  by_cases hsize : arguments.textBytes library.numberBytes > byteLimit
  · rw [if_pos hsize]
    constructor
    · exact fun h => by cases h
    · rintro ⟨rfl, hle, -⟩
      omega
  rw [if_neg hsize]
  cases hvalid : validator arguments with
  | false =>
    constructor
    · exact fun h => by cases h
    · rintro ⟨rfl, -, haccepted⟩
      rw [hvalid] at haccepted
      cases haccepted
  | true =>
    constructor
    · intro h
      have hinput : arguments = input := Option.some.inj h
      rw [← hinput]
      exact ⟨rfl, Nat.not_lt.mp hsize, hvalid⟩
    · rintro ⟨rfl, -, -⟩
      rfl

/-- What a grant shows of a registry is what it lets be invoked. -/
theorem catalog_iff_reached (definition : ToolDefinition ν) (polls : Nat)
    (hbefore : invocation.cancellation 0 = false) (hfirst : invocation.cancellation 1 = false) :
    (r.invoke name arguments grant invocation (polls + 1)).reached = some definition ↔
      definition.reference.name = name ∧
        ∃ definitions, r.catalog grant invocation = .ok definitions ∧ definition ∈ definitions := by
  rw [reached_iff]
  constructor
  · rintro ⟨⟨entry, hauthorized, rfl⟩, -⟩
    obtain ⟨hscope, hentry, hgranted⟩ := authorize_ok_iff.mp hauthorized
    have hname := r.keyed name entry (SortedMap.mem_of_get hentry)
    refine ⟨hname, (mem_catalog_iff hscope _).mpr ⟨entry, ?_, rfl, hgranted⟩⟩
    rw [hname]
    exact hentry
  · rintro ⟨rfl, hcatalog⟩
    have hscope : ToolRegistry.authorizeScope grant invocation = .ok () := by
      obtain ⟨definitions, hcatalog, -⟩ := hcatalog
      unfold ToolRegistry.catalog at hcatalog
      cases hscope : ToolRegistry.authorizeScope grant invocation with
      | ok _ => rfl
      | error error =>
        rw [hscope] at hcatalog
        cases hcatalog
    obtain ⟨entry, hentry, rfl, hgranted⟩ := (mem_catalog_iff hscope _).mp hcatalog
    exact ⟨⟨entry, authorize_ok_iff.mpr ⟨hscope, hentry, hgranted⟩, rfl⟩, hbefore, hfirst,
      Nat.succ_pos polls⟩

/-- A tool that is shown is invoked. -/
theorem ran_of_catalog {entry : Entry ν} (hentry : r.entries.get name = some entry)
    (hcatalog : ∃ definitions, r.catalog grant invocation = .ok definitions ∧
      entry.definition ∈ definitions)
    (hbefore : invocation.cancellation 0 = false) (hfirst : invocation.cancellation 1 = false)
    (polls : Nat) :
    (r.invoke name arguments grant invocation (polls + 1)).ran =
      (entry.handler invocation arguments).ran := by
  have hname := r.keyed name entry (SortedMap.mem_of_get hentry)
  have hreached : (r.invoke name arguments grant invocation (polls + 1)).reached =
      some entry.definition :=
    (catalog_iff_reached entry.definition polls hbefore hfirst).mpr ⟨hname, hcatalog⟩
  obtain ⟨⟨other, hauthorized, -⟩, -⟩ := reached_iff.mp hreached
  obtain ⟨-, hfound, -⟩ := authorize_ok_iff.mp hauthorized
  obtain rfl := Option.some.inj (hfound.symm.trans hentry)
  rw [invoke_authorized hauthorized hbefore]
  exact (select_started hfirst other _ polls).2

/-- Discovery and invocation authorize the same tools, whatever was registered before and since; a
dynamic handler runs on exactly the arguments that its schema accepts. -/
theorem discovery_agrees_with_invocation (r : ToolRegistry ν) (grant : ToolGrant)
    (invocation : ToolInvocation) (name : String) (arguments : JsonTree ν) :
    (∀ definition polls, invocation.cancellation 0 = false → invocation.cancellation 1 = false →
      ((r.invoke name arguments grant invocation (polls + 1)).reached = some definition ↔
        definition.reference.name = name ∧
          ∃ definitions, r.catalog grant invocation = .ok definitions ∧
            definition ∈ definitions)) ∧
    ((¬ ∃ definitions, r.catalog grant invocation = .ok definitions ∧
        name ∈ definitions.map (·.reference.name)) →
      ∃ error, (error = .notGranted ∨ error = .unknownTool) ∧
        ∀ polls, r.invoke name arguments grant invocation polls =
          ⟨none, none, some (.error error)⟩) ∧
    (∀ polls, invocation.cancellation 0 = true ∨ invocation.cancellation 1 = true →
      (r.invoke name arguments grant invocation polls).reached = none ∧
        (r.invoke name arguments grant invocation polls).ran = none) ∧
    (∀ (definition : ToolDefinition ν) handler (r₀ r₁ : ToolRegistry ν),
      r₀.registerDynamic library definition handler = .ok r₁ → Later library r₁ r →
      definition.reference.name = name →
        ∃ validator, compileSchema library definition.inputSchema = .ok validator ∧
          (∀ polls input, (r.invoke name arguments grant invocation polls).ran = some input →
            input = arguments ∧ input.textBytes library.numberBytes ≤ byteLimit ∧
              validator input = true) ∧
          ∀ polls, invocation.cancellation 0 = false → invocation.cancellation 1 = false →
            (∃ definitions, r.catalog grant invocation = .ok definitions ∧
              definition ∈ definitions) →
            arguments.textBytes library.numberBytes ≤ byteLimit → validator arguments = true →
              (r.invoke name arguments grant invocation (polls + 1)).ran = some arguments) ∧
    ∀ r', Later library r r' → ∀ entry, r.entries.get name = some entry →
      r'.entries.get name = some entry := by
  refine ⟨fun definition polls => catalog_iff_reached definition polls, fun hmissing => ?_,
    fun polls hcancelled => ?_, ?_, fun r' hlater entry => hlater.keeps⟩
  · cases hauthorized : r.authorize name grant invocation with
    | error error =>
      exact ⟨error, authorize_error hauthorized, invoke_refused hauthorized⟩
    | ok entry =>
      obtain ⟨hscope, hentry, hgranted⟩ := authorize_ok_iff.mp hauthorized
      have hname := r.keyed name entry (SortedMap.mem_of_get hentry)
      obtain ⟨definitions, hcatalog, hmem⟩ :=
        (mem_catalog_iff hscope entry.definition).mpr ⟨entry, by rw [hname, hentry], rfl, hgranted⟩
      exact absurd ⟨definitions, hcatalog, List.mem_map.mpr ⟨_, hmem, hname⟩⟩ hmissing
  · have hreached : (r.invoke name arguments grant invocation polls).reached = none := by
      cases hreached : (r.invoke name arguments grant invocation polls).reached with
      | none => rfl
      | some definition =>
        obtain ⟨-, hbefore, hfirst, -⟩ := reached_iff.mp hreached
        rw [hbefore, hfirst] at hcancelled
        rcases hcancelled with hcancelled | hcancelled
        · cases hcancelled
        · cases hcancelled
    refine ⟨hreached, ?_⟩
    cases hran : (r.invoke name arguments grant invocation polls).ran with
    | none => rfl
    | some input =>
      obtain ⟨entry, -, hsome, -⟩ := ran_of_invoke hran
      rw [hreached] at hsome
      cases hsome
  · rintro definition handler r₀ r₁ hregistered hlater rfl
    obtain ⟨validator, hcompiled, hadded⟩ := registerDynamic_added hregistered
    have hentry := hlater.keeps hadded.get
    refine ⟨validator, hcompiled, ?_, ?_⟩
    · intro polls input hran
      obtain ⟨entry, hauthorized, -, hcalls⟩ := ran_of_invoke hran
      obtain ⟨-, hfound, -⟩ := authorize_ok_iff.mp hauthorized
      cases hfound.symm.trans hentry
      exact dynamicHandler_ran_iff.mp hcalls
    · intro polls hbefore hfirst hcatalog hsize hvalid
      rw [ran_of_catalog hentry hcatalog hbefore hfirst]
      exact dynamicHandler_ran_iff.mpr ⟨rfl, hsize, hvalid⟩

section Witness

def anything : SchemaLibrary Unit := ⟨fun _ => 1, fun _ => .ok fun _ => true⟩

def echo : ToolDefinition Unit :=
  ⟨⟨"echo", "v1"⟩, "Returns its arguments", .obj [("type", .str "object")]⟩

def returned (_ : ToolInvocation) (input : JsonTree Unit) :
    Future (Except ToolError (JsonTree Unit)) := fun _ => some (.ok input)

def scope : ToolScope := ⟨⟨"session", rfl⟩, ⟨"assistant", rfl⟩⟩

def granted : ToolGrant := ⟨⟨"host", rfl⟩, ⟨"assistant", rfl⟩, scope, [echo.reference]⟩

def uncancelled : ToolInvocation := ⟨⟨"host", rfl⟩, ⟨"assistant", rfl⟩, scope, fun _ => false⟩

/-- A tool that was registered and granted is invoked, and runs on its arguments. -/
theorem discovery_agrees_for_echo :
    ∃ r, ToolRegistry.default.registerDynamic anything echo returned = .ok r ∧
      (r.invoke "echo" (.obj []) granted uncancelled 1).reached = some echo ∧
      (r.invoke "echo" (.obj []) granted uncancelled 1).ran = some (.obj []) := by
  refine ⟨_, rfl, ?_⟩
  obtain ⟨hagree, -, -, hdynamic, -⟩ := @discovery_agrees_with_invocation _ anything _ granted
    uncancelled "echo" (.obj [])
  obtain ⟨validator, hcompiled, -, hran⟩ := hdynamic echo returned .default _ rfl .refl rfl
  refine ⟨(hagree echo 0 rfl rfl).mpr ⟨rfl, _, rfl, List.mem_cons_self⟩, ?_⟩
  have hvalidator : validator = fun _ => true := (Except.ok.inj hcompiled).symm
  exact hran 0 rfl rfl ⟨_, rfl, List.mem_cons_self⟩ (by decide) (by rw [hvalidator])

end Witness

end Tools

end AgentBridge
