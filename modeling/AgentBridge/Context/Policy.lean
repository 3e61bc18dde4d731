import AgentBridge.Context.Limits
import AgentBridge.Records.MemorySteps
import AgentBridge.Records.Sqlite.Steps

/-!
# What a policy does to a context

A policy removes the items it omits from the manifest, adds the documents of its skills, and covers
every instruction by a grant.  The resources it forbids stay out of the context whichever way they
are referenced.
-/

namespace AgentBridge

open Reasoning

namespace Context

variable {stores : Stores} {allowedSessions : List SessionId} {limits : ContextLimits}

/-! ## The items of a policy -/

def ContextPolicy.omitted (policy : ContextPolicy) : List ContextItem :=
  policy.omissions.map (·.item)

/-- The text documents of the skills that are delivered as supplemental text. -/
def supplementals (skills : List SkillRequest) : List InstructionRef :=
  skills.filterMap fun skill =>
    match skill.delivery with | .supplementalText => some skill.instruction | _ => none

/-- The resources of the skills that are delivered natively. -/
def natives (skills : List SkillRequest) : List ResourceRef :=
  skills.filterMap fun skill =>
    match skill.delivery with | .requireNative => some skill.resource | _ => none

/-- The resources of the skills that are omitted. -/
def omittedSkills (skills : List SkillRequest) : List ResourceRef :=
  skills.filterMap fun skill =>
    match skill.delivery with | .omitted _ => some skill.resource | _ => none

def ContextItem.resource? : ContextItem → Option ResourceRef
  | .resource reference => some reference
  | _ => none

/-- The grant names the requester and this exact revision and role. -/
def ContextPolicy.Grants (policy : ContextPolicy) (instruction : InstructionRef) : Prop :=
  ∃ authorization, policy.instructionAuthorization = some authorization ∧
    authorization.requester = authorization.grant.subject ∧
    instruction ∈ authorization.grant.instructions

/-- The item is selected in the manifest. -/
def Selected (manifest : ContextManifest) : ContextItem → Prop
  | .record id => id ∈ manifest.records
  | .instruction instruction => instruction ∈ manifest.instructions
  | .resource reference => reference ∈ manifest.resources

/-- The manifest without exactly these items. -/
def without (manifest : ContextManifest) (items : List ContextItem) :
    ContextManifest where
  records := manifest.records.filter fun id => .record id ∉ items
  instructions := manifest.instructions.filter fun instruction => .instruction instruction ∉ items
  resources := manifest.resources.filter fun reference => .resource reference ∉ items

/-- The manifest with these instructions and resources at the end, unless already selected. -/
def adding (manifest : ContextManifest) (instructions : List InstructionRef)
    (resources : List ResourceRef) : ContextManifest where
  records := manifest.records
  instructions := manifest.instructions ++ instructions.filter (· ∉ manifest.instructions)
  resources := manifest.resources ++ resources.filter (· ∉ manifest.resources)

theorem without_nil (manifest : ContextManifest) :
    without manifest [] = manifest := by
  simp [without]

theorem without_without (manifest : ContextManifest) (items items' : List ContextItem) :
    without (without manifest items) items' =
      without manifest (items ++ items') := by
  simp only [without, List.filter_filter, ContextManifest.mk.injEq]
  refine ⟨?_, ?_, ?_⟩
  all_goals
    apply List.filter_congr
    intro x _
    simp [Bool.and_comm]

theorem Selected.of_without {manifest : ContextManifest} {items : List ContextItem}
    {item : ContextItem} (h : Selected (without manifest items) item) :
    Selected manifest item := by
  cases item with
  | record id => exact List.mem_of_mem_filter h
  | instruction instruction => exact List.mem_of_mem_filter h
  | resource reference => exact List.mem_of_mem_filter h

/-! ## Authorization -/

theorem authorizeSkills_ok {skills : List SkillRequest} {skillRefs : List ResourceRef}
    {instructions out : List InstructionRef}
    (hok : authorizeSkills skills skillRefs instructions = .ok out) :
    out = instructions ++ skills.map SkillRequest.instruction ∧
      (skills.map (·.resource)).Nodup ∧ ∀ skill ∈ skills, skill.resource ∉ skillRefs := by
  induction skills generalizing skillRefs instructions with
  | nil =>
    obtain rfl := Except.ok.inj hok
    simp
  | cons skill skills ih =>
    simp only [authorizeSkills, ite_error_eq_ok, Bool.or_eq_true, List.contains_iff_mem,
      not_or] at hok
    obtain ⟨⟨-, hnew⟩, -, hrest⟩ := hok
    obtain ⟨hout, hnodup, hfresh⟩ := ih hrest
    refine ⟨by rw [hout]; simp, ?_, ?_⟩
    · rw [List.map_cons, List.nodup_cons]
      refine ⟨?_, hnodup⟩
      intro hmem
      obtain ⟨other, hother, heq⟩ := List.mem_map.mp hmem
      apply hfresh other hother
      rw [heq]
      simp
    · intro other hother
      rcases List.mem_cons.mp hother with rfl | hother
      · exact hnew
      · exact fun h => hfresh other hother (List.mem_append_left _ h)

theorem checkAuthorization_ok {policy : ContextPolicy} {instructions : List InstructionRef}
    (hok : checkAuthorization policy.instructionAuthorization instructions = .ok ()) :
    ∀ instruction ∈ instructions, policy.Grants instruction := by
  intro instruction hmem
  unfold checkAuthorization at hok
  cases hauth : policy.instructionAuthorization with
  | none =>
    simp only [hauth, ite_error_eq_ok, ne_eq, not_not] at hok
    rw [hok.1] at hmem
    cases hmem
  | some authorization =>
    simp only [hauth, ite_error_eq_ok, not_or, ne_eq, not_not, List.any_eq_true,
      Bool.not_eq_true', List.contains_eq_mem, decide_eq_false_iff_not, not_exists, not_and] at hok
    exact ⟨authorization, hauth, hok.1.1, hok.1.2 instruction hmem⟩

/-! ## Omissions -/

theorem remove_manifest (selection : Selection) (item : ContextItem) :
    (selection.remove item).1.manifest = without selection.manifest [item] := by
  cases item with
  | record id => simp [Selection.remove, without]
  | instruction instruction => simp [Selection.remove, without]
  | resource reference => simp [Selection.remove, without]

theorem remove_found (selection : Selection) (item : ContextItem) :
    (selection.remove item).2 = true ↔ Selected selection.manifest item := by
  cases item with
  | record id => simp [Selection.remove, Selected]
  | instruction instruction => simp [Selection.remove, Selected]
  | resource reference => simp [Selection.remove, Selected]

theorem remove_omitted (selection : Selection) (item : ContextItem) :
    (selection.remove item).1.omitted = selection.omitted := by
  cases item with
  | record id => rfl
  | instruction instruction => rfl
  | resource reference => rfl

theorem remove_forbidden (selection : Selection) (item : ContextItem) :
    (selection.remove item).1.forbidden = selection.forbidden ++ item.resource?.toList := by
  cases item with
  | record id => simp [Selection.remove, ContextItem.resource?]
  | instruction instruction => simp [Selection.remove, ContextItem.resource?]
  | resource reference => simp [Selection.remove, ContextItem.resource?]

/-- What the loop over the omissions returns. -/
structure Omits (items : List ContextItem) (selection selection' : Selection) : Prop where
  manifest : selection'.manifest = without selection.manifest items
  omitted : selection'.omitted = selection.omitted ++ items
  forbidden : selection'.forbidden = selection.forbidden ++ items.filterMap ContextItem.resource?
  distinct : items.Nodup
  named : ∀ item ∈ items, Selected selection.manifest item ∧ item ∉ selection.omitted

theorem omitItems_ok {omissions : List ContextOmission} {selection selection' : Selection}
    (hok : omitItems omissions selection = .ok selection') :
    Omits (omissions.map (·.item)) selection selection' := by
  induction omissions generalizing selection with
  | nil =>
    obtain rfl := Except.ok.inj hok
    refine ⟨?_, by simp, by simp, List.nodup_nil, ?_⟩
    · rw [List.map_nil, without_nil]
    · intro item hitem
      cases hitem
  | cons omission omissions ih =>
    simp only [omitItems, ite_error_eq_ok, Bool.or_eq_true, List.contains_iff_mem, not_or,
      Bool.not_eq_false, remove_found] at hok
    obtain ⟨⟨-, hnew⟩, hfound, hrest⟩ := hok
    have h := ih hrest
    have hfresh : omission.item ∉ omissions.map (·.item) := by
      intro hmem
      apply (h.named _ hmem).2
      simp
    refine ⟨?_, ?_, ?_, ?_, ?_⟩
    · rw [h.manifest]
      show without (selection.remove omission.item).1.manifest _ = _
      rw [remove_manifest, without_without]
      rfl
    · rw [h.omitted]
      show (selection.remove omission.item).1.omitted ++ [omission.item] ++ _ = _
      rw [remove_omitted]
      simp
    · rw [h.forbidden]
      show (selection.remove omission.item).1.forbidden ++ _ = _
      rw [remove_forbidden, List.map_cons, List.filterMap_cons, List.append_assoc]
      cases omission.item.resource? with
      | none => rfl
      | some reference => rfl
    · rw [List.map_cons, List.nodup_cons]
      exact ⟨hfresh, h.distinct⟩
    · intro item hitem
      rcases List.mem_cons.mp hitem with rfl | hitem
      · exact ⟨hfound, hnew⟩
      · obtain ⟨hhas, hnot⟩ := h.named item hitem
        have hhas : Selected (selection.remove omission.item).1.manifest item := hhas
        rw [remove_manifest] at hhas
        have hnot : item ∉ (selection.remove omission.item).1.omitted ++ [omission.item] := hnot
        rw [remove_omitted] at hnot
        exact ⟨hhas.of_without, fun h => hnot (List.mem_append_left _ h)⟩

/-! ## Skills -/

/-- A list that leaves an element out is filtered alike with or without it. -/
theorem filter_notMem_concat {α : Type} [DecidableEq α] {l xs : List α} {x : α} (hx : x ∉ xs) :
    xs.filter (· ∉ l ++ [x]) = xs.filter (· ∉ l) := by
  apply List.filter_congr
  intro y hy
  have hne : y ≠ x := fun h => hx (h ▸ hy)
  simp [hne]

theorem mem_supplementals {skills : List SkillRequest} {instruction : InstructionRef}
    (h : instruction ∈ supplementals skills) :
    ∃ skill ∈ skills, skill.delivery = .supplementalText ∧ skill.instruction = instruction := by
  obtain ⟨skill, hmem, hskill⟩ := List.mem_filterMap.mp h
  cases hdelivery : skill.delivery with
  | requireNative => simp only [hdelivery, reduceCtorEq] at hskill
  | omitted reason => simp only [hdelivery, reduceCtorEq] at hskill
  | supplementalText =>
    simp only [hdelivery, Option.some.injEq] at hskill
    exact ⟨skill, hmem, hdelivery, hskill⟩

theorem mem_natives {skills : List SkillRequest} {reference : ResourceRef}
    (h : reference ∈ natives skills) : ∃ skill ∈ skills, skill.resource = reference := by
  obtain ⟨skill, hmem, hskill⟩ := List.mem_filterMap.mp h
  cases hdelivery : skill.delivery with
  | requireNative =>
    simp only [hdelivery, Option.some.injEq] at hskill
    exact ⟨skill, hmem, hskill⟩
  | omitted reason => simp only [hdelivery, reduceCtorEq] at hskill
  | supplementalText => simp only [hdelivery, reduceCtorEq] at hskill

/-- What the loop over the skills returns. -/
structure SkillsSelected (skills : List SkillRequest) (selection selection' : Selection) :
    Prop where
  manifest : selection'.manifest =
    adding selection.manifest (supplementals skills) (natives skills)
  forbidden : selection'.forbidden = selection.forbidden ++ omittedSkills skills
  kept : ∀ instruction ∈ supplementals skills, .instruction instruction ∉ selection.omitted

theorem selectSkills_ok {skills : List SkillRequest} {selection selection' : Selection}
    (hnodup : (skills.map (·.resource)).Nodup)
    (hok : selectSkills skills selection = .ok selection') :
    SkillsSelected skills selection selection' := by
  induction skills generalizing selection with
  | nil =>
    obtain rfl := Except.ok.inj hok
    refine ⟨?_, by simp [omittedSkills], ?_⟩
    · simp [supplementals, natives, adding]
    · intro instruction hmem
      cases hmem
  | cons skill skills ih =>
    rw [List.map_cons, List.nodup_cons] at hnodup
    obtain ⟨hnew, hnodup⟩ := hnodup
    -- the skills after this one name other resources, so they add what they would have added
    have hsupplemental : skill.instruction ∉ supplementals skills := by
      intro hmem
      obtain ⟨other, hother, -, heq⟩ := mem_supplementals hmem
      apply hnew
      rw [List.mem_map]
      exact ⟨other, hother, congrArg InstructionRef.resource heq⟩
    have hnative : skill.resource ∉ natives skills := by
      intro hmem
      obtain ⟨other, hother, heq⟩ := mem_natives hmem
      apply hnew
      rw [List.mem_map]
      exact ⟨other, hother, heq⟩
    unfold selectSkills at hok
    cases hdelivery : skill.delivery with
    | supplementalText =>
      simp only [hdelivery, ite_error_eq_ok, List.contains_iff_mem] at hok
      obtain ⟨homitted, hok⟩ := hok
      have hhead : supplementals (skill :: skills) = skill.instruction :: supplementals skills := by
        simp [supplementals, hdelivery]
      have hnatives : natives (skill :: skills) = natives skills := by
        simp [natives, hdelivery]
      have hforbidden : omittedSkills (skill :: skills) = omittedSkills skills := by
        simp [omittedSkills, hdelivery]
      have hkept : ∀ {s : Selection}, s.omitted = selection.omitted →
          (∀ instruction ∈ supplementals skills, .instruction instruction ∉ s.omitted) →
          ∀ instruction ∈ supplementals (skill :: skills),
            .instruction instruction ∉ selection.omitted := by
        intro s hs hrest instruction hmem
        rw [hhead] at hmem
        rcases List.mem_cons.mp hmem with rfl | hmem
        · exact homitted
        · rw [← hs]
          exact hrest instruction hmem
      by_cases hselected : skill.instruction ∈ selection.manifest.instructions
      · rw [if_pos hselected] at hok
        have h := ih hnodup hok
        refine ⟨?_, by rw [hforbidden]; exact h.forbidden, hkept rfl h.kept⟩
        rw [h.manifest, hhead, hnatives]
        simp [adding, hselected]
      · rw [if_neg hselected] at hok
        have h := ih hnodup hok
        refine ⟨?_, by rw [hforbidden]; exact h.forbidden, hkept rfl h.kept⟩
        rw [h.manifest, hhead, hnatives]
        unfold adding
        simp only [filter_notMem_concat hsupplemental]
        simp [hselected]
    | requireNative =>
      simp only [hdelivery, List.contains_iff_mem] at hok
      have hhead : natives (skill :: skills) = skill.resource :: natives skills := by
        simp [natives, hdelivery]
      have hsupplementals : supplementals (skill :: skills) = supplementals skills := by
        simp [supplementals, hdelivery]
      have hforbidden : omittedSkills (skill :: skills) = omittedSkills skills := by
        simp [omittedSkills, hdelivery]
      by_cases hselected : skill.resource ∈ selection.manifest.resources
      · rw [if_pos hselected] at hok
        have h := ih hnodup hok
        refine ⟨?_, by rw [hforbidden]; exact h.forbidden, by rw [hsupplementals]; exact h.kept⟩
        rw [h.manifest, hhead, hsupplementals]
        simp [adding, hselected]
      · rw [if_neg hselected] at hok
        have h := ih hnodup hok
        refine ⟨?_, by rw [hforbidden]; exact h.forbidden, by rw [hsupplementals]; exact h.kept⟩
        rw [h.manifest, hhead, hsupplementals]
        unfold adding
        simp only [filter_notMem_concat hnative]
        simp [hselected]
    | omitted reason =>
      simp only [hdelivery] at hok
      have h := ih hnodup hok
      have hsupplementals : supplementals (skill :: skills) = supplementals skills := by
        simp [supplementals, hdelivery]
      have hnatives : natives (skill :: skills) = natives skills := by
        simp [natives, hdelivery]
      have hhead : omittedSkills (skill :: skills) = skill.resource :: omittedSkills skills := by
        simp [omittedSkills, hdelivery]
      refine ⟨?_, ?_, by rw [hsupplementals]; exact h.kept⟩
      · rw [h.manifest, hsupplementals, hnatives]
      · rw [h.forbidden, hhead, List.append_assoc]
        rfl

/-! ## A whole preparation -/

/-- A record store answers with the record it is asked for. -/
def Stores.AnswersTheId (stores : Stores) : Prop :=
  ∀ n id s, stores.record n id = .ok s → s.record.id = id

theorem memoryStore_answersTheId {states : Nat → MemoryStore.State}
    (hwf : ∀ n, (states n).WellFormed)
    (hreads : ∀ n id, orFault (stores.record n id) = MemoryStore.get id (states n)) :
    stores.AnswersTheId := by
  intro n id s hs
  have hget := hreads n id
  rw [hs, orFault_ok, MemoryStore.get] at hget
  cases hentry : (states n).records.lookup id with
  | none =>
    rw [hentry] at hget
    cases hget
  | some entry =>
    rw [hentry] at hget
    rw [Except.ok.inj hget]
    exact ((hwf n).entries id entry hentry).2

theorem sqliteStore_answersTheId {Text : Type} [DecidableEq Text] {J : SerdeJson Text}
    {dbs : Nat → SqliteStore.Db Text} (hsound : ∀ n, (dbs n).Sound)
    (hreads : ∀ n id, stores.record n id = SqliteStore.get J id (dbs n)) :
    stores.AnswersTheId := by
  intro n id s hs
  rw [hreads] at hs
  obtain ⟨found, hentry, hget⟩ := bind_eq_ok.mp hs
  cases found with
  | none => cases hget
  | some entry =>
    obtain ⟨-, -, -, hid, -⟩ := (hsound n).entry_row hentry
    rw [← Except.ok.inj hget]
    exact hid

theorem Selects.ids (hstores : stores.AnswersTheId) {n : Nat} {ids : List RecordId}
    {snapshots : List Snapshot} (h : Selects stores allowedSessions n ids snapshots) :
    snapshots.map (·.record.id) = ids := by
  induction ids generalizing n snapshots with
  | nil =>
    cases snapshots with
    | nil => rfl
    | cons snapshot snapshots => exact absurd h id
  | cons id ids ih =>
    cases snapshots with
    | nil => exact absurd h fun h => h
    | cons snapshot snapshots =>
      rw [List.map_cons, ih h.2.2.2, hstores n id snapshot h.1]

/-- What a preparation under a policy returns. -/
structure PolicyApplied (manifest : ContextManifest) (stores : Stores)
    (allowedSessions : List SessionId) (policy : ContextPolicy) (p : PreparedContext) : Prop where
  requested : p.requestedManifest = manifest ∧ p.policy = policy
  selected : p.manifest = adding (without manifest policy.omitted)
    (supplementals policy.skills) (natives policy.skills)
  omissions : policy.omitted.Nodup ∧ ∀ item ∈ policy.omitted, Selected manifest item
  /-- One record for each id, in order, -/
  records : Selects stores allowedSessions 0 p.manifest.records p.records
  final : ∀ s ∈ p.records, s.record.sessionId ∈ allowedSessions ∧ s.state.isFinal = true
  /-- the record with that id, -/
  ids : stores.AnswersTheId → p.records.map (·.record.id) = p.manifest.records
  /-- and one text for each instruction. -/
  instructions : p.instructions.map (·.reference) = p.manifest.instructions ∧
    ∀ x ∈ p.instructions, x.resource ∈ p.resources ∧
      x.resource.reference = x.reference.resource ∧ x.resource.isText = true
  noRecord : (∀ id ∈ p.manifest.records, .record id ∉ policy.omitted) ∧
    (stores.AnswersTheId → ∀ s ∈ p.records, .record s.record.id ∉ policy.omitted)
  noInstruction : ∀ x ∈ p.instructions, .instruction x.reference ∉ policy.omitted
  /-- The resources are those of the attachments, of the instructions and of the selection, -/
  resources : p.resources.map (·.reference) = (references p.manifest p.records).eraseDups
  /-- and none of them is omitted. -/
  noResource : ∀ r ∈ p.resources, .resource r.reference ∉ policy.omitted ∧
    r.reference ∉ omittedSkills policy.skills
  granted : ∀ instruction ∈ manifest.instructions ++ policy.skills.map SkillRequest.instruction,
    policy.Grants instruction
  delivered : ∀ x ∈ p.instructions, policy.Grants x.reference

theorem prepareWithPolicy_ok {manifest : ContextManifest} {policy : ContextPolicy}
    {p : PreparedContext}
    (hok : prepareWithPolicy manifest stores allowedSessions limits policy = .ok p) :
    ∃ selection selection' prepared,
      (policy.skills.map (·.resource)).Nodup ∧
      (∀ instruction ∈ manifest.instructions ++ policy.skills.map SkillRequest.instruction,
        policy.Grants instruction) ∧
      Omits policy.omitted ⟨manifest, [], []⟩ selection ∧
      SkillsSelected policy.skills selection selection' ∧
      Prepared stores allowedSessions limits selection'.forbidden selection'.manifest prepared ∧
      p = { prepared with requestedManifest := manifest, policy } := by
  unfold prepareWithPolicy at hok
  obtain ⟨⟨⟩, -, hok⟩ := bind_eq_ok.mp hok
  simp only [error_bind, ite_error_eq_ok] at hok
  obtain ⟨-, hok⟩ := hok
  obtain ⟨instructions, hauthorized, hok⟩ := bind_eq_ok.mp hok
  obtain ⟨⟨⟩, -, hok⟩ := bind_eq_ok.mp hok
  simp only [ite_error_eq_ok] at hok
  obtain ⟨-, -, hok⟩ := hok
  obtain ⟨⟨⟩, hgranted, hok⟩ := bind_eq_ok.mp hok
  obtain ⟨selection, homitted, hok⟩ := bind_eq_ok.mp hok
  obtain ⟨selection', hselected, hok⟩ := bind_eq_ok.mp hok
  obtain ⟨prepared, hprepared, hok⟩ := bind_eq_ok.mp hok
  obtain ⟨⟨⟩, -, hok⟩ := bind_eq_ok.mp hok
  obtain rfl := Except.ok.inj hok
  obtain ⟨rfl, hnodup, -⟩ := authorizeSkills_ok hauthorized
  exact ⟨selection, selection', prepared, hnodup, checkAuthorization_ok hgranted,
    omitItems_ok homitted, selectSkills_ok hnodup hselected, (prepareInner_ok hprepared).1, rfl⟩

theorem context_policy_is_applied {manifest : ContextManifest} {stores : Stores}
    {allowedSessions : List SessionId} {limits : ContextLimits} {policy : ContextPolicy}
    {p : PreparedContext}
    (hok : prepareWithPolicy manifest stores allowedSessions limits policy = .ok p) :
    PolicyApplied manifest stores allowedSessions policy p := by
  obtain ⟨selection, selection', prepared, hnodup, hgrants, homits, hskills, hprepared, rfl⟩ :=
    prepareWithPolicy_ok hok
  have hmanifest : prepared.manifest = adding (without manifest policy.omitted)
      (supplementals policy.skills) (natives policy.skills) := by
    rw [hprepared.selected, hskills.manifest, homits.manifest]
  have hselects : Selects stores allowedSessions 0 prepared.manifest.records prepared.records := by
    rw [hprepared.selected]
    exact hprepared.records
  have hdelivers : Delivers prepared.manifest.instructions prepared.resources
      prepared.instructions := by
    rw [hprepared.selected]
    exact hprepared.instructions
  have hresources : Resolves stores (references prepared.manifest prepared.records)
      prepared.resources := by
    rw [hprepared.selected]
    exact hprepared.resources
  have hforbidden : selection'.forbidden = policy.omitted.filterMap ContextItem.resource? ++
      omittedSkills policy.skills := by
    rw [hskills.forbidden, homits.forbidden]
    rfl
  have hkept : ∀ id ∈ prepared.manifest.records, .record id ∉ policy.omitted := by
    rw [hmanifest]
    intro id hid
    simpa using (List.mem_filter.mp hid).2
  -- an instruction selected was in the manifest, or is the document of a skill
  have hinstruction : ∀ x ∈ prepared.instructions,
      x.reference ∈ manifest.instructions ++ policy.skills.map SkillRequest.instruction ∧
        .instruction x.reference ∉ policy.omitted := by
    intro x hx
    have hmem : x.reference ∈ prepared.manifest.instructions := by
      rw [← hdelivers.references]
      exact List.mem_map_of_mem hx
    rw [hmanifest] at hmem
    rcases List.mem_append.mp hmem with hmem | hmem
    · obtain ⟨hold, hnot⟩ := List.mem_filter.mp hmem
      exact ⟨List.mem_append_left _ hold, by simpa using hnot⟩
    · have hskill := List.mem_of_mem_filter hmem
      have hnot := hskills.kept _ hskill
      rw [homits.omitted, List.nil_append] at hnot
      obtain ⟨skill, hmem, -, heq⟩ := mem_supplementals hskill
      exact ⟨List.mem_append_right _ (heq ▸ List.mem_map_of_mem hmem), hnot⟩
  have hallowed : ∀ r ∈ prepared.resources, r.reference ∉ selection'.forbidden := by
    intro r hr
    have hmem := hprepared.resources.mem.mpr ⟨r, hr, rfl⟩
    exact hprepared.allowed _ hmem
  refine {
    requested := ⟨rfl, rfl⟩
    selected := hmanifest
    omissions := ⟨homits.distinct, fun item hitem => (homits.named item hitem).1⟩
    records := hselects
    final := hselects.mem
    ids := hselects.ids
    instructions := ⟨hdelivers.references, hdelivers.text⟩
    noRecord := ⟨hkept, ?_⟩
    noInstruction := fun x hx => (hinstruction x hx).2
    resources := hresources.references
    noResource := ?_
    granted := hgrants
    delivered := fun x hx => hgrants _ (hinstruction x hx).1 }
  · intro hstores s hs
    apply hkept
    rw [← hselects.ids hstores]
    exact List.mem_map_of_mem hs
  · intro r hr
    have hnot := hallowed r hr
    rw [hforbidden, List.mem_append, not_or] at hnot
    refine ⟨?_, hnot.2⟩
    intro hmem
    exact hnot.1 (List.mem_filterMap.mpr ⟨_, hmem, rfl⟩)

namespace Sample

def user : ActorId := ⟨"user", by decide⟩

def chat : SessionId := ⟨"chat", by decide⟩

def ask : RecordId := ⟨"ask", by decide⟩

def note : RecordId := ⟨"note", by decide⟩

def first (id : ResourceId) : ResourceRef := ⟨id, "1"⟩

def picture : ResourceRef := first ⟨"picture", (rfl : false = false)⟩

def rules : ResourceRef := first ⟨"rules", by decide⟩

def style : ResourceRef := first ⟨"style", by decide⟩

def log : ResourceRef := first ⟨"log", by decide⟩

def search : ResourceRef := first ⟨"search", by decide⟩

def shell : ResourceRef := first ⟨"shell", by decide⟩

/-- Every revision is an empty text, but the picture. -/
def answers : Stores where
  record := fun _ id =>
    if id = ask then
      .ok ⟨⟨ask, chat, none, 0, user, none,
        .message .user ⟨[.text "look", .resource picture]⟩⟩, none, 0, .complete⟩
    else .error .missingRecord
  resource := fun _ reference =>
    .ok ⟨reference, if reference = picture then "image/png" else "text/plain", .empty⟩

/-- The note is missing from the store, and omitted. -/
def manifest : ContextManifest where
  records := [ask, note]
  instructions := [⟨rules, .base⟩, ⟨style, .supplemental⟩]
  resources := [log]

def policy : ContextPolicy where
  skills := [⟨style, .supplementalText⟩, ⟨search, .requireNative⟩,
    ⟨shell, .omitted "unsafe"⟩]
  omissions := [⟨.record note, "lost"⟩, ⟨.resource log, "long"⟩]
  instructionAuthorization := some ⟨user, ⟨user, user,
    [⟨rules, .base⟩, ⟨style, .supplemental⟩,
      ⟨search, .supplemental⟩, ⟨shell, .supplemental⟩]⟩⟩

def tenItems : ContextLimits := ⟨10, 0, by decide, by decide⟩

end Sample

theorem sample_policy_is_applied : ∃ p,
    prepareWithPolicy Sample.manifest Sample.answers [Sample.chat] Sample.tenItems Sample.policy =
      .ok p ∧
    p.manifest = ⟨[Sample.ask], Sample.manifest.instructions, [Sample.search]⟩ ∧
    PolicyApplied Sample.manifest Sample.answers [Sample.chat] Sample.policy p := by
  cases hok : prepareWithPolicy Sample.manifest Sample.answers [Sample.chat] Sample.tenItems
      Sample.policy with
  | ok p =>
    have h := context_policy_is_applied hok
    exact ⟨p, rfl, h.selected.trans (by decide), h⟩
  | error e =>
    have hfails : (prepareWithPolicy Sample.manifest Sample.answers [Sample.chat] Sample.tenItems
        Sample.policy).isOk = true := by decide +kernel
    rw [hok] at hfails
    cases hfails

end Context

end AgentBridge
