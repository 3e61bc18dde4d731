import AgentBridge.Context.Resolution

/-!
# The limits of a preparation are exact

What a preparation returns stays within both limits, and inputs that all resolve make it fail only
when they exceed one of them, and then with the error of a limit.
-/

namespace AgentBridge

open Reasoning

namespace Context

variable {stores : Stores} {allowedSessions : List SessionId} {limits : ContextLimits}
  {forbidden : List ResourceRef}

/-! ## The references of a manifest -/

def Content.reference : Content → Option ResourceRef
  | .text _ => none
  | .resource reference => some reference

/-- The references in the content of a message. -/
def contentReferences (content : List Content) : List ResourceRef :=
  content.filterMap Content.reference

def snapshotReferences (snapshot : Snapshot) : List ResourceRef :=
  contentReferences (attachments snapshot.record.payload)

/-- All references, in the order in which they are resolved. -/
def references (manifest : ContextManifest) (snapshots : List Snapshot) : List ResourceRef :=
  snapshots.flatMap snapshotReferences ++ manifest.instructions.map (·.resource) ++
    manifest.resources

/-- Records, attachments in their messages, instructions and direct resources. -/
def itemCount (manifest : ContextManifest) (snapshots : List Snapshot) : Nat :=
  snapshots.length + (snapshots.flatMap snapshotReferences).length +
    manifest.instructions.length + manifest.resources.length

/-- The snapshots that the store answers for these records, from its `n`-th call on: all final, and
all in sessions that may be read. -/
def Selects (stores : Stores) (allowedSessions : List SessionId) :
    Nat → List RecordId → List Snapshot → Prop
  | _, [], [] => True
  | n, id :: ids, snapshot :: snapshots =>
      stores.record n id = .ok snapshot ∧ snapshot.record.sessionId ∈ allowedSessions ∧
        snapshot.state.isFinal = true ∧ Selects stores allowedSessions (n + 1) ids snapshots
  | _, _, _ => False

theorem Selects.length {n : Nat} {ids : List RecordId} {snapshots : List Snapshot}
    (h : Selects stores allowedSessions n ids snapshots) : snapshots.length = ids.length := by
  induction ids generalizing n snapshots with
  | nil =>
    cases snapshots with
    | nil => rfl
    | cons snapshot snapshots => exact absurd h id
  | cons id ids ih =>
    cases snapshots with
    | nil => exact absurd h fun h => h
    | cons snapshot snapshots => rw [List.length_cons, List.length_cons, ih h.2.2.2]

theorem Selects.mem {n : Nat} {ids : List RecordId} {snapshots : List Snapshot}
    (h : Selects stores allowedSessions n ids snapshots) :
    ∀ s ∈ snapshots, s.record.sessionId ∈ allowedSessions ∧ s.state.isFinal = true := by
  induction ids generalizing n snapshots with
  | nil =>
    cases snapshots with
    | nil => intro s hs; cases hs
    | cons snapshot snapshots => exact absurd h id
  | cons id ids ih =>
    cases snapshots with
    | nil => exact absurd h fun h => h
    | cons snapshot snapshots =>
      intro s hs
      rcases List.mem_cons.mp hs with rfl | hs
      · exact ⟨h.2.1, h.2.2.1⟩
      · exact ih h.2.2.2 s hs

/-- The answers of the store determine the snapshots. -/
theorem Selects.unique {n : Nat} {ids : List RecordId} {snapshots snapshots' : List Snapshot}
    (h : Selects stores allowedSessions n ids snapshots)
    (h' : Selects stores allowedSessions n ids snapshots') : snapshots = snapshots' := by
  induction ids generalizing n snapshots snapshots' with
  | nil =>
    cases snapshots with
    | nil =>
      cases snapshots' with
      | nil => rfl
      | cons s rest => exact absurd h' fun h => h
    | cons s rest => exact absurd h fun h => h
  | cons id ids ih =>
    cases snapshots with
    | nil => exact absurd h fun h => h
    | cons s rest =>
      cases snapshots' with
      | nil => exact absurd h' fun h => h
      | cons s' rest' =>
        have hsame := h.1
        rw [h'.1, Except.ok.injEq] at hsame
        rw [hsame, ih h.2.2.2 h'.2.2.2]

/-- The instructions, each with its resource, which is text. -/
structure Delivers (instructions : List InstructionRef) (resources : List Resource)
    (prepared : List PreparedInstruction) : Prop where
  references : prepared.map (·.reference) = instructions
  text : ∀ x ∈ prepared, x.resource ∈ resources ∧ x.resource.reference = x.reference.resource ∧
    x.resource.isText = true

/-! ## The loops -/

section Loops

variable {refs total : List ResourceRef} {used count : Nat} {p p' : Preparation}
  {fetched : List Resource}

/-- The references met and the items consumed, with what the loop leaves alone. -/
structure Charged (stores : Stores) (limits : ContextLimits) (forbidden : List ResourceRef)
    (refs : List ResourceRef) (used : Nat) (p p' : Preparation) : Prop where
  prepared : p'.At stores limits forbidden refs used
  grows : p.resources <+: p'.resources
  records : p'.records = p.records

theorem Charged.trans {refs' : List ResourceRef} {used' : Nat} {a b c : Preparation}
    (h : Charged stores limits forbidden refs used a b)
    (h' : Charged stores limits forbidden refs' used' b c) :
    Charged stores limits forbidden refs' used' a c :=
  ⟨h'.prepared, h.grows.trans h'.grows, h'.records.trans h.records⟩

/-- Consuming one item and resolving its reference. -/
theorem charge_ok (h : p.At stores limits forbidden refs used) {reference : ResourceRef}
    {r : Resource}
    (hok : (consume p >>= fun p => resolve stores limits forbidden reference p) = .ok (r, p')) :
    Charged stores limits forbidden (refs ++ [reference]) (used + 1) p p' ∧ r ∈ p'.resources ∧
      r.reference = reference ∧ p'.instructions = p.instructions := by
  obtain ⟨q, hconsume, hresolve⟩ := bind_eq_ok.mp hok
  obtain ⟨hq, hrecords, hinstructions, hresources⟩ := h.consume hconsume
  rcases resolve_cases hq reference with ⟨r', q', hr, hto⟩ | ⟨e, he, -⟩
  · rw [hr] at hresolve
    obtain ⟨rfl, rfl⟩ := Prod.mk.inj (Except.ok.inj hresolve)
    refine ⟨⟨hto.prepared, ?_, hto.records.trans hrecords⟩, hto.mem, hto.reference,
      hto.instructions.trans hinstructions⟩
    rw [← hresources]
    exact hto.grows
  · rw [he] at hresolve
    cases hresolve

theorem charge_error (h : p.At stores limits forbidden refs used)
    (htotal : Resolves stores total fetched) (hallowed : ∀ r ∈ total, r ∉ forbidden)
    {reference : ResourceRef} (hfront : refs ++ [reference] <+: total)
    (hcount : used + 1 ≤ count) {e : ContextError}
    (he : (consume p >>= fun p => resolve stores limits forbidden reference p) = .error e) :
    Exceeds limits count fetched e := by
  cases hconsume : consume p with
  | error e' =>
    rw [hconsume, error_bind] at he
    rw [← Except.error.inj he]
    exact h.consume_exceeds hcount hconsume
  | ok q =>
    rw [hconsume, ok_bind] at he
    obtain ⟨hq, -⟩ := h.consume hconsume
    rcases resolve_cases hq reference with ⟨r', q', hr, -⟩ | ⟨e', he', hwhy⟩
    · rw [hr] at he
      cases he
    · rw [he'] at he
      rw [← Except.error.inj he]
      exact hq.unresolved_exceeds htotal hallowed hfront hwhy

theorem resolveContent_cons (reference : ResourceRef) (content : List Content) (p : Preparation) :
    resolveContent stores limits forbidden (.resource reference :: content) p =
      ((consume p >>= fun p => resolve stores limits forbidden reference p) >>= fun x =>
        resolveContent stores limits forbidden content x.2) := by
  rw [bind_assoc]
  rfl

theorem resolveContent_ok {content : List Content} (h : p.At stores limits forbidden refs used)
    (hok : resolveContent stores limits forbidden content p = .ok p') :
    Charged stores limits forbidden (refs ++ contentReferences content)
      (used + (contentReferences content).length) p p' ∧ p'.instructions = p.instructions := by
  induction content generalizing refs used p with
  | nil =>
    obtain rfl := Except.ok.inj hok
    rw [contentReferences, List.filterMap_nil, List.append_nil]
    exact ⟨⟨h, List.prefix_refl _, rfl⟩, rfl⟩
  | cons c content ih =>
    cases c with
    | text s => exact ih h hok
    | resource reference =>
      rw [resolveContent_cons] at hok
      obtain ⟨⟨r, q⟩, hcharge, hrest⟩ := bind_eq_ok.mp hok
      obtain ⟨hq, -, -, hinstructions⟩ := charge_ok h hcharge
      obtain ⟨hend, hinstructions'⟩ := ih hq.prepared hrest
      refine ⟨?_, hinstructions'.trans hinstructions⟩
      have hrefs : refs ++ contentReferences (.resource reference :: content) =
          refs ++ [reference] ++ contentReferences content := by
        simp [contentReferences, Content.reference]
      have hlength : used + (contentReferences (.resource reference :: content)).length =
          used + 1 + (contentReferences content).length := by
        simp only [contentReferences, List.filterMap_cons, Content.reference, List.length_cons]
        omega
      rw [hrefs, hlength]
      exact hq.trans hend

theorem resolveContent_error {content : List Content} (h : p.At stores limits forbidden refs used)
    (htotal : Resolves stores total fetched) (hallowed : ∀ r ∈ total, r ∉ forbidden)
    (hfront : refs ++ contentReferences content <+: total)
    (hcount : used + (contentReferences content).length ≤ count) {e : ContextError}
    (he : resolveContent stores limits forbidden content p = .error e) :
    Exceeds limits count fetched e := by
  induction content generalizing refs used p with
  | nil => cases he
  | cons c content ih =>
    cases c with
    | text s => exact ih h hfront hcount he
    | resource reference =>
      have hrefs : refs ++ contentReferences (.resource reference :: content) =
          refs ++ [reference] ++ contentReferences content := by
        simp [contentReferences, Content.reference]
      have hlength : (contentReferences (.resource reference :: content)).length =
          (contentReferences content).length + 1 := by
        simp [contentReferences, Content.reference]
      rw [hrefs] at hfront
      rw [resolveContent_cons] at he
      cases hcharge : (consume p >>= fun p => resolve stores limits forbidden reference p) with
      | error e' =>
        rw [hcharge, error_bind] at he
        rw [← Except.error.inj he]
        exact charge_error h htotal hallowed ((List.prefix_append _ _).trans hfront) (by omega)
          hcharge
      | ok x =>
        obtain ⟨r, q⟩ := x
        rw [hcharge, ok_bind] at he
        exact ih (charge_ok h hcharge).1.prepared hfront (by omega) he

/-- The body of the loop over the records, after the store's answer. -/
theorem resolveRecords_cons (id : RecordId) (ids : List RecordId) (p : Preparation) :
    resolveRecords stores allowedSessions limits forbidden (id :: ids) p =
      (consume p >>= fun p =>
        match stores.record p.records.length id with
        | .error e => .error (.store e)
        | .ok snapshot =>
            if snapshot.record.sessionId ∉ allowedSessions then .error (.recordOutsideScope id)
            else if snapshot.state.isFinal = false then .error (.openRecord id)
            else resolveContent stores limits forbidden (attachments snapshot.record.payload) p >>=
              fun p => resolveRecords stores allowedSessions limits forbidden ids
                { p with records := p.records ++ [snapshot] }) := rfl

theorem resolveRecords_ok {ids : List RecordId} (h : p.At stores limits forbidden refs used)
    (hok : resolveRecords stores allowedSessions limits forbidden ids p = .ok p') :
    ∃ snapshots, Selects stores allowedSessions p.records.length ids snapshots ∧
      p'.records = p.records ++ snapshots ∧ p'.instructions = p.instructions ∧
      p.resources <+: p'.resources ∧
      p'.At stores limits forbidden (refs ++ snapshots.flatMap snapshotReferences)
        (used + snapshots.length + (snapshots.flatMap snapshotReferences).length) := by
  induction ids generalizing refs used p with
  | nil =>
    obtain rfl := Except.ok.inj hok
    refine ⟨[], trivial, by simp, rfl, List.prefix_refl _, ?_⟩
    simpa using h
  | cons id ids ih =>
    rw [resolveRecords_cons] at hok
    obtain ⟨q, hconsume, hok⟩ := bind_eq_ok.mp hok
    obtain ⟨hq, hrecords, hinstructions, hresources⟩ := h.consume hconsume
    cases hstore : stores.record q.records.length id with
    | error e => simp only [hstore, reduceCtorEq] at hok
    | ok snapshot =>
      simp only [hstore, ite_error_eq_ok, not_not, Bool.not_eq_false] at hok
      obtain ⟨hsession, hfinal, hok⟩ := hok
      obtain ⟨q', hcontent, hrest⟩ := bind_eq_ok.mp hok
      obtain ⟨hcharged, hinstructions'⟩ := resolveContent_ok hq hcontent
      have hq' : Preparation.At stores limits forbidden (refs ++ snapshotReferences snapshot)
          (used + 1 + (snapshotReferences snapshot).length)
          { q' with records := q'.records ++ [snapshot] } := { hcharged.prepared with }
      obtain ⟨snapshots, hselects, hend, hinstructions'', hgrows, hat⟩ := ih hq' hrest
      have hbefore : q'.records = p.records := hcharged.records.trans hrecords
      refine ⟨snapshot :: snapshots, ⟨?_, hsession, hfinal, ?_⟩, ?_, ?_, ?_, ?_⟩
      · rw [← hrecords, hstore]
      · simpa [hbefore] using hselects
      · rw [hend]
        simp [hbefore]
      · exact hinstructions''.trans (hinstructions'.trans hinstructions)
      · rw [← hresources]
        exact hcharged.grows.trans hgrows
      · have hrefs : refs ++ (snapshot :: snapshots).flatMap snapshotReferences =
            refs ++ snapshotReferences snapshot ++ snapshots.flatMap snapshotReferences := by
          simp
        have hused : used + (snapshot :: snapshots).length +
            ((snapshot :: snapshots).flatMap snapshotReferences).length =
            used + 1 + (snapshotReferences snapshot).length + snapshots.length +
              (snapshots.flatMap snapshotReferences).length := by
          simp only [List.length_cons, List.flatMap_cons, List.length_append]
          omega
        rw [hrefs, hused]
        exact hat

theorem resolveRecords_error {ids : List RecordId} {snapshots : List Snapshot}
    (h : p.At stores limits forbidden refs used) (htotal : Resolves stores total fetched)
    (hallowed : ∀ r ∈ total, r ∉ forbidden)
    (hselects : Selects stores allowedSessions p.records.length ids snapshots)
    (hfront : refs ++ snapshots.flatMap snapshotReferences <+: total)
    (hcount : used + snapshots.length + (snapshots.flatMap snapshotReferences).length ≤ count)
    {e : ContextError}
    (he : resolveRecords stores allowedSessions limits forbidden ids p = .error e) :
    Exceeds limits count fetched e := by
  induction ids generalizing refs used p snapshots with
  | nil => cases he
  | cons id ids ih =>
    cases snapshots with
    | nil => exact absurd hselects fun h => h
    | cons snapshot snapshots =>
    obtain ⟨hstore, hsession, hfinal, hrest⟩ := hselects
    rw [List.flatMap_cons, ← List.append_assoc] at hfront
    rw [List.length_cons, List.flatMap_cons, List.length_append] at hcount
    rw [resolveRecords_cons] at he
    cases hconsume : consume p with
    | error e' =>
      rw [hconsume, error_bind] at he
      rw [← Except.error.inj he]
      exact h.consume_exceeds (by omega) hconsume
    | ok q =>
      obtain ⟨hq, hrecords, -, -⟩ := h.consume hconsume
      rw [hconsume, ok_bind] at he
      rw [← hrecords] at hstore hrest
      simp only [hstore, hsession, hfinal, not_true_eq_false, ↓reduceIte, Bool.true_eq_false] at he
      cases hcontent : resolveContent stores limits forbidden (attachments snapshot.record.payload)
          q with
      | error e' =>
        rw [hcontent, error_bind] at he
        rw [← Except.error.inj he]
        have hlength : used + 1 + (contentReferences (attachments snapshot.record.payload)).length ≤
            count := by
          have : (snapshotReferences snapshot).length =
            (contentReferences (attachments snapshot.record.payload)).length := rfl
          omega
        exact resolveContent_error hq htotal hallowed ((List.prefix_append _ _).trans hfront)
          hlength hcontent
      | ok q' =>
        rw [hcontent, ok_bind] at he
        obtain ⟨hcharged, -⟩ := resolveContent_ok hq hcontent
        have hq' : Preparation.At stores limits forbidden (refs ++ snapshotReferences snapshot)
            (used + 1 + (snapshotReferences snapshot).length)
            { q' with records := q'.records ++ [snapshot] } := { hcharged.prepared with }
        have hnext : Selects stores allowedSessions (q'.records ++ [snapshot]).length ids
            snapshots := by
          rw [List.length_append, List.length_singleton, hcharged.records]
          exact hrest
        exact ih hq' hnext hfront (by omega) he

theorem resolveInstructions_cons (instruction : InstructionRef) (instructions : List InstructionRef)
    (p : Preparation) :
    resolveInstructions stores limits forbidden (instruction :: instructions) p =
      ((consume p >>= fun p => resolve stores limits forbidden instruction.resource p) >>= fun x =>
        if x.1.isText then resolveInstructions stores limits forbidden instructions
          { x.2 with instructions := x.2.instructions ++ [⟨instruction, x.1⟩] }
        else .error (.invalidInstruction instruction.resource)) := by
  rw [bind_assoc]
  rfl

theorem resolveInstructions_ok {instructions : List InstructionRef}
    (h : p.At stores limits forbidden refs used)
    (hok : resolveInstructions stores limits forbidden instructions p = .ok p') :
    Charged stores limits forbidden (refs ++ instructions.map (·.resource))
      (used + instructions.length) p p' ∧
    ∃ prepared, p'.instructions = p.instructions ++ prepared ∧
      Delivers instructions p'.resources prepared := by
  induction instructions generalizing refs used p with
  | nil =>
    obtain rfl := Except.ok.inj hok
    rw [List.map_nil, List.append_nil]
    exact ⟨⟨h, List.prefix_refl _, rfl⟩, [], by simp, rfl, by simp⟩
  | cons instruction instructions ih =>
    rw [resolveInstructions_cons] at hok
    obtain ⟨⟨r, q⟩, hcharge, hrest⟩ := bind_eq_ok.mp hok
    obtain ⟨hq, hmem, hreference, hinstructions⟩ := charge_ok h hcharge
    by_cases htext : r.isText = true
    · rw [if_pos htext] at hrest
      have hq' : Charged stores limits forbidden (refs ++ [instruction.resource]) (used + 1) p
          { q with instructions := q.instructions ++ [⟨instruction, r⟩] } :=
        ⟨{ hq.prepared with }, hq.grows, hq.records⟩
      obtain ⟨hend, prepared, hprepared, hdelivers⟩ := ih hq'.prepared hrest
      refine ⟨?_, ⟨instruction, r⟩ :: prepared, ?_, ?_, ?_⟩
      · have hrefs : refs ++ (instruction :: instructions).map (·.resource) =
            refs ++ [instruction.resource] ++ instructions.map (·.resource) := by simp
        have hlength : used + (instruction :: instructions).length =
            used + 1 + instructions.length := by
          rw [List.length_cons]
          omega
        rw [hrefs, hlength]
        exact hq'.trans hend
      · rw [hprepared, ← hinstructions]
        simp
      · rw [List.map_cons, hdelivers.references]
      · intro x hx
        rcases List.mem_cons.mp hx with rfl | hx
        · exact ⟨hend.grows.subset hmem, hreference, htext⟩
        · exact hdelivers.text x hx
    · rw [if_neg htext] at hrest
      cases hrest

theorem resolveInstructions_error {instructions : List InstructionRef}
    (h : p.At stores limits forbidden refs used) (htotal : Resolves stores total fetched)
    (hallowed : ∀ r ∈ total, r ∉ forbidden)
    (htext : ∀ instruction ∈ instructions, ∀ r ∈ fetched, r.reference = instruction.resource →
      r.isText = true)
    (hfront : refs ++ instructions.map (·.resource) <+: total)
    (hcount : used + instructions.length ≤ count) {e : ContextError}
    (he : resolveInstructions stores limits forbidden instructions p = .error e) :
    Exceeds limits count fetched e := by
  induction instructions generalizing refs used p with
  | nil => cases he
  | cons instruction instructions ih =>
    have hrefs : refs ++ (instruction :: instructions).map (·.resource) =
        refs ++ [instruction.resource] ++ instructions.map (·.resource) := by simp
    rw [hrefs] at hfront
    rw [List.length_cons] at hcount
    rw [resolveInstructions_cons] at he
    cases hcharge :
        (consume p >>= fun p => resolve stores limits forbidden instruction.resource p) with
    | error e' =>
      rw [hcharge, error_bind] at he
      rw [← Except.error.inj he]
      exact charge_error h htotal hallowed ((List.prefix_append _ _).trans hfront) (by omega)
        hcharge
    | ok x =>
      obtain ⟨r, q⟩ := x
      obtain ⟨hq, hmem, hreference, -⟩ := charge_ok h hcharge
      have hgrown := hq.prepared.resolves.prefix_of_prefix htotal
        ((List.prefix_append _ _).trans hfront)
      have hr : r.isText = true :=
        htext instruction (by simp) r (hgrown.subset hmem) hreference
      rw [hcharge, ok_bind, if_pos hr] at he
      have hq' : Preparation.At stores limits forbidden (refs ++ [instruction.resource]) (used + 1)
          { q with instructions := q.instructions ++ [⟨instruction, r⟩] } :=
        { hq.prepared with }
      exact ih hq' (fun other ho => htext other (by simp [ho])) hfront (by omega) he

theorem resolveResources_cons (reference : ResourceRef) (others : List ResourceRef)
    (p : Preparation) :
    resolveResources stores limits forbidden (reference :: others) p =
      ((consume p >>= fun p => resolve stores limits forbidden reference p) >>= fun x =>
        resolveResources stores limits forbidden others x.2) := by
  rw [bind_assoc]
  rfl

theorem resolveResources_ok {others : List ResourceRef}
    (h : p.At stores limits forbidden refs used)
    (hok : resolveResources stores limits forbidden others p = .ok p') :
    Charged stores limits forbidden (refs ++ others) (used + others.length) p p' ∧
      p'.instructions = p.instructions := by
  induction others generalizing refs used p with
  | nil =>
    obtain rfl := Except.ok.inj hok
    rw [List.append_nil]
    exact ⟨⟨h, List.prefix_refl _, rfl⟩, rfl⟩
  | cons reference others ih =>
    rw [resolveResources_cons] at hok
    obtain ⟨⟨r, q⟩, hcharge, hrest⟩ := bind_eq_ok.mp hok
    obtain ⟨hq, -, -, hinstructions⟩ := charge_ok h hcharge
    obtain ⟨hend, hinstructions'⟩ := ih hq.prepared hrest
    refine ⟨?_, hinstructions'.trans hinstructions⟩
    have hlength : used + (reference :: others).length = used + 1 + others.length := by
      rw [List.length_cons]
      omega
    rw [List.append_cons, hlength]
    exact hq.trans hend

theorem resolveResources_error {others : List ResourceRef}
    (h : p.At stores limits forbidden refs used) (htotal : Resolves stores total fetched)
    (hallowed : ∀ r ∈ total, r ∉ forbidden) (hfront : refs ++ others <+: total)
    (hcount : used + others.length ≤ count) {e : ContextError}
    (he : resolveResources stores limits forbidden others p = .error e) :
    Exceeds limits count fetched e := by
  induction others generalizing refs used p with
  | nil => cases he
  | cons reference others ih =>
    rw [List.append_cons] at hfront
    rw [List.length_cons] at hcount
    rw [resolveResources_cons] at he
    cases hcharge : (consume p >>= fun p => resolve stores limits forbidden reference p) with
    | error e' =>
      rw [hcharge, error_bind] at he
      rw [← Except.error.inj he]
      exact charge_error h htotal hallowed ((List.prefix_append _ _).trans hfront) (by omega)
        hcharge
    | ok x =>
      rw [hcharge, ok_bind] at he
      exact ih (charge_ok h hcharge).1.prepared hfront (by omega) he

end Loops

/-! ## A whole preparation -/

/-- What a preparation of a manifest returns. -/
structure Prepared (stores : Stores) (allowedSessions : List SessionId) (limits : ContextLimits)
    (forbidden : List ResourceRef) (manifest : ContextManifest) (p : PreparedContext) : Prop where
  selected : p.manifest = manifest
  records : Selects stores allowedSessions 0 manifest.records p.records
  instructions : Delivers manifest.instructions p.resources p.instructions
  resources : Resolves stores (references manifest p.records) p.resources
  allowed : ∀ reference ∈ references manifest p.records, reference ∉ forbidden
  bytes : p.resourceBytes = totalBytes p.resources
  itemLimit : itemCount manifest p.records ≤ limits.maxItems
  byteLimit : totalBytes p.resources ≤ limits.maxResourceBytes

theorem checkCount_cases (manifest : ContextManifest) (limits : ContextLimits) :
    (manifest.records.length + manifest.instructions.length + manifest.resources.length ≤
        limits.maxItems ∧ checkCount manifest limits = .ok ()) ∨
      (limits.maxItems <
          manifest.records.length + manifest.instructions.length + manifest.resources.length ∧
        checkCount manifest limits = .error .itemLimit) := by
  have hmax := limits.maxItems_le
  unfold checkCount
  by_cases h : manifest.records.length + manifest.instructions.length ≤ usizeMax
  · have hadd : checkedAdd manifest.records.length manifest.instructions.length =
        some (manifest.records.length + manifest.instructions.length) :=
      checkedAdd_eq_some.mpr ⟨h, rfl⟩
    rw [hadd, Option.bind_some, checkedAdd_filter hmax]
    by_cases hle : manifest.records.length + manifest.instructions.length +
        manifest.resources.length ≤ limits.maxItems
    · exact .inl ⟨hle, by rw [if_pos hle]⟩
    · exact .inr ⟨by omega, by rw [if_neg hle]⟩
  · have hadd : checkedAdd manifest.records.length manifest.instructions.length = none := by
      unfold checkedAdd
      exact if_neg h
    rw [hadd]
    exact .inr ⟨by omega, rfl⟩

theorem prepareInner_ok {manifest : ContextManifest} {p : PreparedContext}
    (hok : prepareInner stores allowedSessions limits forbidden manifest = .ok p) :
    Prepared stores allowedSessions limits forbidden manifest p ∧
      p.requestedManifest = manifest ∧ p.policy = .default := by
  unfold prepareInner at hok
  obtain ⟨⟨⟩, -, hok⟩ := bind_eq_ok.mp hok
  obtain ⟨a, hrecords, hok⟩ := bind_eq_ok.mp hok
  obtain ⟨b, hinstructions, hok⟩ := bind_eq_ok.mp hok
  obtain ⟨c, hresources, hok⟩ := bind_eq_ok.mp hok
  obtain rfl := Except.ok.inj hok
  obtain ⟨snapshots, hselects, hsnapshots, hempty, -, ha⟩ :=
    resolveRecords_ok Preparation.At.start hrecords
  obtain ⟨hb, prepared, hprepared, hdelivers⟩ := resolveInstructions_ok ha hinstructions
  obtain ⟨hc, hc'⟩ := resolveResources_ok hb.prepared hresources
  have hrec : c.records = snapshots := by
    rw [hc.records, hb.records, hsnapshots]
    rfl
  have hins : c.instructions = prepared := by
    rw [hc', hprepared, hempty]
    rfl
  have hat := hc.prepared
  rw [List.nil_append] at hat
  refine ⟨⟨rfl, ?_, ?_, ?_, ?_, hat.bytes, ?_, ?_⟩, rfl, rfl⟩
  · rw [hrec]
    exact hselects
  · rw [hins]
    exact ⟨hdelivers.references, fun x hx =>
      ⟨hc.grows.subset (hdelivers.text x hx).1, (hdelivers.text x hx).2⟩⟩
  · rw [hrec]
    exact hat.resolves
  · rw [hrec]
    exact hat.allowed
  · have := hat.remaining
    show itemCount manifest c.records ≤ limits.maxItems
    rw [hrec, itemCount]
    omega
  · rw [← hat.bytes]
    exact hat.bound

/-- Inputs that all resolve fail only in a limit that they exceed. -/
theorem prepareInner_error {manifest : ContextManifest} {snapshots : List Snapshot}
    {fetched : List Resource}
    (hselects : Selects stores allowedSessions 0 manifest.records snapshots)
    (htotal : Resolves stores (references manifest snapshots) fetched)
    (hallowed : ∀ r ∈ references manifest snapshots, r ∉ forbidden)
    (htext : ∀ instruction ∈ manifest.instructions, ∀ r ∈ fetched,
      r.reference = instruction.resource → r.isText = true) {e : ContextError}
    (he : prepareInner stores allowedSessions limits forbidden manifest = .error e) :
    Exceeds limits (itemCount manifest snapshots) fetched e := by
  have hlength := hselects.length
  have hrefs : references manifest snapshots = snapshots.flatMap snapshotReferences ++
      manifest.instructions.map (·.resource) ++ manifest.resources := rfl
  unfold prepareInner at he
  rcases checkCount_cases manifest limits with ⟨-, hcheck⟩ | ⟨hlt, hcheck⟩
  · rw [hcheck, ok_bind] at he
    cases ha : resolveRecords stores allowedSessions limits forbidden manifest.records
        (.start limits) with
    | error e' =>
      rw [ha, error_bind] at he
      rw [← Except.error.inj he]
      refine resolveRecords_error Preparation.At.start htotal hallowed hselects ?_ ?_ ha
      · rw [hrefs, List.nil_append, List.append_assoc]
        exact List.prefix_append _ _
      · unfold itemCount
        omega
    | ok a =>
      rw [ha, ok_bind] at he
      obtain ⟨snapshots', hselects', -, -, -, hat⟩ := resolveRecords_ok Preparation.At.start ha
      have hsame : snapshots' = snapshots := hselects'.unique hselects
      rw [hsame, List.nil_append] at hat
      cases hb : resolveInstructions stores limits forbidden manifest.instructions a with
      | error e' =>
        rw [hb, error_bind] at he
        rw [← Except.error.inj he]
        refine resolveInstructions_error hat htotal hallowed htext ?_ ?_ hb
        · rw [hrefs]
          exact List.prefix_append _ _
        · unfold itemCount
          omega
      | ok b =>
        rw [hb, ok_bind] at he
        have hbat := (resolveInstructions_ok hat hb).1.prepared
        cases hc : resolveResources stores limits forbidden manifest.resources b with
        | error e' =>
          rw [hc, error_bind] at he
          rw [← Except.error.inj he]
          refine resolveResources_error hbat htotal hallowed (List.prefix_refl _) ?_ hc
          unfold itemCount
          omega
        | ok c =>
          rw [hc, ok_bind] at he
          cases he
  · rw [hcheck, error_bind] at he
    refine .inl ⟨(Except.error.inj he).symm, ?_⟩
    unfold itemCount
    omega

/-- Both limits are exact: a context returned keeps to them, has each revision referenced once, in
the order of the first references, and counts its bytes exactly; and inputs that all resolve are
prepared if and only if they keep to both, and fail with the error of a limit otherwise. -/
theorem context_limits_are_exact (manifest : ContextManifest) (stores : Stores)
    (allowedSessions : List SessionId) (limits : ContextLimits) :
    (∀ p, prepare manifest stores allowedSessions limits = .ok p →
      Selects stores allowedSessions 0 manifest.records p.records ∧
      itemCount manifest p.records ≤ limits.maxItems ∧
      p.resources.map (·.reference) = (references manifest p.records).eraseDups ∧
      (∀ i r, p.resources[i]? = some r → stores.resource i r.reference = .ok r) ∧
      p.resourceBytes = totalBytes p.resources ∧
      p.resourceBytes ≤ limits.maxResourceBytes) ∧
    ∀ snapshots fetched, Selects stores allowedSessions 0 manifest.records snapshots →
      Resolves stores (references manifest snapshots) fetched →
      (∀ instruction ∈ manifest.instructions, ∀ r ∈ fetched,
        r.reference = instruction.resource → r.isText = true) →
      ((∃ p, prepare manifest stores allowedSessions limits = .ok p) ↔
        itemCount manifest snapshots ≤ limits.maxItems ∧
          totalBytes fetched ≤ limits.maxResourceBytes) ∧
      (limits.maxItems < itemCount manifest snapshots ∨
          limits.maxResourceBytes < totalBytes fetched →
        prepare manifest stores allowedSessions limits = .error .itemLimit ∨
          prepare manifest stores allowedSessions limits = .error .resourceByteLimit) := by
  constructor
  · intro p hok
    obtain ⟨h, -⟩ := prepareInner_ok hok
    exact ⟨h.records, h.itemLimit, h.resources.references, h.resources.fetched, h.bytes,
      h.bytes ▸ h.byteLimit⟩
  intro snapshots fetched hselects htotal htext
  have hbounds : ∀ p, prepare manifest stores allowedSessions limits = .ok p →
      itemCount manifest snapshots ≤ limits.maxItems ∧
        totalBytes fetched ≤ limits.maxResourceBytes := by
    intro p hok
    obtain ⟨h, -⟩ := prepareInner_ok hok
    have hsame : p.records = snapshots := h.records.unique hselects
    have hresolves := h.resources
    rw [hsame] at hresolves
    have hfetched : fetched <+: p.resources :=
      htotal.prefix_of_prefix hresolves (List.prefix_refl _)
    have hitems := h.itemLimit
    rw [hsame] at hitems
    exact ⟨hitems, (totalBytes_le_of_front hfetched).trans h.byteLimit⟩
  have hexceeds : ∀ e, prepare manifest stores allowedSessions limits = .error e →
      Exceeds limits (itemCount manifest snapshots) fetched e :=
    fun e he => prepareInner_error hselects htotal (fun _ _ h => by cases h) htext he
  cases hresult : prepare manifest stores allowedSessions limits with
  | ok p =>
    have hb := hbounds p hresult
    refine ⟨⟨fun _ => hb, fun _ => ⟨p, rfl⟩⟩, ?_⟩
    intro hexceeded
    omega
  | error e =>
    have hex := hexceeds e hresult
    refine ⟨⟨?_, ?_⟩, fun _ => ?_⟩
    · rintro ⟨p, hp⟩
      cases hp
    · rintro ⟨hitems, hbytes⟩
      rcases hex with ⟨-, hlt⟩ | ⟨-, hlt⟩
      · omega
      · omega
    · rcases hex with ⟨rfl, -⟩ | ⟨rfl, -⟩
      · exact .inl rfl
      · exact .inr rfl

namespace Sample

def room : SessionId := ⟨"room", by decide⟩

def question : RecordId := ⟨"question", (rfl : false = false)⟩

def guide : ResourceRef := ⟨⟨"guide", (rfl : false = false)⟩, "1"⟩

def sketch : ResourceRef := ⟨⟨"sketch", (rfl : false = false)⟩, "1"⟩

def guideText : Resource := ⟨guide, "text/markdown; charset=utf-8", "brief".toUTF8⟩

def sketchBytes : Resource := ⟨sketch, "image/png", ⟨#[1, 2]⟩⟩

def asked : Snapshot :=
  ⟨⟨question, room, none, 0, ⟨"user", (rfl : false = false)⟩, none,
    .message .user ⟨[.resource guide, .text "so?", .resource sketch]⟩⟩, none, 0, .complete⟩

def shelf : Stores where
  record := fun _ _ => .ok asked
  resource := fun _ reference => .ok (if reference = guide then guideText else sketchBytes)

/-- The guide is attached to the question, an instruction, and a resource of its own. -/
def shared : ContextManifest where
  records := [question]
  instructions := [⟨guide, .base⟩]
  resources := [guide]

/-- Five items, and seven bytes. -/
def tight : ContextLimits := ⟨5, 7, by decide, by decide⟩

end Sample

/-- A revision met three times is three items, and its bytes count once. -/
theorem shared_revision_fits :
    (∃ p, prepare Sample.shared Sample.shelf [Sample.room] Sample.tight = .ok p) ∧
    ∀ limits : ContextLimits, limits.maxItems < 5 ∨ limits.maxResourceBytes < 7 →
      prepare Sample.shared Sample.shelf [Sample.room] limits = .error .itemLimit ∨
        prepare Sample.shared Sample.shelf [Sample.room] limits = .error .resourceByteLimit := by
  have hselects : Selects Sample.shelf [Sample.room] 0 Sample.shared.records [Sample.asked] :=
    ⟨rfl, by decide, rfl, trivial⟩
  have hresolves : Resolves Sample.shelf (references Sample.shared [Sample.asked])
      [Sample.guideText, Sample.sketchBytes] := by
    refine ⟨by decide, fun i r hr => ?_⟩
    have hmem : r ∈ [Sample.guideText, Sample.sketchBytes] := List.mem_of_getElem? hr
    simp only [List.mem_cons, List.not_mem_nil, or_false] at hmem
    rcases hmem with rfl | rfl
    · rfl
    · rfl
  have htext : ∀ instruction ∈ Sample.shared.instructions,
      ∀ r ∈ [Sample.guideText, Sample.sketchBytes],
        r.reference = instruction.resource → r.isText = true := by
    intro instruction hinstruction r hmem hreference
    have hutf8 : "brief".toUTF8.validateUTF8 = true :=
      ByteArray.validateUTF8_eq_true_iff.mpr "brief".isValidUTF8
    simp only [List.mem_cons, List.not_mem_nil, or_false] at hmem
    rcases hmem with rfl | rfl
    · exact (Bool.and_eq_true _ _).mpr ⟨by decide, hutf8⟩
    · obtain rfl := List.mem_singleton.mp hinstruction
      exact absurd hreference (by decide)
  have hexact := fun limits => (context_limits_are_exact Sample.shared Sample.shelf [Sample.room]
    limits).2 _ _ hselects hresolves htext
  exact ⟨(hexact Sample.tight).1.mpr (by decide), fun limits => (hexact limits).2⟩

end Context

end AgentBridge
