import AgentBridge.Acp.SetOption
import AgentBridge.Reasoning.Except

/-!
# Configurations are never stale or guessed

At most one request of a session waits for its reply.  While it does, or when the last report was
not understood, no run is prepared or dispatched; otherwise the configuration of a run is the last
one reported, and holds as requested what the agent confirmed in its reply.
-/

namespace AgentBridge

open Reasoning

namespace Acp

/-! ## Catalogs -/

/-- The choices of an option as the agent lists them, those of a group with its name. -/
def ConfigKind.listed : ConfigKind → List (SelectOption × Option String)
  | .select _ (.ungrouped options) => options.map fun choice => (choice, none)
  | .select _ (.grouped groups) =>
      groups.flatMap fun group => group.2.map fun choice => (choice, some group.1)
  | _ => []

/-- A reported option that `normalize` understands: of a known kind, and not blank anywhere. -/
structure Understood (option : SessionConfigOption) : Prop where
  named : isBlank option.id = false
  known : option.kind ≠ .other ∧ ∀ value, option.kind ≠ .select value .other
  distinct : (option.kind.listed.map (·.1.value)).Nodup
  valued : ∀ choice ∈ option.kind.listed, isBlank choice.1.value = false

/-- An option as a run sees it says what the agent reported. -/
structure Shows (option : SessionConfigOption) (o : ConfigOption) : Prop where
  id : o.id = option.id
  label : o.label = option.name
  description : o.description = option.description
  category : o.category = option.category
  current : match option.kind with
    | .boolean value => o.current = .boolean value
    | .select value _ => o.current = .select value
    | .other => False
  choices : o.choices = option.kind.listed.map fun choice =>
    ⟨choice.1.value, choice.1.name, choice.1.description, choice.2⟩

/-- Ids and choices that can be told apart. -/
structure Catalog (options : List ConfigOption) : Prop where
  distinct : (options.map (·.id)).Nodup
  named : ∀ o ∈ options, isBlank o.id = false
  choices : ∀ o ∈ options, (o.choices.map (·.value)).Nodup ∧
    ∀ choice ∈ o.choices, isBlank choice.value = false

theorem anyInvalidChoice_eq_false {choices : List ConfigChoice} {values : List String} :
    anyInvalidChoice choices values = false ↔
      (choices.map (·.value)).Nodup ∧
        ∀ choice ∈ choices, isBlank choice.value = false ∧ choice.value ∉ values := by
  induction choices generalizing values with
  | nil => simp [anyInvalidChoice]
  | cons choice choices ih =>
    rw [List.forall_mem_cons, List.map_cons, List.nodup_cons]
    simp only [anyInvalidChoice, Bool.or_eq_false_iff, List.contains_eq_mem,
      decide_eq_false_iff_not, ih, List.mem_cons, not_or, List.mem_map, not_exists, not_and]
    constructor
    · rintro ⟨⟨hblank, hfresh⟩, hnodup, hrest⟩
      exact ⟨⟨fun other hmem => (hrest other hmem).2.1, hnodup⟩, ⟨hblank, hfresh⟩,
        fun other hmem => ⟨(hrest other hmem).1, (hrest other hmem).2.2⟩⟩
    · rintro ⟨⟨hother, hnodup⟩, hchoice, hrest⟩
      exact ⟨hchoice, hnodup,
        fun other hmem => ⟨(hrest other hmem).1, hother other hmem, (hrest other hmem).2⟩⟩

theorem selectChoices_eq (value : String) {options : SelectOptions} (h : options ≠ .other) :
    selectChoices options = .ok ((ConfigKind.select value options).listed.map fun choice =>
      ⟨choice.1.value, choice.1.name, choice.1.description, choice.2⟩) := by
  cases options with
  | ungrouped options =>
    simp only [selectChoices, addChoices, ConfigKind.listed, List.map_map]
    rfl
  | grouped groups =>
    simp only [selectChoices, addChoices, ConfigKind.listed, List.map_flatMap, List.map_map]
    rfl
  | other => exact absurd rfl h

/-- The choices that an option shows, when they can be told apart. -/
theorem anyInvalidChoice_shown (listed : List (SelectOption × Option String)) :
    anyInvalidChoice (listed.map fun choice =>
        ⟨choice.1.value, choice.1.name, choice.1.description, choice.2⟩) [] = false ↔
      (listed.map (·.1.value)).Nodup ∧ ∀ choice ∈ listed, isBlank choice.1.value = false := by
  rw [anyInvalidChoice_eq_false, List.map_map, List.forall_mem_map]
  simp only [List.not_mem_nil, not_false_eq_true, and_true]
  rfl

/-- One option: exactly what is understood passes, and it is shown as it was reported. -/
theorem currentAndChoices_eq_ok {option : SessionConfigOption} {current : ConfigValue}
    {choices : List ConfigChoice} :
    isBlank option.id = false ∧ currentAndChoices option.kind = .ok (current, choices) ↔
      Understood option ∧ Shows option
        ⟨option.id, option.name, option.description, option.category, current, choices⟩ := by
  obtain ⟨id, name, description, category, kind⟩ := option
  cases kind with
  | boolean value =>
    constructor
    · rintro ⟨hnamed, h⟩
      cases h
      exact ⟨⟨hnamed, ⟨nofun, nofun⟩, List.nodup_nil, nofun⟩, rfl, rfl, rfl, rfl, rfl, rfl⟩
    · rintro ⟨hunderstood, hshows⟩
      have hcurrent : current = .boolean value := hshows.current
      have hchoices : choices = [] := hshows.choices
      rw [hcurrent, hchoices]
      exact ⟨hunderstood.named, rfl⟩
  | other =>
    constructor
    · rintro ⟨-, h⟩
      cases h
    · rintro ⟨hunderstood, -⟩
      exact absurd rfl hunderstood.known.1
  | select value options =>
    by_cases hother : options = .other
    · subst hother
      constructor
      · rintro ⟨-, h⟩
        cases h
      · rintro ⟨hunderstood, -⟩
        exact absurd rfl (hunderstood.known.2 value)
    · have hknown : ConfigKind.select value options ≠ .other ∧
          ∀ other, ConfigKind.select value options ≠ .select other .other := by
        refine ⟨nofun, fun other heq => ?_⟩
        cases heq
        exact hother rfl
      have hselect := selectChoices_eq value hother
      have hunfold : currentAndChoices (.select value options) =
          selectChoices options >>= fun choices =>
            if anyInvalidChoice choices [] then .error AcpError.invalidConfiguration
            else .ok (ConfigValue.select value, choices) := rfl
      rw [hunfold, hselect, ok_bind, ite_error_eq_ok, Bool.not_eq_true, anyInvalidChoice_shown]
      constructor
      · rintro ⟨hnamed, ⟨hdistinct, hvalued⟩, h⟩
        cases h
        exact ⟨⟨hnamed, hknown, hdistinct, hvalued⟩, rfl, rfl, rfl, rfl, rfl, rfl⟩
      · rintro ⟨hunderstood, hshows⟩
        have hcurrent : current = .select value := hshows.current
        have hchoices := hshows.choices
        dsimp only at hchoices
        rw [hcurrent, hchoices]
        exact ⟨hunderstood.named, ⟨hunderstood.distinct, hunderstood.valued⟩, rfl⟩

theorem normalizeOptions_eq_ok {catalog : List SessionConfigOption} {ids : List String}
    {options : List ConfigOption} :
    normalizeOptions catalog ids = .ok options ↔
      (catalog.map (·.id)).Nodup ∧ (∀ option ∈ catalog, option.id ∉ ids) ∧
        (∀ option ∈ catalog, Understood option) ∧ List.Forall₂ Shows catalog options := by
  induction catalog generalizing ids options with
  | nil =>
    simp only [normalizeOptions, Except.ok.injEq, List.map_nil, List.nodup_nil, List.not_mem_nil,
      false_implies, implies_true, List.forall₂_nil_left_iff, true_and, eq_comm]
  | cons option catalog ih =>
    have hunfold : normalizeOptions (option :: catalog) ids =
        if isBlank option.id || ids.contains option.id then .error .invalidConfiguration
        else currentAndChoices option.kind >>= fun found =>
          normalizeOptions catalog (option.id :: ids) >>= fun rest =>
            .ok (⟨option.id, option.name, option.description, option.category, found.1, found.2⟩ ::
              rest) := rfl
    rw [hunfold, ite_error_eq_ok, List.forall_mem_cons, List.forall_mem_cons, List.map_cons,
      List.nodup_cons]
    simp only [bind_eq_ok, Except.ok.injEq, Bool.or_eq_true, List.contains_eq_mem,
      decide_eq_true_eq, not_or, Bool.not_eq_true, ih, List.mem_cons]
    constructor
    · rintro ⟨⟨hnamed, hfresh⟩, ⟨current, choices⟩, hkind, rest, ⟨hnodup, hout, hall, hshown⟩, rfl⟩
      obtain ⟨hunderstood, hshows⟩ := currentAndChoices_eq_ok.mp ⟨hnamed, hkind⟩
      refine ⟨⟨fun hmem => ?_, hnodup⟩, ⟨hfresh, fun other hmem => (hout other hmem).2⟩,
        ⟨hunderstood, hall⟩, .cons hshows hshown⟩
      obtain ⟨other, hother, hid⟩ := List.mem_map.mp hmem
      exact (hout other hother).1 hid
    · rintro ⟨⟨hnew, hnodup⟩, ⟨hfresh, hout⟩, ⟨hunderstood, hall⟩, hshown⟩
      cases hshown with
      | cons hshows hrest =>
        rename_i o rest
        obtain ⟨id, label, description, category, current, choices⟩ := o
        obtain rfl : id = option.id := hshows.id
        obtain rfl : label = option.name := hshows.label
        obtain rfl : description = option.description := hshows.description
        obtain rfl : category = option.category := hshows.category
        obtain ⟨hnamed, hkind⟩ := currentAndChoices_eq_ok.mpr ⟨hunderstood, hshows⟩
        refine ⟨⟨hnamed, hfresh⟩, (current, choices), hkind, rest, ⟨hnodup, fun other hmem => ?_,
          hall, hrest⟩, rfl⟩
        exact ⟨fun hid => hnew (List.mem_map.mpr ⟨other, hmem, hid⟩), hout other hmem⟩

/-- `normalize` accepts exactly the catalogs whose ids and choices can be told apart, and shows them
as they were reported. -/
theorem normalize_eq_ok {catalog : List SessionConfigOption} {options : List ConfigOption} :
    normalize catalog = .ok options ↔ (catalog.map (·.id)).Nodup ∧
      (∀ option ∈ catalog, Understood option) ∧ List.Forall₂ Shows catalog options := by
  rw [normalize, normalizeOptions_eq_ok]
  simp only [List.not_mem_nil, not_false_eq_true, implies_true, true_and]

/-- What is shown has the ids and the choices of what was reported. -/
theorem catalog_of_shown {catalog : List SessionConfigOption} {options : List ConfigOption}
    (hshown : List.Forall₂ Shows catalog options) (hdistinct : (catalog.map (·.id)).Nodup)
    (hunderstood : ∀ option ∈ catalog, Understood option) : Catalog options := by
  induction hshown with
  | nil => exact ⟨List.nodup_nil, nofun, nofun⟩
  | @cons option o catalog options hshows hshown ih =>
    rw [List.map_cons, List.nodup_cons] at hdistinct
    rw [List.forall_mem_cons] at hunderstood
    obtain ⟨hoption, hrest⟩ := hunderstood
    have hcatalog := ih hdistinct.2 hrest
    have hids : options.map (·.id) = catalog.map (·.id) := by
      rw [← List.forall₂_eq_eq_eq, List.forall₂_map_left_iff, List.forall₂_map_right_iff]
      exact hshown.flip.imp fun _ _ h => h.id
    refine ⟨?_, ?_, ?_⟩
    · rw [List.map_cons, List.nodup_cons, hids, hshows.id]
      exact ⟨hdistinct.1, hdistinct.2⟩
    · rw [List.forall_mem_cons, hshows.id]
      exact ⟨hoption.named, hcatalog.named⟩
    · rw [List.forall_mem_cons, hshows.choices, List.map_map, List.forall_mem_map]
      exact ⟨⟨hoption.distinct, hoption.valued⟩, hcatalog.choices⟩

theorem normalize_catalog {catalog : List SessionConfigOption} {options : List ConfigOption}
    (h : normalize catalog = .ok options) : Catalog options := by
  obtain ⟨hdistinct, hunderstood, hshown⟩ := normalize_eq_ok.mp h
  exact catalog_of_shown hshown hdistinct hunderstood

/-- The values of a catalog are those of its options. -/
theorem Catalog.get_currentValues {options : List ConfigOption} (h : Catalog options) (id : String)
    (value : ConfigValue) :
    (currentValues options).get id = some value ↔ ∃ o ∈ options, o.id = id ∧ o.current = value := by
  have hdistinct : ((options.map fun o => (o.id, o.current)).map (·.1)).Nodup := by
    rw [List.map_map]
    exact h.distinct
  rw [currentValues, SortedMap.get_collect hdistinct, List.mem_map]
  simp only [Prod.mk.injEq]

/-! ## The state -/

namespace ConfigurationState

variable {state state' : ConfigurationState}

theorem forRun_eq_ok {config : RunConfiguration} :
    state.forRun = .ok config ↔ state.pending = false ∧ state.uncertain = false ∧
      config = ⟨state.requested, state.options.map currentValues⟩ := by
  unfold forRun
  cases hpending : state.pending <;> cases huncertain : state.uncertain <;> simp [eq_comm]

/-- `begin` only sets `pending`, and only when it was not set. -/
theorem begin_eq_ok {id : String} {value : ConfigValue} (h : state.begin id value = .ok state') :
    state.pending = false ∧ state' = { state with pending := true } := by
  unfold begin at h
  split at h
  · cases h
  · rename_i hpending
    split at h
    · cases h
    · split at h
      · cases h
      · split at h
        · cases h
        · exact ⟨by simpa using hpending, (Except.ok.inj h).symm⟩

/-- What the callback of a request leaves. -/
structure Replied (id : String) (value : ConfigValue) (report : Except AcpError (List ConfigOption))
    (state state' : ConfigurationState) : Prop where
  pending : state'.pending = false
  reported : match report with
    | .ok options => state'.options = some options ∧ state'.uncertain = false
    | .error _ => state'.uncertain = true
  requested : state'.requested = state.requested ∨
    ∃ options, report = .ok options ∧ (∃ o ∈ options, o.id = id ∧ o.current = value) ∧
      state'.requested = state.requested.insert id value

theorem replied_spec (id : String) (value : ConfigValue)
    (result : Except String (List SessionConfigOption)) (state : ConfigurationState) :
    Replied id value ((result.mapError AcpError.protocol).bind normalize) state
      (state.replied id value result).2 := by
  unfold replied
  cases result with
  | error message => exact ⟨rfl, rfl, .inl rfl⟩
  | ok catalog =>
    rw [show ((Except.ok catalog : Except String _).mapError AcpError.protocol).bind normalize =
      normalize catalog from rfl]
    cases hnormalize : normalize catalog with
    | error e =>
      simp only [hnormalize]
      exact ⟨rfl, rfl, .inl rfl⟩
    | ok options =>
      simp only [hnormalize]
      split
      · exact ⟨rfl, ⟨rfl, rfl⟩, .inl rfl⟩
      · rename_i haccepted
        simp only [Bool.not_eq_true', Bool.not_eq_false, List.any_eq_true, Bool.and_eq_true,
          beq_iff_eq] at haccepted
        exact ⟨rfl, ⟨rfl, rfl⟩, .inr ⟨options, rfl, haccepted, rfl⟩⟩

end ConfigurationState

/-! ## The session -/

namespace ConfiguredSession

variable {U T : Type} {s s' : ConfiguredSession U T}

/-- What the last report says of the options, as far as they are certain. -/
def Reported (reports : List Report) (options : Option (List ConfigOption)) : Prop :=
  match reports.getLast? with
  | none => options = none
  | some (.ok last) => options = some last
  | some (.error _) => False

structure Attributed (s : ConfiguredSession U T) : Prop where
  single : s.outstanding.length ≤ 1
  pending : s.outstanding ≠ [] → s.state.pending = true
  certain : s.state.uncertain = false → Reported s.reports s.state.options
  catalogs : ∀ options, .ok options ∈ s.reports → Catalog options
  registered : ∀ spec, s.call = .starting spec → spec ∈ s.registered

theorem reported_append {reports : List Report} {options : Option (List ConfigOption)}
    {last : List ConfigOption} (h : options = some last) :
    Reported (reports ++ [.ok last]) options := by
  unfold Reported
  rw [List.getLast?_concat]
  exact h

theorem Attributed.none_outstanding (h : s.Attributed) (hpending : s.state.pending = false) :
    s.outstanding = [] := by
  by_contra hne
  rw [h.pending hne] at hpending
  cases hpending

/-- The uncertainty of a state that changes nothing else. -/
theorem Attributed.doubt (h : s.Attributed) {call : SessionCall}
    {returned : List (Except AcpError SessionConfiguration)}
    (hcall : ∀ spec, call = .starting spec → spec ∈ s.registered) :
    ({ s with state := { s.state with uncertain := true }, call, returned } :
      ConfiguredSession U T).Attributed :=
  ⟨h.single, h.pending, nofun, h.catalogs, hcall⟩

theorem Attributed.rest (h : s.Attributed) {call : SessionCall} {native : NativeSession U T}
    {returned : List (Except AcpError SessionConfiguration)}
    (hcall : ∀ spec, call = .starting spec → spec ∈ s.registered) :
    ({ s with call, native, returned } : ConfiguredSession U T).Attributed :=
  ⟨h.single, h.pending, h.certain, h.catalogs, hcall⟩

theorem Attributed.setOption (h : s.Attributed) (id : String) (value : ConfigValue)
    (isClosed : Bool) (sent : Except String Unit) : (s.setOption id value isClosed sent).Attributed := by
  unfold ConfiguredSession.setOption
  split
  · exact h.rest nofun
  · split
    · exact h.rest nofun
    · cases hbegin : s.state.begin id value with
      | error e => exact h.rest nofun
      | ok state =>
        obtain ⟨hpending, rfl⟩ := ConfigurationState.begin_eq_ok hbegin
        have hnone := h.none_outstanding hpending
        cases sent with
        | error message =>
          exact ⟨h.single, fun hne => absurd hnone hne, nofun, h.catalogs, nofun⟩
        | ok _ =>
          refine ⟨?_, fun _ => rfl, h.certain, h.catalogs, nofun⟩
          show (s.outstanding ++ [_]).length ≤ 1
          rw [hnone]
          exact Nat.le_refl 1

theorem Attributed.reply (h : s.Attributed) {n : Nat} {request : SetRequest}
    (hrequest : s.outstanding[n]? = some request)
    (result : Except String (List SessionConfigOption)) :
    (s.reply n request result).Attributed := by
  have hreplied := ConfigurationState.replied_spec request.id request.value result s.state
  have hlt : n < s.outstanding.length := (List.getElem?_eq_some_iff.mp hrequest).1
  have hlength : (s.outstanding.eraseIdx n).length = 0 := by
    have hsingle := h.single
    rw [List.length_eraseIdx_of_lt hlt]
    omega
  have hnone : s.outstanding.eraseIdx n = [] := List.length_eq_zero_iff.mp hlength
  refine ⟨?_, fun hne => absurd hnone hne, fun hcertain => ?_, fun options hmem => ?_,
    fun spec hcall => ?_⟩
  · show (s.outstanding.eraseIdx n).length ≤ 1
    omega
  · show Reported (s.reports ++ [_]) _
    have hreported := hreplied.reported
    cases hresult : (result.mapError AcpError.protocol).bind normalize with
    | ok options =>
      rw [hresult] at hreported
      exact reported_append hreported.1
    | error e =>
      rw [hresult] at hreported
      exact nomatch hreported.symm.trans hcertain
  · rcases List.mem_append.mp hmem with hmem | hmem
    · exact h.catalogs options hmem
    · cases result with
      | error message => exact nomatch List.mem_singleton.mp hmem
      | ok catalog => exact normalize_catalog (List.mem_singleton.mp hmem).symm
  · refine h.registered spec ?_
    unfold ConfiguredSession.reply at hcall
    dsimp only at hcall
    split at hcall
    · cases hcall
    · exact hcall

theorem Attributed.step (h : s.Attributed) {event : Event U T} (hstep : s.step event = some s') :
    s'.Attributed := by
  cases event with
  | setOption id value isClosed sent =>
    simp only [ConfiguredSession.step] at hstep
    split at hstep
    · split at hstep
      · cases hstep
        exact h.setOption id value isClosed sent
      · cases hstep
    · cases hstep
  | reply n result =>
    simp only [ConfiguredSession.step] at hstep
    split at hstep
    · rename_i request hrequest
      cases hstep
      exact h.reply hrequest result
    · cases hstep
  | lost n =>
    simp only [ConfiguredSession.step] at hstep
    split at hstep
    · rename_i hlt
      cases hstep
      have hlength := List.length_eraseIdx_of_lt hlt
      have hsingle := h.single
      have hnone : s.outstanding.eraseIdx n = [] := List.length_eq_zero_iff.mp (by omega)
      refine ⟨?_, fun hne => absurd hnone hne, h.certain, h.catalogs, h.registered⟩
      show (s.outstanding.eraseIdx n).length ≤ 1
      omega
    · cases hstep
  | received =>
    simp only [ConfiguredSession.step] at hstep
    split at hstep
    · cases hstep
      exact h.rest nofun
    · cases hstep
  | timedOut =>
    simp only [ConfiguredSession.step] at hstep
    split at hstep
    · cases hstep
      exact h.doubt nofun
    · cases hstep
  | disconnected =>
    simp only [ConfiguredSession.step] at hstep
    split at hstep
    · cases hstep
      exact h.doubt nofun
    · cases hstep
  | abandon =>
    simp only [ConfiguredSession.step] at hstep
    split at hstep
    · cases hstep
      exact h.rest nofun
    · cases hstep
  | observe options =>
    cases hstep
    have hobserve : s.state.observe options =
        match normalize options with
        | .ok options => { s.state with options := some options, uncertain := false }
        | .error _ => { s.state with uncertain := true } := rfl
    cases hnormalize : normalize options with
    | ok found =>
      rw [hnormalize] at hobserve
      rw [hobserve]
      refine ⟨h.single, h.pending, fun _ => reported_append rfl, fun other hmem => ?_, h.registered⟩
      rcases List.mem_append.mp hmem with hmem | hmem
      · exact h.catalogs other hmem
      · cases List.mem_singleton.mp hmem
        exact normalize_catalog hnormalize
    | error e =>
      rw [hnormalize] at hobserve
      rw [hobserve]
      refine ⟨h.single, h.pending, nofun, fun other hmem => ?_, h.registered⟩
      rcases List.mem_append.mp hmem with hmem | hmem
      · exact h.catalogs other hmem
      · exact nomatch List.mem_singleton.mp hmem
  | prepare id sessionId slotId context continuation =>
    simp only [ConfiguredSession.step] at hstep
    split at hstep
    · split at hstep
      · split at hstep
        · cases hstep
          exact h
        · cases hstep
          refine ⟨h.single, h.pending, h.certain, h.catalogs, fun spec hcall => ?_⟩
          cases hcall
          exact List.mem_append_right _ List.mem_cons_self
      · cases hstep
    · cases hstep
  | refuse =>
    simp only [ConfiguredSession.step] at hstep
    split at hstep
    · cases hstep
      exact h.rest nofun
    · cases hstep
  | dispatch text isClosed =>
    simp only [ConfiguredSession.step] at hstep
    split at hstep
    · cases hstep
      exact h.rest nofun
    · cases hstep
  | turn closed run e =>
    simp only [ConfiguredSession.step, Option.map_eq_some_iff] at hstep
    obtain ⟨native, -, rfl⟩ := hstep
    exact h.rest h.registered

theorem start_attributed {native : String} {fresh : Bool}
    {options : Option (List SessionConfigOption)}
    (h : start native fresh options = .ok s) : s.Attributed := by
  cases options with
  | none =>
    cases h
    exact ⟨Nat.zero_le 1, fun hne => absurd rfl hne, fun _ => rfl, nofun, nofun⟩
  | some catalog =>
    cases hnormalize : normalize catalog with
    | error e =>
      simp only [start, ConfigurationState.new, hnormalize, bind, Except.bind] at h
      cases h
    | ok found =>
      simp only [start, ConfigurationState.new, hnormalize, bind, Except.bind] at h
      cases h
      refine ⟨Nat.zero_le 1, fun hne => absurd rfl hne, fun _ => ?_, fun other hmem => ?_, nofun⟩
      · show Reported [normalize catalog] _
        rw [hnormalize]
        rfl
      · have hmem : Except.ok other ∈ [normalize catalog] := hmem
        rw [hnormalize] at hmem
        cases List.mem_singleton.mp hmem
        exact normalize_catalog hnormalize

/-! ## What is requested and what is dispatched -/

/-- A value counts as requested once the reply to its own request reports it. -/
theorem requested_step {event : Event U T} (hstep : s.step event = some s') :
    s'.state.requested = s.state.requested ∨
      ∃ n request catalog options, event = .reply n (.ok catalog) ∧
        s.outstanding[n]? = some request ∧ normalize catalog = .ok options ∧
        (∃ o ∈ options, o.id = request.id ∧ o.current = request.value) ∧
        s'.state.requested = s.state.requested.insert request.id request.value := by
  cases event with
  | setOption id value isClosed sent =>
    simp only [ConfiguredSession.step] at hstep
    split at hstep
    · split at hstep
      · cases hstep
        refine .inl ?_
        unfold ConfiguredSession.setOption
        split
        · rfl
        · split
          · rfl
          · cases hbegin : s.state.begin id value with
            | error e => rfl
            | ok state =>
              obtain ⟨-, rfl⟩ := ConfigurationState.begin_eq_ok hbegin
              cases sent <;> rfl
      · cases hstep
    · cases hstep
  | reply n result =>
    simp only [ConfiguredSession.step] at hstep
    split at hstep
    · rename_i request hrequest
      cases hstep
      have hreplied := ConfigurationState.replied_spec request.id request.value result s.state
      rcases hreplied.requested with hsame | ⟨options, hok, haccepted, hinsert⟩
      · exact .inl hsame
      · cases result with
        | error message => cases hok
        | ok catalog => exact .inr ⟨n, request, catalog, options, rfl, hrequest, hok, haccepted, hinsert⟩
    · cases hstep
  | observe options =>
    cases hstep
    refine .inl ?_
    show (s.state.observe options).requested = _
    unfold ConfigurationState.observe
    split <;> rfl
  | prepare id sessionId slotId context continuation =>
    simp only [ConfiguredSession.step] at hstep
    split at hstep
    · split at hstep
      · split at hstep <;> (cases hstep; exact .inl rfl)
      · cases hstep
    · cases hstep
  | turn closed run e =>
    simp only [ConfiguredSession.step, Option.map_eq_some_iff] at hstep
    obtain ⟨native, -, rfl⟩ := hstep
    exact .inl rfl
  | _ =>
    simp only [ConfiguredSession.step] at hstep
    split at hstep
    · cases hstep
      exact .inl rfl
    · cases hstep

theorem setOption_native (s : ConfiguredSession U T) (id : String) (value : ConfigValue)
    (isClosed : Bool) (sent : Except String Unit) :
    (s.setOption id value isClosed sent).native = s.native := by
  unfold ConfiguredSession.setOption
  split
  · rfl
  · split
    · rfl
    · cases s.state.begin id value with
      | error e => rfl
      | ok state => cases sent <;> rfl

/-- A run that is dispatched has the configuration of this moment. -/
theorem dispatchBlocks_runs {native : NativeSession U T} (x : Dispatch) :
    (native.dispatchBlocks x).2.runs = native.runs ∨
      x.forRun = .ok x.spec.config ∧
        (native.dispatchBlocks x).2.runs = native.runs ++ [AcpRun.start x.spec x.text] := by
  unfold NativeSession.dispatchBlocks
  split
  · exact .inl rfl
  · split
    · exact .inl rfl
    · split
      · exact .inl rfl
      · cases hrun : x.forRun with
        | error e => exact .inl rfl
        | ok config =>
          simp only
          split
          · exact .inl rfl
          · rename_i hsame
            exact .inr ⟨by rw [not_not.mp hsame], rfl⟩

theorem dispatched_step (h : s.Attributed) {event : Event U T} (hstep : s.step event = some s') :
    s'.native.runs.length = s.native.runs.length ∨
      ∃ text isClosed spec, event = .dispatch text isClosed ∧ s.call = .starting spec ∧
        spec ∈ s.registered ∧ s.state.forRun = .ok spec.config ∧
        s'.native.runs = s.native.runs ++ [AcpRun.start spec text] := by
  cases event with
  | setOption id value isClosed sent =>
    simp only [ConfiguredSession.step] at hstep
    split at hstep
    · split at hstep
      · cases hstep
        exact .inl (by rw [setOption_native])
      · cases hstep
    · cases hstep
  | observe options =>
    cases hstep
    exact .inl rfl
  | prepare id sessionId slotId context continuation =>
    simp only [ConfiguredSession.step] at hstep
    split at hstep
    · split at hstep
      · split at hstep <;> (cases hstep; exact .inl rfl)
      · cases hstep
    · cases hstep
  | dispatch text isClosed =>
    simp only [ConfiguredSession.step] at hstep
    split at hstep
    · rename_i spec hcall
      cases hstep
      rcases @dispatchBlocks_runs _ _ s.native ⟨spec, text, isClosed, s.state.forRun⟩ with
        hsame | ⟨hconfig, hruns⟩
      · exact .inl (congrArg List.length hsame)
      · exact .inr ⟨text, isClosed, spec, rfl, hcall, h.registered spec hcall, hconfig, hruns⟩
    · cases hstep
  | turn closed run e =>
    simp only [ConfiguredSession.step, Option.map_eq_some_iff] at hstep
    obtain ⟨native, hturn, rfl⟩ := hstep
    unfold NativeSession.turn at hturn
    split at hturn
    · cases hturn
    · split at hturn
      · cases hturn
      · cases hturn
        exact .inl List.length_set
  | _ =>
    simp only [ConfiguredSession.step] at hstep
    split at hstep
    · cases hstep
      exact .inl rfl
    · cases hstep

/-- The configuration of a run, while nothing about it is uncertain. -/
theorem Attributed.forRun (h : s.Attributed) {config : RunConfiguration}
    (hrun : s.state.forRun = .ok config) :
    s.outstanding = [] ∧
      match s.reports.getLast? with
      | none => config.confirmed = none
      | some (.error _) => False
      | some (.ok options) => ∃ values, config.confirmed = some values ∧
          ∀ id value, values.get id = some value ↔ ∃ o ∈ options, o.id = id ∧ o.current = value := by
  obtain ⟨hpending, huncertain, rfl⟩ := ConfigurationState.forRun_eq_ok.mp hrun
  refine ⟨h.none_outstanding hpending, ?_⟩
  have hcertain := h.certain huncertain
  unfold Reported at hcertain
  cases hlast : s.reports.getLast? with
  | none =>
    rw [hlast] at hcertain
    exact congrArg (Option.map currentValues) hcertain
  | some report =>
    rw [hlast] at hcertain
    cases report with
    | error e => exact hcertain
    | ok options =>
      have hcatalog := h.catalogs options (List.mem_of_getLast? hlast)
      exact ⟨currentValues options, congrArg (Option.map currentValues) hcertain,
        hcatalog.get_currentValues⟩

/-- However the calls of a session, their replies and the reports of the agent interleave, a run is
attributed to the configuration that was reported last. -/
theorem configurations_are_not_guessed {native : String} {fresh : Bool}
    {offered : Option (List SessionConfigOption)} {s₀ : ConfiguredSession U T}
    (hstart : start native fresh offered = .ok s₀) {events : List (Event U T)}
    (hrun : Next.run ConfiguredSession.step events s₀ = some s) :
    s.outstanding.length ≤ 1 ∧
    (∀ config, s.state.forRun = .ok config → s.outstanding = [] ∧
      match s.reports.getLast? with
      | none => config.confirmed = none
      | some (.error _) => False
      | some (.ok options) => ∃ values, config.confirmed = some values ∧
          ∀ id value, values.get id = some value ↔
            ∃ o ∈ options, o.id = id ∧ o.current = value) ∧
    (∀ event s', s.step event = some s' → s'.state.requested = s.state.requested ∨
      ∃ n request catalog options, event = .reply n (.ok catalog) ∧
        s.outstanding[n]? = some request ∧ normalize catalog = .ok options ∧
        (∃ o ∈ options, o.id = request.id ∧ o.current = request.value) ∧
        s'.state.requested = s.state.requested.insert request.id request.value) ∧
    (∀ catalog options, normalize catalog = .ok options ↔ (catalog.map (·.id)).Nodup ∧
      (∀ option ∈ catalog, Understood option) ∧ List.Forall₂ Shows catalog options) ∧
    ∀ event s', s.step event = some s' → s'.native.runs.length = s.native.runs.length ∨
      ∃ text isClosed spec, event = .dispatch text isClosed ∧ s.call = .starting spec ∧
        spec ∈ s.registered ∧ s.state.forRun = .ok spec.config ∧
        s'.native.runs = s.native.runs ++ [AcpRun.start spec text] := by
  have h : s.Attributed :=
    Next.run_invariant (fun _ _ _ h => h.step) (start_attributed hstart) hrun
  exact ⟨h.single, fun config => h.forRun, fun event s' => requested_step,
    fun catalog options => normalize_eq_ok, fun event s' => dispatched_step h⟩

section Witness

def reportOf (value : Bool) : List SessionConfigOption := [⟨"fast", "Fast", none, none, .boolean value⟩]

/-- A request whose caller gives up before its reply comes. -/
def lateReply : List (Event Unit Unit) :=
  [.setOption "fast" (.boolean true) false (.ok ()), .timedOut, .reply 0 (.ok (reportOf true))]

/-- The late reply is what the next run is attributed to. -/
theorem late_reply_is_not_guessed :
    ∃ s₀ s : ConfiguredSession Unit Unit, start "native" true (some (reportOf false)) = .ok s₀ ∧
      Next.run ConfiguredSession.step lateReply s₀ = some s ∧
      ∃ config values, s.state.forRun = .ok config ∧ config.confirmed = some values ∧
        values.get "fast" = some (.boolean true) := by
  refine ⟨_, _, rfl, rfl, ?_⟩
  obtain ⟨-, hattributed, -⟩ := @configurations_are_not_guessed Unit Unit _ "native" true
    (some (reportOf false)) _ rfl lateReply rfl
  obtain ⟨-, values, hconfirmed, hvalues⟩ := hattributed _ rfl
  exact ⟨_, values, rfl, hconfirmed, (hvalues _ _).mpr ⟨_, List.mem_cons_self, rfl, rfl⟩⟩

end Witness

end ConfiguredSession

end Acp

end AgentBridge
