import AgentBridge.Records.Sqlite.Migration
import AgentBridge.Records.Durability
import AgentBridge.Records.Retries

/-!
# What opening a file leaves

The scripts change no row: a file at an older version of the schema becomes one at the current
version, with the same contents and a change of every record.
-/

namespace AgentBridge

open Reasoning

namespace SqliteStore

variable {Text App : Type} {J : SerdeJson Text} {refuses : Statement → Option StoreError} {epoch : String}
  {file file' : File Text App}

/-! ## The contents of a file -/

def RunTable.rows : RunTable Text → HashMap String (RunRow Text)
  | .plain rows => HashMap.mapValues PlainRunRow.configured rows
  | .configured rows => rows

def RunTable.isConfigured : RunTable Text → Bool
  | .plain _ => false
  | .configured _ => true

/-- The rows of a file at any version of its schema; the columns that a run does not have are null. -/
structure Contents (Text App : Type) where
  sessions : HashMap String Int
  runs : HashMap String (RunRow Text)
  records : HashMap String (RowData Text)
  decisions : HashMap String String
  continuations : HashMap String (ContinuationRow Text)
  resources : Context.ResourceDb
  executionRelations : HashMap String (RelationRow Text)
  application : App

def File.contents (file : File Text App) : Contents Text App where
  sessions := file.sessions.getD ∅
  runs := (file.runs.map RunTable.rows).getD ∅
  records := file.records.getD ∅
  decisions := file.decisions.getD ∅
  continuations := file.continuations.getD ∅
  resources := file.resources.getD .empty
  executionRelations := file.executionRelations.getD ∅
  application := file.application

/-- The database with these rows and a first change of every record. -/
def Contents.upgraded (contents : Contents Text App) (epoch : String) : Db Text where
  sessions := contents.sessions
  runs := contents.runs
  records := contents.records
  decisions := contents.decisions
  continuations := contents.continuations
  executionRelations := contents.executionRelations
  changeClock := ⟨epoch, contents.records.values.length⟩
  recordChanges := backfill contents.records
  written := []

/-- What the columns' checks and keys say of the records, in every version.  A file has fewer rows
than row ids. -/
structure Constrained (sessions : HashMap String Int) (records : HashMap String (RowData Text)) :
    Prop where
  key : ∀ name row, records.lookup name = some row → row.id = name
  sequence : ∀ name row, records.lookup name = some row →
    0 ≤ row.sequence ∧ row.sequence ≤ i64Max
  revision : ∀ name row, records.lookup name = some row →
    0 ≤ row.revision ∧ row.revision ≤ i64Max
  unique : ∀ name name' row row', records.lookup name = some row →
    records.lookup name' = some row' → row.session = row'.session →
      row.sequence = row'.sequence → name = name'
  session : ∀ name row, records.lookup name = some row → (sessions.lookup row.session).isSome
  count : (records.values.length : Int) ≤ i64Max

/-- Which tables are there, and whether those of the runs have all their columns. -/
structure Presence where
  sessions : Bool
  runs : Bool
  configured : Bool
  records : Bool
  decisions : Bool
  continuations : Bool
  resources : Bool
  executionRelations : Bool
  changeClock : Bool
  recordChanges : Bool

def File.presence (file : File Text App) : Presence where
  sessions := file.sessions.isSome
  runs := file.runs.isSome
  configured := file.runs.any RunTable.isConfigured
  records := file.records.isSome
  decisions := file.decisions.isSome
  continuations := file.continuations.isSome
  resources := file.resources.isSome
  executionRelations := file.executionRelations.isSome
  changeClock := file.changeClock.isSome
  recordChanges := file.recordChanges.isSome

/-- What a version of the schema has. -/
def Presence.atVersion (version : Nat) : Presence where
  sessions := 1 ≤ version
  runs := 1 ≤ version
  configured := 3 ≤ version
  records := 1 ≤ version
  decisions := 1 ≤ version
  continuations := 2 ≤ version
  resources := 4 ≤ version
  executionRelations := 6 ≤ version
  changeClock := 7 ≤ version
  recordChanges := 7 ≤ version

/-- A file at a version before the current one, or a new file at version 0. -/
structure File.AtVersion (file : File Text App) (version : Nat) : Prop where
  older : version < 7
  schema : file.schema = if version = 0 then none else some (some (version : Int))
  presence : file.presence = .atVersion version
  unoccupied : version = 0 → file.strays = []
  constrained : Constrained file.contents.sessions file.contents.records

/-! ## The scripts -/

variable (Text App) in
/-- The script of a version runs, makes the tables of the next version, and keeps the rows. -/
def Upgrades (version : Nat) (script : File Text App → Except StoreError (File Text App)) : Prop :=
  ∀ file, file.AtVersion version → ∃ file', script file = .ok file' ∧
    (∃ n, file'.schema = some (some n)) ∧ file'.presence = .atVersion (version + 1) ∧
      file'.contents = file.contents

/-- A table that is not there. -/
theorem eq_none_of_absent {α : Type} {table : Option α} (h : table.isSome = false) : table = none :=
  Option.isNone_iff_eq_none.mp (Option.isSome_eq_false_iff.mp h)

theorem records_upgrades : Upgrades Text App 0 Migration.records := by
  intro file h
  have hschema : file.schema = none := h.schema
  have hsessions : file.sessions = none :=
    eq_none_of_absent (congrArg Presence.sessions h.presence)
  have hruns : file.runs = none := eq_none_of_absent (congrArg Presence.runs h.presence)
  have hrecords : file.records = none := eq_none_of_absent (congrArg Presence.records h.presence)
  have hdecisions : file.decisions = none :=
    eq_none_of_absent (congrArg Presence.decisions h.presence)
  refine ⟨{ file with
    schema := some (some 1), sessions := some ∅, runs := some (.plain ∅), records := some ∅,
    decisions := some ∅ }, ?_, ⟨1, rfl⟩, ?_, ?_⟩
  · unfold Migration.records
    rw [hschema, hsessions, hruns, hrecords, hdecisions]
    rfl
  · show { file.presence with
      sessions := true, runs := true, configured := false, records := true, decisions := true } = _
    rw [h.presence]
    rfl
  · unfold File.contents
    rw [hsessions, hruns, hrecords, hdecisions]
    rfl

/-- A script after the first finds the table of the schema. -/
theorem File.AtVersion.schema_some {version : Nat} (h : file.AtVersion version)
    (hpos : 0 < version) : ∃ n, file.schema = some (some n) := by
  refine ⟨(version : Int), ?_⟩
  rw [h.schema, if_neg (by omega)]

theorem continuations_upgrades :
    Upgrades Text App 1 Migration.continuations := by
  intro file h
  have hnone : file.continuations = none :=
    eq_none_of_absent (congrArg Presence.continuations h.presence)
  refine ⟨{ file with continuations := some ∅ }, ?_, h.schema_some (by decide), ?_, ?_⟩
  · unfold Migration.continuations
    rw [hnone]
    rfl
  · show { file.presence with continuations := true } = _
    rw [h.presence]
    rfl
  · unfold File.contents
    rw [hnone]
    rfl

theorem runConfiguration_upgrades :
    Upgrades Text App 2 Migration.runConfiguration := by
  intro file h
  have hsome : file.runs.isSome = true := congrArg Presence.runs h.presence
  have hplain : file.runs.any RunTable.isConfigured = false :=
    congrArg Presence.configured h.presence
  obtain ⟨runs, hruns⟩ := Option.isSome_iff_exists.mp hsome
  cases runs with
  | configured rows =>
    rw [hruns] at hplain
    cases hplain
  | plain rows =>
    refine ⟨{ file with
      runs := some (.configured (HashMap.mapValues PlainRunRow.configured rows)) }, ?_,
      h.schema_some (by decide), ?_, ?_⟩
    · unfold Migration.runConfiguration
      rw [hruns]
      rfl
    · show { file.presence with runs := true, configured := true } = _
      rw [h.presence]
      rfl
    · unfold File.contents
      rw [hruns]
      rfl

theorem resources_upgrades : Upgrades Text App 3 Migration.resources := by
  intro file h
  have hnone : file.resources = none := eq_none_of_absent (congrArg Presence.resources h.presence)
  refine ⟨{ file with resources := some .empty }, ?_, h.schema_some (by decide), ?_, ?_⟩
  · unfold Migration.resources
    rw [hnone]
    rfl
  · show { file.presence with resources := true } = _
    rw [h.presence]
    rfl
  · unfold File.contents
    rw [hnone]
    rfl

theorem questions_upgrades : Upgrades Text App 4 Migration.questions := by
  intro file h
  exact ⟨file, rfl, h.schema_some (by decide), h.presence, rfl⟩

theorem executionRelations_upgrades :
    Upgrades Text App 5 Migration.executionRelations := by
  intro file h
  have hnone : file.executionRelations = none :=
    eq_none_of_absent (congrArg Presence.executionRelations h.presence)
  refine ⟨{ file with executionRelations := some ∅ }, ?_, h.schema_some (by decide), ?_, ?_⟩
  · unfold Migration.executionRelations
    rw [hnone]
    rfl
  · show { file.presence with executionRelations := true } = _
    rw [h.presence]
    rfl
  · unfold File.contents
    rw [hnone]
    rfl

/-- The last script records a first change of every record. -/
def File.withChanges (file : File Text App) (epoch : String) : File Text App :=
  { file with
    changeClock := some (file.contents.upgraded epoch).changeClock
    recordChanges := some (file.contents.upgraded epoch).recordChanges }

theorem changes_runs (epoch : String) (h : file.AtVersion 6) :
    Migration.changes epoch file = .ok (file.withChanges epoch) := by
  have hclock : file.changeClock = none :=
    eq_none_of_absent (congrArg Presence.changeClock h.presence)
  have hchanges : file.recordChanges = none :=
    eq_none_of_absent (congrArg Presence.recordChanges h.presence)
  obtain ⟨records, hrecords⟩ :=
    Option.isSome_iff_exists.mp (congrArg Presence.records h.presence : file.records.isSome = true)
  obtain ⟨sessions, hsessions⟩ :=
    Option.isSome_iff_exists.mp (congrArg Presence.sessions h.presence : file.sessions.isSome = true)
  have hcontents : file.contents.records = records := by
    unfold File.contents
    rw [hrecords]
    rfl
  have hforeign : (records.values.any fun row => (sessions.lookup row.session).isNone) = false := by
    rw [List.any_eq_false]
    intro row hrow
    obtain ⟨name, hname⟩ := (HashMap.mem_values_iff _ _).mp hrow
    have hsession := h.constrained.session name row (by rw [hcontents]; exact hname)
    unfold File.contents at hsession
    rw [hsessions] at hsession
    rw [Bool.not_eq_true, Option.isNone_eq_false_iff]
    exact hsession
  unfold Migration.changes File.withChanges Contents.upgraded
  rw [hclock, hchanges, hrecords, hsessions, hcontents]
  simp only [createTable, ok_bind, hforeign]
  rfl

theorem changes_upgrades (epoch : String) :
    Upgrades Text App 6 (Migration.changes epoch) := by
  intro file h
  refine ⟨file.withChanges epoch, changes_runs epoch h, h.schema_some (by decide), ?_, rfl⟩
  show { file.presence with changeClock := true, recordChanges := true } = _
  rw [h.presence]
  rfl

theorem migrations_upgrade (epoch : String) : ∀ (version : Nat) (h : version < 7),
    Upgrades Text App version ((migrations epoch).get ⟨version, h⟩)
  | 0, _ => records_upgrades
  | 1, _ => continuations_upgrades
  | 2, _ => runConfiguration_upgrades
  | 3, _ => resources_upgrades
  | 4, _ => questions_upgrades
  | 5, _ => executionRelations_upgrades
  | 6, _ => changes_upgrades epoch

/-! ## The loop over the scripts -/

theorem File.AtVersion.setVersion {version : Nat} (h : file.AtVersion version)
    (hversion : version + 1 < 7) {file' : File Text App}
    (hschema : ∃ n, file'.schema = some (some n))
    (hpresence : file'.presence = .atVersion (version + 1))
    (hcontents : file'.contents = file.contents) :
    (file'.setVersion (version + 1)).AtVersion (version + 1) where
  older := hversion
  schema := by
    obtain ⟨n, hschema⟩ := hschema
    show file'.schema.map _ = _
    rw [hschema, if_neg (Nat.succ_ne_zero version)]
    rfl
  presence := hpresence
  unoccupied hzero := absurd hzero (Nat.succ_ne_zero version)
  constrained := by
    show Constrained file'.contents.sessions file'.contents.records
    rw [hcontents]
    exact h.constrained

/-- A file at the current version with the rows of another one and a first change of every record. -/
structure Upgraded (epoch : String) (file file' : File Text App) : Prop where
  schema : file'.schema = some (some 7)
  contents : file'.contents = file.contents
  presence : file'.presence = .atVersion 7
  changeClock : file'.changeClock = some (file.contents.upgraded epoch).changeClock
  recordChanges : file'.recordChanges = some (file.contents.upgraded epoch).recordChanges

theorem issue_eq_ok {statement : Statement} {u : Unit} :
    issue refuses statement = .ok u ↔ refuses statement = none := by
  unfold issue
  cases refuses statement <;> simp

/-- One round of the loop. -/
theorem runScripts_drop (refuses : Statement → Option StoreError) {version : Nat}
    (hlt : version < 7) {next : File Text App}
    (hok : (migrations epoch).get ⟨version, hlt⟩ file = .ok next) (file' : File Text App) :
    file.runScripts refuses ((migrations epoch).drop version) version = .ok file' ↔
      refuses (.script version) = none ∧ refuses (.setVersion version) = none ∧
        (next.setVersion (version + 1)).runScripts refuses ((migrations epoch).drop (version + 1))
          (version + 1) = .ok file' := by
  have hdrop : (migrations epoch : List (File Text App → _)).drop version =
      (migrations epoch).get ⟨version, hlt⟩ :: (migrations epoch).drop (version + 1) :=
    List.drop_eq_getElem_cons hlt
  simp only [hdrop, File.runScripts, bind_eq_ok, issue_eq_ok, hok, Except.ok.injEq]
  constructor
  · rintro ⟨-, hscript, _, rfl, -, hversion, hrest⟩
    exact ⟨hscript, hversion, hrest⟩
  · rintro ⟨hscript, hversion, hrest⟩
    exact ⟨(), hscript, next, rfl, (), hversion, hrest⟩

theorem runScripts_upgraded (refuses : Statement → Option StoreError) (epoch : String)
    (remaining : Nat) {version : Nat} {file : File Text App}
    (hremaining : version + remaining = 6) (h : file.AtVersion version) :
    (∀ file', file.runScripts refuses ((migrations epoch).drop version) version = .ok file' →
      Upgraded epoch file file') ∧
    ((∀ statement, refuses statement = none) →
      ∃ file', file.runScripts refuses ((migrations epoch).drop version) version = .ok file') := by
  induction remaining generalizing version file with
  | zero =>
    obtain rfl : version = 6 := by omega
    have hlt : 6 < 7 := by decide
    have hlast : (migrations epoch).get ⟨6, hlt⟩ file = .ok (file.withChanges epoch) :=
      changes_runs epoch h
    have hround := runScripts_drop refuses hlt hlast
    obtain ⟨n, hschema⟩ := h.schema_some (by decide)
    constructor
    · intro file' hok
      obtain ⟨-, -, hrest⟩ := (hround file').mp hok
      obtain rfl := Except.ok.inj hrest
      obtain ⟨_, hchanged, -, hpresence, -⟩ := changes_upgrades epoch file h
      obtain rfl := Except.ok.inj ((changes_runs epoch h).symm.trans hchanged)
      refine ⟨?_, rfl, hpresence, rfl, rfl⟩
      show file.schema.map _ = _
      rw [hschema]
      rfl
    · intro hnone
      exact ⟨_, (hround _).mpr ⟨hnone _, hnone _, rfl⟩⟩
  | succ remaining ih =>
    have hlt : version < 7 := by omega
    obtain ⟨next, hok, hschema, hpresence, hcontents⟩ :=
      migrations_upgrade epoch version hlt file h
    have hround := runScripts_drop refuses hlt hok
    obtain ⟨hupgraded, hruns⟩ := ih (by omega) (h.setVersion (by omega) hschema hpresence hcontents)
    constructor
    · intro file' hok
      have h' := hupgraded file' ((hround file').mp hok).2.2
      have hsame : (next.setVersion (version + 1)).contents = file.contents := hcontents
      refine ⟨h'.schema, h'.contents.trans hsame, h'.presence, ?_, ?_⟩
      · rw [h'.changeClock, hsame]
      · rw [h'.recordChanges, hsame]
    · intro hnone
      obtain ⟨file', hfile'⟩ := hruns hnone
      exact ⟨file', (hround file').mpr ⟨hnone _, hnone _, hfile'⟩⟩

/-! ## Opening -/

/-- The tables of a file at the current version. -/
theorem File.tables_of_presence (h : file.presence = .atVersion 7) {clock : ChangeClock}
    {changes : HashMap String RecordChange} (hclock : file.changeClock = some clock)
    (hchanges : file.recordChanges = some changes) :
    file.tables = some ⟨file.contents.sessions, file.contents.runs, file.contents.records,
      file.contents.decisions, file.contents.continuations, file.contents.executionRelations, clock,
      changes, []⟩ := by
  obtain ⟨sessions, hsessions⟩ :=
    Option.isSome_iff_exists.mp (congrArg Presence.sessions h : file.sessions.isSome = true)
  obtain ⟨runs, hruns⟩ :=
    Option.isSome_iff_exists.mp (congrArg Presence.runs h : file.runs.isSome = true)
  have hconfigured : file.runs.any RunTable.isConfigured = true := congrArg Presence.configured h
  obtain ⟨records, hrecords⟩ :=
    Option.isSome_iff_exists.mp (congrArg Presence.records h : file.records.isSome = true)
  obtain ⟨decisions, hdecisions⟩ :=
    Option.isSome_iff_exists.mp (congrArg Presence.decisions h : file.decisions.isSome = true)
  obtain ⟨continuations, hcontinuations⟩ := Option.isSome_iff_exists.mp
    (congrArg Presence.continuations h : file.continuations.isSome = true)
  obtain ⟨relations, hrelations⟩ := Option.isSome_iff_exists.mp
    (congrArg Presence.executionRelations h : file.executionRelations.isSome = true)
  rw [hruns] at hconfigured
  cases runs with
  | plain rows => cases hconfigured
  | configured rows =>
    unfold File.tables File.contents
    rw [hsessions, hruns, hrecords, hdecisions, hcontinuations, hrelations, hclock, hchanges]
    rfl

theorem Upgraded.tables (h : Upgraded epoch file file') :
    file'.tables = some (file.contents.upgraded epoch) := by
  rw [File.tables_of_presence h.presence h.changeClock h.recordChanges, h.contents]
  rfl

theorem Upgraded.resources (h : Upgraded epoch file file') :
    file'.resources = some file.contents.resources := by
  obtain ⟨resources, hresources⟩ := Option.isSome_iff_exists.mp
    (congrArg Presence.resources h.presence : file'.resources.isSome = true)
  have hcontents := congrArg Contents.resources h.contents
  unfold File.contents at hcontents ⊢
  rw [hresources] at hcontents ⊢
  rw [← hcontents]
  rfl

theorem File.AtVersion.not_occupied (h : file.AtVersion 0) : file.isOccupied = false := by
  have hpresence := h.presence
  simp only [File.presence, Presence.atVersion, Presence.mk.injEq] at hpresence
  obtain ⟨hsessions, hruns, -, hrecords, hdecisions, hcontinuations, hresources, hrelations, hclock,
    hchanges⟩ := hpresence
  unfold File.isOccupied
  rw [hsessions, hruns, hrecords, hdecisions, hcontinuations, hresources, hrelations, hclock,
    hchanges, h.unoccupied rfl]
  rfl

theorem File.AtVersion.readVersion {version : Nat} (h : file.AtVersion version) {n : Int} :
    file.readVersion refuses = .ok n ↔
      refuses .findSchema = none ∧ refuses .readVersion = none ∧ n = version := by
  unfold File.readVersion
  simp only [bind_eq_ok, issue_eq_ok, exists_and_left, exists_const]
  rw [h.schema]
  by_cases hzero : version = 0
  · subst hzero
    simp [h.not_occupied, eq_comm]
  · simp [hzero, eq_comm]

theorem validateSchema_eq_ok {u : Unit} :
    file.validateSchema refuses = .ok u ↔
      refuses .validate = none ∧ file.tables.isSome = true ∧ file.resources.isSome = true := by
  unfold File.validateSchema
  simp only [bind_eq_ok, issue_eq_ok, exists_and_left, exists_const]
  rw [← Bool.and_eq_true]
  by_cases h : (file.tables.isSome && file.resources.isSome) = true
  · rw [if_pos h]
    simp only [h, and_true]
  · rw [if_neg h]
    simp only [h, reduceCtorEq, and_false]

/-- What the transaction of `migrate` does to an older file. -/
theorem File.AtVersion.migrate {version : Nat} (h : file.AtVersion version)
    (refuses : Statement → Option StoreError) (epoch : String) :
    (∀ file', file.migrate refuses epoch = .ok file' → Upgraded epoch file file') ∧
      ((∀ statement, refuses statement = none) →
        ∃ file', file.migrate refuses epoch = .ok file') := by
  have holder := h.older
  have hversion : ¬ ((version : Int) < 0 ∨ 7 < (version : Int) ∨
      (file.schema.isSome ∧ (version : Int) = 0)) := by
    rintro (hneg | hlarge | ⟨hsome, hzero⟩)
    · omega
    · omega
    · have hnone := h.schema
      rw [if_pos (by omega)] at hnone
      rw [hnone] at hsome
      cases hsome
  obtain ⟨hupgraded, hruns⟩ :=
    runScripts_upgraded refuses epoch (6 - version) (by omega) h
  unfold File.migrate
  simp only [bind_eq_ok, issue_eq_ok, h.readVersion, ite_error_eq_ok, validateSchema_eq_ok,
    Except.ok.injEq]
  constructor
  · rintro file' ⟨_, -, _, ⟨-, -, rfl⟩, -, migrated, hmigrated, _, -, _, -, rfl⟩
    exact hupgraded migrated hmigrated
  · intro hnone
    obtain ⟨migrated, hmigrated⟩ := hruns hnone
    have htables := (hupgraded migrated hmigrated).tables
    have hresources := (hupgraded migrated hmigrated).resources
    exact ⟨migrated, (), hnone _, version, ⟨hnone _, hnone _, rfl⟩, hversion, migrated, hmigrated,
      (), ⟨hnone _, by rw [htables]; rfl, by rw [hresources]; rfl⟩, (), hnone _, rfl⟩

/-- A file at the current version stays as it is. -/
theorem migrate_current (hschema : file.schema = some (some 7))
    (hok : file.migrate refuses epoch = .ok file') : file' = file := by
  unfold File.migrate File.readVersion at hok
  simp only [bind_eq_ok, hschema, Except.ok.injEq, ite_error_eq_ok] at hok
  obtain ⟨_, -, _, ⟨_, -, _, -, rfl⟩, -, migrated, hmigrated, _, -, _, -, rfl⟩ := hok
  exact (Except.ok.inj hmigrated).symm

theorem openWithBusyTimeout_cases (refuses : Statement → Option StoreError) (epoch : String)
    (file : File Text App) :
    (∃ e, file.openWithBusyTimeout refuses epoch = (.error e, file)) ∨
      ∃ migrated, file.migrate refuses epoch = .ok migrated ∧
        file.openWithBusyTimeout refuses epoch = (.ok (), migrated) := by
  unfold File.openWithBusyTimeout
  simp only
  split
  · next migrated hmigrated =>
    simp only [bind_eq_ok] at hmigrated
    obtain ⟨_, -, _, -, _, -, _, -, hmigrated⟩ := hmigrated
    exact .inr ⟨migrated, hmigrated, rfl⟩
  · next e _ => exact .inl ⟨e, rfl⟩

/-! ## The first changes -/

section FirstChanges

variable {records : HashMap String (RowData Text)}

theorem lookup_backfill (name : String) :
    (backfill records).lookup name = (records.lookup name).map fun row =>
      ⟨row.session, (orderedIds records).idxOf row.id + 1⟩ :=
  HashMap.lookup_mapValues _ _ _

theorem mem_orderedIds {id : String} :
    id ∈ orderedIds records ↔ ∃ row ∈ records.values, row.id = id := by
  simp only [orderedIds, List.mem_map, List.mem_insertionSort]

theorem length_orderedIds : (orderedIds records).length = records.values.length := by
  rw [orderedIds, List.length_map, List.length_insertionSort]

theorem nodup_orderedIds (hkey : ∀ name row, records.lookup name = some row → row.id = name) :
    (orderedIds records).Nodup := by
  have hkeys : records.values.map (·.id) = records.keys := by
    rw [HashMap.values, List.map_map]
    apply List.map_congr_left
    rintro ⟨name, row⟩ hmem
    exact hkey name row ((HashMap.mem_entries_iff _ _ _).mp hmem)
  have hperm : (orderedIds records).Perm (records.values.map (·.id)) :=
    (List.perm_insertionSort _ _).map _
  rw [hperm.nodup_iff, hkeys]
  exact records.keys_nodup

end FirstChanges

/-- The clock is the position of a change, once there is one. -/
def Db.AtHead (db : Db Text) : Prop :=
  (∃ name change, db.recordChanges.lookup name = some change ∧
    change.position = db.changeClock.position) ∨
  (db.changeClock.position = 0 ∧ ∀ name, db.recordChanges.lookup name = none)

theorem Db.AtHead.step {J : SerdeJson Text} {db db' : Db Text} (h : db.AtHead)
    (hstep : db.HistoryStep J db') : db'.AtHead := by
  have hsame : ∀ {db' : Db Text}, db.SameRecords db' → db'.AtHead := by
    intro db' hsame
    unfold Db.AtHead
    rw [hsame.changes, hsame.clock]
    exact h
  cases hstep with
  | same hquiet => exact hsame hquiet.toSameRecords
  | register => exact hsame (afterRegister_sameRecords _)
  | insert => exact .inl ⟨_, _, (change_afterInsert _ _ _).trans (if_pos rfl), rfl⟩
  | advance => exact .inl ⟨_, _, (change_afterUpdate _ _ _ _ _).trans (if_pos rfl), rfl⟩
  | @answer _ _ _ _ _ _ next =>
    exact .inl ⟨_, _, (change_afterInsert _ next _).trans (if_pos rfl), rfl⟩

section UpgradedRows

variable {contents : Contents Text App}

theorem Constrained.ordered (h : Constrained contents.sessions contents.records) :
    (contents.upgraded epoch).Ordered := by
  have hchange : ∀ name change, (contents.upgraded epoch).recordChanges.lookup name = some change →
      ∃ row, contents.records.lookup name = some row ∧
        change = ⟨row.session, (orderedIds contents.records).idxOf row.id + 1⟩ := by
    intro name change hchange
    obtain ⟨row, hrow, heq⟩ := Option.map_eq_some_iff.mp ((lookup_backfill name).symm.trans hchange)
    exact ⟨row, hrow, heq.symm⟩
  have hmem : ∀ {name row}, contents.records.lookup name = some row →
      row.id ∈ orderedIds contents.records := fun hrow =>
    mem_orderedIds.mpr ⟨_, (HashMap.mem_values_iff _ _).mpr ⟨_, hrow⟩, rfl⟩
  refine ⟨⟨h.key, h.revision, ?_, ?_, ?_, ?_, Int.natCast_nonneg _⟩, h.sequence, h.unique⟩
  · intro name row hrow
    exact ⟨_, (lookup_backfill name).trans (congrArg _ hrow), rfl⟩
  · intro name change hlookup
    obtain ⟨row, hrow, -⟩ := hchange name change hlookup
    exact Option.isSome_iff_exists.mpr ⟨row, hrow⟩
  · intro name change hlookup
    obtain ⟨row, hrow, rfl⟩ := hchange name change hlookup
    have hlt := List.idxOf_lt_length_of_mem (hmem hrow)
    rw [length_orderedIds] at hlt
    show (0 : Int) < ((List.idxOf row.id (orderedIds contents.records) : Nat) : Int) + 1 ∧
      ((List.idxOf row.id (orderedIds contents.records) : Nat) : Int) + 1 ≤
        (contents.records.values.length : Int)
    omega
  · intro name name' change change' hlookup hlookup' heq
    obtain ⟨row, hrow, rfl⟩ := hchange name change hlookup
    obtain ⟨row', hrow', rfl⟩ := hchange name' change' hlookup'
    have hindex : (orderedIds contents.records).idxOf row.id =
        (orderedIds contents.records).idxOf row'.id := by
      simp only at heq
      omega
    rw [← h.key name row hrow, ← h.key name' row' hrow']
    exact (List.idxOf_inj (hmem hrow)).mp hindex

theorem Constrained.atHead (h : Constrained contents.sessions contents.records) :
    (contents.upgraded epoch).AtHead := by
  rcases Nat.eq_zero_or_pos (orderedIds contents.records).length with hzero | hpos
  · right
    have hempty : contents.records.values = [] := by
      rw [length_orderedIds] at hzero
      exact List.length_eq_zero_iff.mp hzero
    refine ⟨by show ((contents.records.values.length : Nat) : Int) = 0; rw [hempty]; rfl, ?_⟩
    intro name
    rw [Option.eq_none_iff_forall_ne_some]
    intro change hchange
    obtain ⟨row, hrow, -⟩ :=
      Option.map_eq_some_iff.mp ((lookup_backfill name).symm.trans hchange)
    have hmem := (HashMap.mem_values_iff _ _).mpr ⟨name, hrow⟩
    rw [hempty] at hmem
    cases hmem
  · left
    -- the last row in the order has the last number
    have hlast : (orderedIds contents.records).length - 1 < (orderedIds contents.records).length := by
      omega
    obtain ⟨row, hrow, hid⟩ := mem_orderedIds.mp (List.getElem_mem hlast)
    obtain ⟨name, hname⟩ := (HashMap.mem_values_iff _ _).mp hrow
    refine ⟨name, _, (lookup_backfill name).trans (congrArg _ hname), ?_⟩
    have hindex := (nodup_orderedIds h.key).idxOf_getElem _ hlast
    rw [← hid] at hindex
    show ((List.idxOf row.id (orderedIds contents.records) : Nat) : Int) + 1 =
      (contents.records.values.length : Int)
    rw [← length_orderedIds, hindex]
    omega

end UpgradedRows

/-! ## What the calls read -/

/-- The relation that a row holds, of runs whose rows read. -/
structure RelationReads (J : SerdeJson Text) (contents : Contents Text App) (child : RunId)
    (row : RelationRow Text) (relation : ExecutionRelation) : Prop where
  document : Codec.decode J row.relation = .ok relation
  named : relation.child = child
  under : relation.parent.asStr = row.parent
  runs : ∃ parentRow childRow parentSpec childSpec,
    contents.runs.lookup relation.parent.asStr = some parentRow ∧
      parentRow.decode J relation.parent = .ok parentSpec ∧
      contents.runs.lookup child.asStr = some childRow ∧ childRow.decode J child = .ok childSpec ∧
      relation.validate parentSpec childSpec = .ok ()

/-- The database has the rows of a file, and what they decode to is what the calls read. -/
structure Preserved (J : SerdeJson Text) (contents : Contents Text App) (db : Db Text) : Prop where
  tables : db.sessions = contents.sessions ∧ db.runs = contents.runs ∧
    db.records = contents.records ∧ db.decisions = contents.decisions ∧
    db.continuations = contents.continuations ∧
    db.executionRelations = contents.executionRelations
  record : ∀ (id : RecordId) row e, contents.records.lookup id.asStr = some row →
    DecodesTo J row e → get J id db = .ok e.current
  missing : ∀ id : RecordId, contents.records.lookup id.asStr = none →
    get J id db = .error .missingRecord
  /-- A record was created with the draft that is repeated in vain. -/
  draft : ∀ (id : RecordId) row e, contents.records.lookup id.asStr = some row →
    DecodesTo J row e → (Rules.draftOf e.initial).payload.isResponse = false →
      call J (.insert (Rules.draftOf e.initial)) db = (.ok e.current, db)
  listed : ∀ (session : SessionId) (after : Option Nat) limit,
    (contents.sessions.lookup session.asStr).isSome → (1 ≤ limit ∧ limit ≤ 1000) →
      (∀ a, after = some a → (a : Int) ≤ i64Max) →
        ∃ page, list J session after limit db = .ok page ∧ Listed J db session after limit page ∧
          page.Pairwise fun s s' => s.record.sequence < s'.record.sequence
  run : ∀ (id : RunId) row spec, contents.runs.lookup id.asStr = some row →
    row.decode J id = .ok spec → getRun J id db = .ok spec
  response : ∀ (request id : RecordId) row e r,
    contents.decisions.lookup request.asStr = some id.asStr →
      contents.records.lookup id.asStr = some row → DecodesTo J row e →
        call J (.resolve request r (Rules.draftOf e.initial)) db = (.ok e.current, db)
  continuation : ∀ (id : ContinuationId) row record,
    contents.continuations.lookup id.asStr = some row → row.decode J id = .ok record →
      getContinuation J id db = .ok record
  relation : ∀ (child : RunId) row relation,
    contents.executionRelations.lookup child.asStr = some row →
      RelationReads J contents child row relation →
        executionParent J child db = .ok (some relation)

/-- The rows of a page have increasing sequences. -/
theorem selectRecords_increasing {db : Db Text} (h : db.Ordered) (session : String) (after : Int)
    (limit : Nat) : (db.selectRecords session after limit).Pairwise
      fun a b => a.sequence < b.sequence := by
  have hnodup : (db.selectRecords session after limit).Nodup := by
    unfold Db.selectRecords
    apply List.Nodup.sublist (List.take_sublist _ _)
    rw [(List.perm_insertionSort _ _).nodup_iff]
    apply List.Nodup.filter
    apply HashMap.nodup_values
    intro name name' row hrow hrow'
    rw [← h.sound.key name row hrow, h.sound.key name' row hrow']
  have hsorted : (db.selectRecords session after limit).Pairwise
      fun a b => a.sequence ≤ b.sequence := by
    unfold Db.selectRecords
    exact (List.pairwise_insertionSort (fun a b : RowData Text => a.sequence ≤ b.sequence) _).sublist
      (List.take_sublist _ _)
  have hselected : ∀ {row}, row ∈ db.selectRecords session after limit →
      row.session = session ∧ ∃ name, db.records.lookup name = some row := by
    intro row hrow
    have hmem := List.mem_of_mem_take hrow
    rw [List.mem_insertionSort, List.mem_filter, HashMap.mem_values_iff, Bool.and_eq_true,
      beq_iff_eq] at hmem
    exact ⟨hmem.2.1, hmem.1⟩
  apply (hsorted.and hnodup).imp_of_mem
  rintro a b ha hb ⟨hle, hne⟩
  obtain ⟨hsession, name, hname⟩ := hselected ha
  obtain ⟨hsession', name', hname'⟩ := hselected hb
  apply lt_of_le_of_ne hle
  intro heq
  have hnames := h.unique name name' a b hname hname' (hsession.trans hsession'.symm) heq
  rw [hnames, hname', Option.some.injEq] at hname
  exact hne hname.symm

/-- A page has the order of its rows. -/
theorem decodeRows_increasing {rows : List (RowData Text)} {page : List Snapshot}
    (hrows : rows.Pairwise fun a b => a.sequence < b.sequence)
    (hpage : decodeRows J rows = .ok page) :
    page.Pairwise fun s s' => s.record.sequence < s'.record.sequence := by
  induction rows generalizing page with
  | nil =>
    obtain rfl := Except.ok.inj hpage
    exact List.Pairwise.nil
  | cons row rows ih =>
    simp only [decodeRows, bind_eq_ok, decode_eq_ok, Except.ok.injEq] at hpage
    obtain ⟨e, he, rest, hrest, rfl⟩ := hpage
    obtain ⟨hbefore, hafter⟩ := List.pairwise_cons.mp hrows
    refine List.pairwise_cons.mpr ⟨fun s hs => ?_, ih hafter hrest⟩
    obtain ⟨other, hother, e', he', rfl⟩ := (mem_page hrest).2.1 s hs
    have hlt := hbefore other hother
    rw [he.sequence, he'.sequence] at hlt
    omega

theorem Constrained.preserved {contents : Contents Text App}
    (h : Constrained contents.sessions contents.records)
    (hdecode : ∀ name row, contents.records.lookup name = some row → ∃ e, DecodesTo J row e) :
    Preserved J contents (contents.upgraded epoch) := by
  have hordered : (contents.upgraded epoch).Ordered := h.ordered
  have hentry : ∀ {id : RecordId} {row e}, contents.records.lookup id.asStr = some row →
      DecodesTo J row e → entry J (contents.upgraded epoch) id = .ok (some e) :=
    fun hrow he => entry_eq_some.mpr ⟨_, hrow, he⟩
  have hdraft : ∀ {id : RecordId} {row e}, contents.records.lookup id.asStr = some row →
      DecodesTo J row e → (Rules.draftOf e.initial).id = id ∧
        (contents.upgraded epoch).HasDraft J (Rules.draftOf e.initial) := by
    intro id row e hrow he
    have hid := h.key _ row hrow
    rw [he.id] at hid
    have hinitial : (Rules.draftOf e.initial).id = id :=
      he.initial_id.trans (Identifier.asStr_inj.mp hid)
    exact ⟨hinitial, e, hinitial ▸ hentry hrow he, rfl⟩
  have hget : ∀ {id : RecordId} {row e}, contents.records.lookup id.asStr = some row →
      DecodesTo J row e → get J id (contents.upgraded epoch) = .ok e.current := by
    intro id row e hrow he
    simp only [get, hentry hrow he, ok_bind]
  constructor
  case tables => exact ⟨rfl, rfl, rfl, rfl, rfl, rfl⟩
  case record => exact fun _ _ _ => hget
  case missing =>
    intro id hnone
    have hmissing : entry J (contents.upgraded epoch) id = .ok none := entry_eq_none.mpr hnone
    simp only [get, hmissing, ok_bind]
  case draft =>
    intro id row e hrow he hresponse
    obtain ⟨hid, hhas⟩ := hdraft hrow he
    obtain ⟨s, hread, hinsert⟩ := insert_again hresponse hhas
    rw [hid, hget hrow he, Except.ok.injEq] at hread
    exact hread ▸ hinsert
  case listed =>
    intro session after limit hsession hlimit hafter
    have hrows : ∀ row ∈ (contents.upgraded epoch).selectRecords session.asStr
        (after.elim (-1) fun a => (a : Int)) limit, ∃ e, DecodesTo J row e := by
      intro row hrow
      have hmem := List.mem_of_mem_take hrow
      rw [List.mem_insertionSort, List.mem_filter, HashMap.mem_values_iff] at hmem
      obtain ⟨⟨name, hname⟩, -⟩ := hmem
      exact hdecode name row hname
    obtain ⟨page, hpage⟩ := decodeRows_ok hrows
    exact ⟨page, (list_eq hsession hlimit hafter).trans hpage, .of_page hordered.sound hpage,
      decodeRows_increasing (selectRecords_increasing hordered _ _ _) hpage⟩
  case run =>
    intro id row spec hrow hspec
    have hread : readRun J (contents.upgraded epoch) id = .ok (some spec) :=
      transpose_eq_ok.mpr (.inr ⟨row, spec, hrow, rfl, hspec⟩)
    simp only [getRun, hread, ok_bind]
  case response =>
    intro request id row e r hlinked hrow he
    obtain ⟨hid, hhas⟩ := hdraft hrow he
    obtain ⟨s, hread, hresolve⟩ := resolve_again hhas (hid.symm ▸ hlinked) r
    rw [hid, hget hrow he, Except.ok.injEq] at hread
    exact hread ▸ hresolve
  case continuation =>
    intro id row record hrow hrecord
    have hread : readContinuation J (contents.upgraded epoch) id = .ok (some record) :=
      transpose_eq_ok.mpr (.inr ⟨row, record, hrow, rfl, hrecord⟩)
    simp only [getContinuation, hread, ok_bind]
  case relation =>
    intro child row relation hrow hrelation
    obtain ⟨parentRow, childRow, parentSpec, childSpec, hparent, hparentSpec, hchild, hchildSpec,
      hvalid⟩ := hrelation.runs
    have hreadParent : readRun J (contents.upgraded epoch) relation.parent =
        .ok (some parentSpec) :=
      transpose_eq_ok.mpr (.inr ⟨parentRow, parentSpec, hparent, rfl, hparentSpec⟩)
    have hreadChild : readRun J (contents.upgraded epoch) child = .ok (some childSpec) :=
      transpose_eq_ok.mpr (.inr ⟨childRow, childSpec, hchild, rfl, hchildSpec⟩)
    refine transpose_eq_ok.mpr (.inr ⟨row, relation, hrow, rfl, ?_⟩)
    unfold RelationRow.decode
    simp only [hrelation.document, ok_bind, hrelation.named, hrelation.under, hreadParent,
      hreadChild, hvalid, ne_eq, not_true_eq_false, or_self, if_false]

/-! ## The results -/

/-- One change of each record, at a position of its own, up to the clock. -/
structure Db.Positioned (db : Db Text) : Prop where
  each : ∀ name, (db.recordChanges.lookup name).isSome = (db.records.lookup name).isSome
  distinct : ∀ name name' change change', db.recordChanges.lookup name = some change →
    db.recordChanges.lookup name' = some change' → change.position = change'.position →
      name = name'
  bounded : ∀ name change, db.recordChanges.lookup name = some change →
    change.position ≤ db.changeClock.position
  head : db.AtHead

theorem Db.Sound.positioned {db : Db Text} (h : db.Sound) (hhead : db.AtHead) :
    db.Positioned where
  each name := by
    rw [Bool.eq_iff_iff]
    constructor
    · intro hsome
      obtain ⟨change, hchange⟩ := Option.isSome_iff_exists.mp hsome
      exact h.recorded name change hchange
    · intro hsome
      obtain ⟨row, hrow⟩ := Option.isSome_iff_exists.mp hsome
      obtain ⟨change, hchange, -⟩ := h.change name row hrow
      exact Option.isSome_iff_exists.mpr ⟨change, hchange⟩
  distinct := h.distinct
  bounded name change hchange := (h.position name change hchange).2
  head := hhead

/-- Whatever calls follow. -/
theorem positioned_after {db : Db Text} (h : db.Sound) (hhead : db.AtHead) (ops : List StoreOp) :
    ((machine J).after ops db).Positioned := by
  have hafter : ((machine J).after ops db).Sound ∧ ((machine J).after ops db).AtHead := by
    refine (machine J).after_invariant (P := fun db => db.Sound ∧ db.AtHead) ?_ ops ⟨h, hhead⟩
    intro β c db h
    exact ⟨h.1.step (call_step h.1 c), h.2.step (call_step (J := J) h.1 c)⟩
  exact hafter.1.positioned hafter.2

/-- A run of before the third migration has no configuration and continues nothing. -/
theorem File.AtVersion.plain_runs {version : Nat} (h : file.AtVersion version)
    (hversion : version < 3) {id : RunId} {row : RunRow Text} {spec : RunSpec}
    (hrow : file.contents.runs.lookup id.asStr = some row) (hspec : row.decode J id = .ok spec) :
    spec.config = .default ∧ spec.continuation = none := by
  have hconfigured : file.runs.any RunTable.isConfigured = decide (3 ≤ version) :=
    congrArg Presence.configured h.presence
  rw [decide_eq_false (by omega)] at hconfigured
  have hnull : row.config = none ∧ row.continuation = none := by
    unfold File.contents at hrow
    cases hruns : file.runs with
    | none =>
      rw [hruns] at hrow
      cases hrow
    | some runs =>
      cases runs with
      | configured rows =>
        rw [hruns] at hconfigured
        cases hconfigured
      | plain rows =>
        rw [hruns] at hrow
        obtain ⟨plain, -, rfl⟩ :=
          Option.map_eq_some_iff.mp ((HashMap.lookup_mapValues _ _ _).symm.trans hrow)
        exact ⟨rfl, rfl⟩
  unfold RunRow.decode at hspec
  simp only [bind_eq_ok, hnull.1, hnull.2, transpose, Except.ok.injEq] at hspec
  obtain ⟨_, -, _, -, _, -, _, rfl, _, rfl, rfl⟩ := hspec
  exact ⟨rfl, rfl⟩

theorem openReadOnly_eq_ok {u : Unit} (h : (file.openReadOnly refuses).1 = .ok u) :
    file.schema = some (some 7) := by
  unfold File.openReadOnly at h
  simp only [bind_eq_ok] at h
  obtain ⟨_, -, _, -, _, -, _, -, h⟩ := h
  split at h
  · next version hschema =>
    simp only [ok_bind, ite_error_eq_ok] at h
    rw [hschema, not_not.mp h.2.1]
  · cases h
  · cases h

/-- What opening leaves of a file that held these rows. -/
structure Opened (J : SerdeJson Text) (version : Nat) (file file' : File Text App) (db : Db Text) :
    Prop where
  schema : file'.schema = some (some 7)
  tables : file'.tables = some db
  resources : file'.resources = some file.contents.resources
  application : file'.application = file.application
  rows : Preserved J file.contents db
  plain : version < 3 → ∀ (id : RunId) spec, getRun J id db = .ok spec →
    spec.config = .default ∧ spec.continuation = none
  positions : ∀ ops, ((machine J).after ops db).Positioned

theorem Upgraded.opened {version : Nat} (h : file.AtVersion version)
    (hdecode : ∀ name row, file.contents.records.lookup name = some row → ∃ e, DecodesTo J row e)
    (hupgraded : Upgraded epoch file file') :
    Opened J version file file' (file.contents.upgraded epoch) where
  schema := hupgraded.schema
  tables := hupgraded.tables
  resources := hupgraded.resources
  application := congrArg Contents.application hupgraded.contents
  rows := h.constrained.preserved hdecode
  plain hversion id spec hspec := by
    unfold getRun at hspec
    obtain ⟨found, hfound, hspec⟩ := bind_eq_ok.mp hspec
    rcases transpose_eq_ok.mp hfound with ⟨-, rfl⟩ | ⟨row, spec', hrow, rfl, hdecoded⟩
    · cases hspec
    · obtain rfl := Except.ok.inj hspec
      exact h.plain_runs hversion hrow hdecoded
  positions := positioned_after h.constrained.ordered.sound h.constrained.atHead

/-- Opening a file of an older version fails and leaves it as it was, which takes a statement that is
refused, or brings it to the current version with all its rows.  Opening a file of the current
version again, whatever was called, does not change it, and opening read only never does. -/
theorem migration_preserves_everything {version : Nat} (h : file.AtVersion version)
    (hdecode : ∀ name row, file.contents.records.lookup name = some row → ∃ e, DecodesTo J row e)
    (refuses : Statement → Option StoreError) (epoch : String) :
    ((∃ e, file.openWithBusyTimeout refuses epoch = (.error e, file)) ∨
      ∃ file' db, file.openWithBusyTimeout refuses epoch = (.ok (), file') ∧
        Opened J version file file' db) ∧
    ((∀ statement, refuses statement = none) →
      (file.openWithBusyTimeout refuses epoch).1 = .ok ()) ∧
    (∀ current : File Text App, current.schema = some (some 7) →
      (current.openWithBusyTimeout refuses epoch).2 = current) ∧
    ∀ other : File Text App, (other.openReadOnly refuses).2 = other ∧
      ((other.openReadOnly refuses).1 = .ok () → other.schema = some (some 7)) := by
  obtain ⟨hupgraded, hruns⟩ := h.migrate refuses epoch
  refine ⟨?_, ?_, ?_, fun other => ⟨rfl, openReadOnly_eq_ok⟩⟩
  · rcases openWithBusyTimeout_cases refuses epoch file with hfail | ⟨file', hmigrated, hopen⟩
    · exact .inl hfail
    · exact .inr ⟨file', _, hopen, (hupgraded file' hmigrated).opened h hdecode⟩
  · intro hnone
    obtain ⟨file', hmigrated⟩ := hruns hnone
    unfold File.openWithBusyTimeout
    simp only [issue, hnone, ok_bind, hmigrated]
  · intro current hschema
    rcases openWithBusyTimeout_cases refuses epoch current with ⟨e, hfail⟩ | ⟨file', hmigrated, hopen⟩
    · rw [hfail]
    · rw [hopen]
      exact migrate_current hschema hmigrated

namespace Sample

/-- A document of the first codec. -/
def firstDocument (data : Json) : Json := .obj [("data", data), ("version", .num 1)]

def oldRow (id : String) (sequence : Int) (body : String) : RowData Json where
  id := id
  session := "session"
  run := some "run"
  sequence := sequence
  actor := "actor"
  reply := none
  source := none
  payload := firstDocument (Serde.toJson (AgentBridge.Sample.text body))
  state := "complete"
  revision := 0
  initial := none

/-- A file of the first version, with two messages of a run. -/
def oldFile : File Json Unit where
  schema := some (some 1)
  sessions := some ((∅ : HashMap String Int).insert "session" 2)
  runs := some (.plain ((∅ : HashMap String (PlainRunRow Json)).insert "run"
    ⟨"session", "slot", firstDocument (Serde.toJson ContextManifest.default)⟩))
  records := some (((∅ : HashMap String (RowData Json)).insert "answer"
    (oldRow "answer" 1 "kept")).insert "question" (oldRow "question" 0 "keep"))
  decisions := some ∅
  continuations := none
  resources := none
  executionRelations := none
  changeClock := none
  recordChanges := none
  strays := []
  application := ()

theorem oldFile_rows {name : String} {row : RowData Json}
    (h : oldFile.contents.records.lookup name = some row) :
    (name = "question" ∧ row = oldRow "question" 0 "keep") ∨
      (name = "answer" ∧ row = oldRow "answer" 1 "kept") := by
  have hlookup : ∀ name, oldFile.contents.records.lookup name =
      if name = "question" then some (oldRow "question" 0 "keep")
      else if name = "answer" then some (oldRow "answer" 1 "kept") else none := by
    intro name
    refine (HashMap.lookup_insert_eq _ _ _ _).trans ?_
    rw [HashMap.lookup_insert_eq, AList.lookup_empty]
  rw [hlookup] at h
  split at h
  · next hname => exact .inl ⟨hname, (Option.some.inj h).symm⟩
  · split at h
    · next hname => exact .inr ⟨hname, (Option.some.inj h).symm⟩
    · cases h

theorem oldFile_atVersion : oldFile.AtVersion 1 := by
  refine ⟨by decide, rfl, rfl, by decide, ?_⟩
  constructor
  case key =>
    intro name row hrow
    rcases oldFile_rows hrow with ⟨rfl, rfl⟩ | ⟨rfl, rfl⟩ <;> rfl
  case sequence =>
    intro name row hrow
    rcases oldFile_rows hrow with ⟨rfl, rfl⟩ | ⟨rfl, rfl⟩ <;> decide
  case revision =>
    intro name row hrow
    rcases oldFile_rows hrow with ⟨rfl, rfl⟩ | ⟨rfl, rfl⟩ <;> decide
  case unique =>
    intro name name' row row' hrow hrow' _ heq
    rcases oldFile_rows hrow with ⟨rfl, rfl⟩ | ⟨rfl, rfl⟩ <;>
      rcases oldFile_rows hrow' with ⟨rfl, rfl⟩ | ⟨rfl, rfl⟩
    · rfl
    · cases heq
    · cases heq
    · rfl
  case session =>
    intro name row hrow
    rcases oldFile_rows hrow with ⟨rfl, rfl⟩ | ⟨rfl, rfl⟩ <;> decide
  case count => decide

theorem oldFile_decodes {name : String} {row : RowData Json}
    (h : oldFile.contents.records.lookup name = some row) :
    ∃ e, DecodesTo SerdeJson.tree row e := by
  rcases oldFile_rows h with ⟨-, rfl⟩ | ⟨-, rfl⟩
  · exact ⟨_, decode_eq_ok.mp rfl⟩
  · exact ⟨_, decode_eq_ok.mp rfl⟩

end Sample

theorem old_file_is_upgraded :
    ∃ file' db, Sample.oldFile.openWithBusyTimeout (fun _ => none) "epoch" = (.ok (), file') ∧
      Opened SerdeJson.tree 1 Sample.oldFile file' db ∧
      (get SerdeJson.tree ⟨"answer", (rfl : false = false)⟩ db).map (·.record.payload) =
        .ok (AgentBridge.Sample.text "kept") ∧
      (getRun SerdeJson.tree ⟨"run", (rfl : false = false)⟩ db).map (·.config) = .ok .default := by
  obtain ⟨hopened, hruns, -⟩ := migration_preserves_everything (J := SerdeJson.tree)
    Sample.oldFile_atVersion (fun _ _ => Sample.oldFile_decodes) (fun _ => none) "epoch"
  rcases hopened with ⟨e, hfail⟩ | ⟨file', db, hopen, h⟩
  · have hok := hruns fun _ => rfl
    rw [hfail] at hok
    cases hok
  · refine ⟨file', db, hopen, h, ?_, ?_⟩
    · rw [h.rows.record _ (Sample.oldRow "answer" 1 "kept") _ rfl (decode_eq_ok.mp rfl)]
      rfl
    · rw [h.rows.run _ _ _ rfl rfl]
      rfl

end SqliteStore

end AgentBridge
