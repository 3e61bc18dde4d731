import AgentBridge.Client.Synchronization
import AgentBridge.Records.Migration

/-!
# A client of any database

The database was created empty or brought up from an older version, with a first change of every
record: a client that synchronises a session of it loses nothing.
-/

namespace AgentBridge

open Reasoning

namespace StateSystem

open SqliteStore SessionState

variable {Text App : Type} {J : SerdeJson Text} {accepts : Snapshot → Bool} {epoch : String}
  {session : SessionId} {s : StateSystem Text} {file file' : File Text App} {db : Db Text}

/-- A file that opens holds a database as calls leave it. -/
theorem reached_of_open {version : Nat} (hfile : file.AtVersion version)
    {refuses : Statement → Option StoreError}
    (hopen : file.openWithBusyTimeout refuses epoch = (.ok (), file')) (hdb : file'.tables = some db) :
    Reached db := by
  rcases openWithBusyTimeout_cases refuses epoch file with ⟨e, hfail⟩ | ⟨migrated, hmigrated, hok⟩
  · rw [hfail] at hopen
    cases hopen
  · obtain rfl := (Prod.mk.inj (hok.symm.trans hopen)).2
    have htables := ((hfile.migrate refuses epoch).1 migrated hmigrated).tables
    obtain rfl := Option.some.inj (htables.symm.trans hdb)
    exact ⟨hfile.constrained.ordered, hfile.constrained.count⟩

/-- In every run over a database that was created empty or migrated: what has not changed since the
cursor is held as the store reads it; a `sync` that is fulfilled leaves the session as the store
held it when the last page was read, and one that is rejected leaves what there was; and nothing but
a restart from a checkpoint takes a record back. -/
theorem sync_loses_nothing {version : Nat} (hfile : file.AtVersion version)
    {refuses : Statement → Option StoreError}
    (hopen : file.openWithBusyTimeout refuses epoch = (.ok (), file')) (hdb : file'.tables = some db)
    {events : List Event} (hrun : Next.run (next J accepts) events (start db session) = some s) :
    s.CaughtUp J session ∧
    (∀ e t, next J accepts s e = some t → Settles J session s t) ∧
    ∀ e t, e ≠ .restart → next J accepts s e = some t → NoOlder s.state.records t.state.records := by
  have h := coherent_run (reached_of_open hfile hopen hdb) hrun
  exact ⟨h.caughtUp, fun _ _ hnext => h.settles_next hnext,
    fun _ _ hne hnext => h.noOlder hne hnext⟩

namespace Sample

def upgradedFile : File Json Unit :=
  (SqliteStore.Sample.oldFile.openWithBusyTimeout (fun _ => none) "epoch").2

def upgradedDb : Db Json := SqliteStore.Sample.oldFile.contents.upgraded "epoch"

theorem upgradedFile_opens :
    SqliteStore.Sample.oldFile.openWithBusyTimeout (fun _ => none) "epoch" =
      (.ok (), upgradedFile) := rfl

theorem upgradedFile_tables : upgradedFile.tables = some upgradedDb := rfl

/-- A record is inserted behind the first page of one. -/
def upgradedEvents : List Event :=
  [.sync 1, .answer, .commit ⟨.insert AgentBridge.Sample.noteDraft⟩, .answer, .answer, .answer,
    .answer, .answer]

def caughtUp : StateSystem Json :=
  (Next.run (next SerdeJson.tree fun _ => true) upgradedEvents
    (start upgradedDb AgentBridge.Sample.session)).getD
      (start upgradedDb AgentBridge.Sample.session)

end Sample

theorem upgraded_file_is_synchronized :
    Sample.caughtUp.CaughtUp SerdeJson.tree AgentBridge.Sample.session ∧
      Sample.caughtUp.settled = [true] ∧
      Sample.caughtUp.state.position.map (·.position) = some 3 ∧
      Sample.caughtUp.state.records.keys.length = 3 :=
  ⟨(sync_loses_nothing SqliteStore.Sample.oldFile_atVersion Sample.upgradedFile_opens
      Sample.upgradedFile_tables (Next.run_getD (by decide +kernel) _)).1,
    by decide +kernel, by decide +kernel, by decide +kernel⟩

end StateSystem

end AgentBridge
