import AgentBridge.Records.Checkpoints

/-!
# What the SQLite store accepts is readable

The encodings of the data model read back from their documents, but for the payloads and
continuations that the text format cannot hold.  As long as calls commit nothing else, `get` and
`list` return every record that was accepted, exactly as it was written.
-/

namespace AgentBridge

open Reasoning

namespace SqliteStore

variable {Text : Type} {J : SerdeJson Text} {db db' : Db Text}

/-! ## Pages -/

/-- A page holds what its rows decode to, and nothing else. -/
theorem mem_page {rows : List (RowData Text)} {page : List Snapshot}
    (h : decodeRows J rows = .ok page) :
    page.length = rows.length ∧
      (∀ s ∈ page, ∃ row ∈ rows, ∃ e, DecodesTo J row e ∧ e.current = s) ∧
      ∀ row ∈ rows, ∃ e, DecodesTo J row e ∧ e.current ∈ page := by
  induction rows generalizing page with
  | nil =>
    obtain rfl := Except.ok.inj h
    simp
  | cons row rows ih =>
    simp only [decodeRows, bind_eq_ok, decode_eq_ok, Except.ok.injEq] at h
    obtain ⟨e, he, rest, hrest, rfl⟩ := h
    obtain ⟨hlength, hrows, hpage⟩ := ih hrest
    refine ⟨by simp [hlength], ?_, ?_⟩
    · intro s hs
      rcases List.mem_cons.mp hs with rfl | hs
      · exact ⟨row, List.mem_cons_self, e, he, rfl⟩
      · obtain ⟨other, hother, hdecodes⟩ := hrows s hs
        exact ⟨other, List.mem_cons_of_mem _ hother, hdecodes⟩
    · intro other hother
      rcases List.mem_cons.mp hother with rfl | hother
      · exact ⟨e, he, List.mem_cons_self⟩
      · obtain ⟨e', he', hmem⟩ := hpage other hother
        exact ⟨e', he', List.mem_cons_of_mem _ hmem⟩

/-- A row selected is the row of its record. -/
theorem Db.Sound.version_of_selected (hs : db.Sound) {session : String} {after : Int} {limit : Nat}
    {row : RowData Text} (hrow : row ∈ db.selectRecords session after limit) {e : Entry}
    (he : DecodesTo J row e) : db.version J e.current.record.id = some e.current := by
  unfold Db.selectRecords at hrow
  have hmem := List.mem_of_mem_take hrow
  rw [List.mem_insertionSort, List.mem_filter, HashMap.mem_values_iff] at hmem
  obtain ⟨⟨name, hname⟩, -⟩ := hmem
  have hkey := hs.key name row hname
  apply version_of_read
  apply Db.read_eq_some.mpr
  exact entry_eq_some.mpr ⟨row, by rw [← he.id, hkey, hname], he⟩

/-- The page from `after` on: what `list` answers when the session exists. -/
theorem list_eq {session : SessionId} {after : Option Nat} {limit : Nat}
    (hsession : (db.sessions.lookup session.asStr).isSome) (hlimit : 1 ≤ limit ∧ limit ≤ 1000)
    (hafter : ∀ a, after = some a → (a : Int) ≤ i64Max) :
    list J session after limit db = decodeRows J (db.selectRecords session.asStr
      (after.elim (-1) fun a => (a : Int)) limit) := by
  obtain ⟨next, hnext⟩ := Option.isSome_iff_exists.mp hsession
  have hsequence : sessionSequence db session = .ok next := sessionSequence_eq_ok.mpr hnext
  unfold list
  rw [if_neg (by omega), hsequence, ok_bind]
  cases after with
  | none => rfl
  | some a =>
    have hi64 : tryI64 a = some (a : Int) := tryI64_eq_some.mpr ⟨hafter a rfl, rfl⟩
    simp only [hi64, Option.elim]

/-- What `list` answers is what `get` answers, and a page that is not full holds every record of
the session that comes after. -/
structure Listed (J : SerdeJson Text) (db : Db Text) (session : SessionId) (after : Option Nat)
    (limit : Nat) (page : List Snapshot) : Prop where
  current : ∀ s ∈ page, db.version J s.record.id = some s ∧ s.record.sessionId = session
  complete : page.length < limit → ∀ id s, db.version J id = some s →
    s.record.sessionId = session → (∀ a, after = some a → a < s.record.sequence) → s ∈ page

/-- A page read is the one asked for. -/
theorem Listed.of_page (hs : db.Sound) {session : SessionId} {after : Option Nat} {limit : Nat}
    {page : List Snapshot} (hpage : decodeRows J (db.selectRecords session.asStr
      (after.elim (-1) fun a => (a : Int)) limit) = .ok page) :
    Listed J db session after limit page := by
  obtain ⟨hlength, hrows, hmem⟩ := mem_page hpage
  constructor
  · intro s hs'
    obtain ⟨row, hrow, e, he, rfl⟩ := hrows s hs'
    refine ⟨hs.version_of_selected hrow he, ?_⟩
    unfold Db.selectRecords at hrow
    have hselected := List.mem_of_mem_take hrow
    rw [List.mem_insertionSort, List.mem_filter] at hselected
    have hname : row.session = session.asStr := by
      have := hselected.2
      simp only [Bool.and_eq_true, beq_iff_eq] at this
      exact this.1
    rw [he.session] at hname
    exact Identifier.asStr_inj.mp hname
  · intro hshort id s hversion hsame hlt
    have hread : ∃ e, db.read J id = some e ∧ e.current = s := by
      simpa [Db.version] using hversion
    obtain ⟨e, he, rfl⟩ := hread
    obtain ⟨row, hrow, hdecodes⟩ := entry_eq_some.mp (Db.read_eq_some.mp he)
    -- the page is not full, so `take` has cut nothing off
    have hselected : row ∈ db.selectRecords session.asStr
        (after.elim (-1) fun a => (a : Int)) limit := by
      unfold Db.selectRecords at hlength ⊢
      rw [List.length_take] at hlength
      rw [List.take_of_length_le (by omega), List.mem_insertionSort, List.mem_filter,
        HashMap.mem_values_iff]
      refine ⟨⟨_, hrow⟩, ?_⟩
      have hsequence := hdecodes.sequence
      have hname : row.session = session.asStr := by rw [hdecodes.session, hsame]
      simp only [Bool.and_eq_true, beq_iff_eq, decide_eq_true_eq]
      refine ⟨hname, ?_⟩
      cases after with
      | none =>
        simp only [Option.elim]
        omega
      | some a =>
        have := hlt a rfl
        simp only [Option.elim]
        omega
    obtain ⟨e', he', hin⟩ := hmem row hselected
    have hdecode := decode_eq_ok.mpr hdecodes
    rw [decode_eq_ok.mpr he', Except.ok.injEq] at hdecode
    rw [← hdecode]
    exact hin

theorem listed (hs : db.Sound) (hr : db.Readable J) {session : SessionId} {after : Option Nat}
    {limit : Nat} (hsession : (db.sessions.lookup session.asStr).isSome)
    (hlimit : 1 ≤ limit ∧ limit ≤ 1000) (hafter : ∀ a, after = some a → (a : Int) ≤ i64Max) :
    ∃ page, list J session after limit db = .ok page ∧ Listed J db session after limit page := by
  obtain ⟨page, hpage⟩ := decodeRows_ok
    (hr.selectRecords session.asStr (after.elim (-1) fun a => (a : Int)) limit)
  exact ⟨page, (list_eq hsession hlimit hafter).trans hpage, .of_page hs hpage⟩

/-! ## Records accepted -/

/-- The snapshot that a mutation has accepted. -/
def accepted {β : Type} : StoreCall β → Except StoreError β → Option Snapshot
  | .insert _, .ok s => some s
  | .checkpoint _ _ _ _, .ok s => some s
  | .resolve _ _ _, .ok s => some s
  | _, _ => none

theorem accepted_of_writesHistory {β : Type} {c : StoreCall β} (h : writesHistory c = false)
    (answer : Except StoreError β) : accepted c answer = none := by
  cases c <;> first | rfl | cases h

/-- An entry read by its id is the version of this id. -/
theorem Db.Sound.version_of_entry (hs : db.Sound) {record : RecordId} {e : Entry}
    (h : entry J db record = .ok (some e)) :
    db.version J e.current.record.id = some e.current := by
  obtain ⟨-, -, -, hnamed, -⟩ := hs.entry_row h
  rw [hnamed]
  exact version_of_read (Db.read_eq_some.mpr h)

/-- A snapshot accepted is the current version of its record. -/
theorem version_of_accepted (hJ : J.Lawful) (h : db.Intact J) {β : Type} {c : StoreCall β}
    (hc : db.Storable J c) {s : Snapshot} (hs : accepted c (call J c db).1 = some s) :
    (call J c db).2.version J s.record.id = some s := by
  cases hw : writesHistory c with
  | false =>
    rw [accepted_of_writesHistory hw] at hs
    cases hs
  | true =>
    cases c with
    | registerRun spec => cases hs
    | insert draft =>
      have hs' : accepted (.insert draft) (write (SqliteStore.insert J draft) db).1 = some s := hs
      show (write (SqliteStore.insert J draft) db).2.version J s.record.id = some s
      rcases insert_cases J draft db with ⟨e, he⟩ | ⟨e, -, hrepeats, he⟩ | ⟨next, hi, he⟩
      · rw [he] at hs'
        cases hs'
      · rw [he] at hs' ⊢
        obtain rfl := Option.some.inj hs'
        exact h.sound.version_of_entry hrepeats.found
      · rw [he] at hs' ⊢
        obtain rfl := Option.some.inj hs'
        exact (version_afterInsert hJ hi.prepares hi.bound (hc next hi) _).trans (if_pos rfl)
    | checkpoint record r payload next =>
      have hs' : accepted (.checkpoint record r payload next)
        (write (checkpoint J record r payload next) db).1 = some s := hs
      show (write (checkpoint J record r payload next) db).2.version J s.record.id = some s
      rcases checkpoint_cases h.sound record r payload next with
        ⟨e, he⟩ | ⟨e, hentry, -, he⟩ | ⟨e, row, change, hu, hadv, he⟩
      · rw [he] at hs'
        cases hs'
      · rw [he] at hs' ⊢
        obtain rfl := Option.some.inj hs'
        exact h.sound.version_of_entry hentry
      · rw [he] at hs' ⊢
        obtain rfl := Option.some.inj hs'
        obtain ⟨hstores, hinitial⟩ := hc e row change hu hadv
        exact (version_afterUpdate hJ hu hadv.valid hstores hinitial _).trans (if_pos hu.named)
    | resolve request r decision =>
      have hs' : accepted (.resolve request r decision)
        (write (resolve J request r decision) db).1 = some s := hs
      show (write (resolve J request r decision) db).2.version J s.record.id = some s
      rcases resolve_cases h.sound request r decision with
        ⟨e, he⟩ | ⟨response, e, -, hrepeats, he⟩ | ⟨e, row, change, next, ha, he⟩
      · rw [he] at hs'
        cases hs'
      · rw [he] at hs' ⊢
        obtain rfl := Option.some.inj hs'
        exact h.sound.version_of_entry hrepeats.found
      · rw [he] at hs' ⊢
        obtain rfl := Option.some.inj hs'
        exact (version_afterResolve hJ ha _).trans (if_pos rfl)
    | _ => cases hw

/-- What is readable after a run, of all that the run has accepted. -/
structure KeepsAccepted (J : SerdeJson Text) (start : Db Text) (ops : List StoreOp) : Prop where
  /-- Every row of a record reads, with the payload that was written to it. -/
  stored : ∀ (record : RecordId) (row : RowData Text),
    ((machine J).after ops start).records.lookup record.asStr = some row →
      ∃ s, get J record ((machine J).after ops start) = .ok s ∧
        Codec.encode J s.record.payload = .ok row.payload
  /-- A snapshot accepted at any point is read as it is until a later version is accepted. -/
  kept : ∀ pre op s, pre ++ [op] <+: ops →
    accepted op.call (call J op.call ((machine J).after pre start)).1 = some s →
      ∃ s', get J s.record.id ((machine J).after ops start) = .ok s' ∧
        s.revision ≤ s'.revision ∧ (s'.revision = s.revision → s' = s)
  listed : ∀ session (after : Option Nat) limit,
    (((machine J).after ops start).sessions.lookup session.asStr).isSome →
    (1 ≤ limit ∧ limit ≤ 1000) → (∀ a, after = some a → (a : Int) ≤ i64Max) →
      ∃ page, list J session after limit ((machine J).after ops start) = .ok page ∧
        Listed J ((machine J).after ops start) session after limit page

theorem keepsAccepted (hJ : J.Lawful) {start : Db Text} (hstart : start.Intact J)
    {ops : List StoreOp} (hgood : GoodRun (machine J) (fun c db => db.Storable J c) ops start) :
    KeepsAccepted J start ops := by
  have hstore := versionedStore (J := J) hJ
  have hintact := hstore.inv_after hstart hgood
  constructor
  case stored =>
    intro record row hrow
    obtain ⟨e, he, hpayload⟩ := hintact.readable _ row hrow
    refine ⟨e.current, version_eq_some.mp ?_, by rw [hpayload]; rfl⟩
    exact version_of_read (Db.read_eq_some.mpr (entry_eq_some.mpr ⟨row, hrow, he⟩))
  case kept =>
    intro pre op s hfront hs
    obtain ⟨post, rfl⟩ := hfront
    obtain ⟨hupto, hpost⟩ := GoodRun.append.mp hgood
    obtain ⟨hpre, hcall, -⟩ := GoodRun.append.mp hupto
    have hversion := version_of_accepted hJ (hstore.inv_after hstart hpre) hcall hs
    have hafter : (machine J).after (pre ++ [op]) start =
        (call J op.call ((machine J).after pre start)).2 := by
      rw [Machine.after_append]
      rfl
    rw [← hafter] at hversion
    obtain ⟨s', hs', hreach⟩ := hstore.reaches (hstore.inv_after hstart hupto) hpost hversion
    rw [← Machine.after_append] at hs'
    exact ⟨s', version_eq_some.mp hs', hreach.revision_le, hreach.eq_of_revision⟩
  case listed =>
    intro session after limit hsession hlimit hafter
    exact SqliteStore.listed hintact.sound hintact.readable hsession hlimit hafter

end SqliteStore

/-! ## Round trips -/

/-- Encoding succeeds, and decoding what it returns gives the value back. -/
def Codec.RoundTrips {Text α : Type} [Serde α] (J : SerdeJson Text) (a : α) : Prop :=
  ∃ text, Codec.encode J a = .ok text ∧ Codec.decode J text = .ok a

theorem Codec.roundTrips_iff {Text α : Type} [Serde α] {J : SerdeJson Text} {a : α} :
    Codec.RoundTrips J a ↔ Codec.ReadsBack J a := by
  constructor
  · rintro ⟨text, htext, hread⟩
    obtain rfl := Except.ok.inj htext
    exact hread
  · exact fun h => ⟨_, rfl, h⟩

/-- Sources, contexts, configurations and relations always make the round trip; payloads do exactly
when they hold no `null` and are not nested too deeply, continuations when their data is not.  And
every run that commits nothing else keeps what it has accepted readable. -/
theorem storage_codec_round_trip {Text : Type} (J : SerdeJson Text) (hJ : J.Lawful) :
    ((∀ a : SourceRef, Codec.RoundTrips J a) ∧ (∀ a : ContextManifest, Codec.RoundTrips J a) ∧
      (∀ a : RunConfiguration, Codec.RoundTrips J a) ∧
      ∀ a : ExecutionRelation, Codec.RoundTrips J a) ∧
    (∀ a : Continuation, Codec.RoundTrips J a ↔ a.data.val.depth + 2 < recursionLimit) ∧
    (∀ payload state, Rules.validate payload state = .ok () →
      (Codec.RoundTrips J payload ↔ payload.Stores) ∧
      (Codec.RoundTrips J (⟨payload, state⟩ : InitialContent) ↔ payload.StoresInitially) ∧
      SqliteStore.parseState (SqliteStore.stateName state) = .ok state) ∧
    ∀ (epoch : String) (ops : List StoreOp),
      GoodRun (SqliteStore.machine J) (fun c db => db.Storable J c) ops
        (SqliteStore.Db.empty Text epoch) →
      SqliteStore.KeepsAccepted J (SqliteStore.Db.empty Text epoch) ops := by
  refine ⟨⟨?_, ?_, ?_, ?_⟩, ?_, ?_, ?_⟩
  · exact fun a => Codec.roundTrips_iff.mpr (Codec.readsBack_sourceRef hJ a)
  · exact fun a => Codec.roundTrips_iff.mpr (Codec.readsBack_contextManifest hJ a)
  · exact fun a => Codec.roundTrips_iff.mpr (Codec.readsBack_runConfiguration hJ a)
  · exact fun a => Codec.roundTrips_iff.mpr (Codec.readsBack_executionRelation hJ a)
  · exact fun a => Codec.roundTrips_iff.trans (Codec.readsBack_continuation_iff hJ a)
  · intro payload state _
    exact ⟨Codec.roundTrips_iff.trans (Codec.readsBack_payload_iff hJ payload),
      Codec.roundTrips_iff.trans (Codec.readsBack_initial_iff hJ ⟨payload, state⟩),
      SqliteStore.parseState_eq_ok.mpr rfl⟩
  · exact fun epoch ops hgood => SqliteStore.keepsAccepted hJ (.empty epoch) hgood

/-- The listing with its input is read after the run that wrote it. -/
theorem listing_round_trips :
    ∃ s', SqliteStore.get SerdeJson.tree Sample.listing ((SqliteStore.machine SerdeJson.tree).after
        Sample.inputOps (SqliteStore.Db.empty Json "epoch")) = .ok s' ∧ 0 ≤ s'.revision ∧
      (s'.revision = 0 → s' = Rules.created Sample.listingDraft 0) :=
  ((storage_codec_round_trip SerdeJson.tree SerdeJson.tree_lawful).2.2.2 "epoch" Sample.inputOps
    Sample.inputOps_storable).kept [⟨.createSession Sample.session⟩] ⟨.insert Sample.listingDraft⟩ _
      ⟨[⟨.checkpoint Sample.listing 0 (Sample.activity (some Sample.path)) .opened⟩], rfl⟩ rfl

namespace Sample

/-- As many arrays around a `null`. -/
def nested : Nat → Json
  | 0 => .null
  | n + 1 => .arr [nested n]

theorem nested_canonical (n : Nat) : (nested n).canonical = true := by
  induction n with
  | zero => rfl
  | succ n ih => simp [nested, Json.canonical, Json.canonicalItems, ih]

/-- A tool activity whose input the parser rejects. -/
def deep : Payload := activity (some ⟨nested 125, nested_canonical 125⟩)

def deepDraft : Draft := { listingDraft with payload := deep }

end Sample

set_option maxRecDepth 4000 in
/-- A tool activity with a `null` input and one with a deeply nested input are valid, and neither
makes the round trip: the first is read without its input, the second makes `list` fail. -/
theorem tool_inputs_do_not_round_trip :
    (Rules.validate (Sample.activity (some Sample.null)) .opened = .ok () ∧
      ¬ Codec.RoundTrips SerdeJson.tree (Sample.activity (some Sample.null))) ∧
    (Rules.validate Sample.deep .opened = .ok () ∧ ¬ Codec.RoundTrips SerdeJson.tree Sample.deep) ∧
    SqliteStore.list SerdeJson.tree Sample.session none 10
      ((SqliteStore.machine SerdeJson.tree).after
        [⟨.createSession Sample.session⟩, ⟨.insert Sample.deepDraft⟩]
        (SqliteStore.Db.empty Json "epoch")) = .error (.corruptData "recursion limit exceeded") := by
  refine ⟨⟨rfl, ?_⟩, ⟨rfl, ?_⟩, rfl⟩
  · rw [Codec.roundTrips_iff, Codec.readsBack_payload_iff SerdeJson.tree_lawful]
    exact fun h => absurd h.1 (by decide)
  · rw [Codec.roundTrips_iff, Codec.readsBack_payload_iff SerdeJson.tree_lawful]
    exact fun h => absurd h.2 (by decide)

end AgentBridge
