import AgentBridge.Context.Archive

/-!
# One winner for each revision

What an archive answers follows from the first resource that was put under each reference.  The map
in memory holds these winners; the tables hold them too, with one blob for each string of bytes.
-/

namespace AgentBridge

open Reasoning

namespace Context

/-! ## The winners -/

/-- What a call that was answered put under a reference. -/
def won (reference : ResourceRef) : ArchiveCall × Answer → Option Resource
  | (.put resource, .ok _) => if resource.reference = reference then some resource else none
  | _ => none

/-- The resource that was put first under a reference. -/
def firstPut (history : History) (reference : ResourceRef) : Option Resource :=
  history.findSome? (won reference)

def answerGet (winner : Option Resource) (reference : ResourceRef) : Answer :=
  if isBlank reference.revision then .error .invalid
  else
    match winner with
    | some resource => .ok resource
    | none => .error .missing

def answerPut (winner : Option Resource) (resource : Resource) : Answer :=
  if isBlank resource.reference.revision || isBlank resource.mediaType then .error .invalid
  else
    match winner with
    | some existing => if existing = resource then .ok existing else .error .revisionConflict
    | none => .ok resource

/-- What an archive with these winners answers. -/
def archived (winner : ResourceRef → Option Resource) : ArchiveCall → Answer
  | .get reference => answerGet (winner reference) reference
  | .put resource => answerPut (winner resource.reference) resource

theorem firstPut_append (past more : History) (reference : ResourceRef) :
    firstPut (past ++ more) reference = (firstPut past reference).or (firstPut more reference) :=
  List.findSome?_append

theorem firstPut_singleton (entry : ArchiveCall × Answer) (reference : ResourceRef) :
    firstPut [entry] reference = won reference entry := by
  simp [firstPut]

theorem won_reference {reference : ResourceRef} {entry : ArchiveCall × Answer} {resource : Resource}
    (h : won reference entry = some resource) : resource.reference = reference := by
  unfold won at h
  split at h
  · split at h
    · rename_i hreference
      rw [← Option.some.inj h]
      exact hreference
    · cases h
  · cases h

theorem won_put {reference : ResourceRef} {call : ArchiveCall} {answer : Answer}
    {resource : Resource} (h : won reference (call, answer) = some resource) :
    call = .put resource := by
  unfold won at h
  split at h
  · rename_i heq
    cases heq
    split at h
    · rw [Option.some.inj h]
    · cases h
  · cases h

theorem firstPut_reference {history : History} {reference : ResourceRef} {resource : Resource}
    (h : firstPut history reference = some resource) : resource.reference = reference := by
  obtain ⟨entry, -, hentry⟩ := List.exists_of_findSome?_eq_some h
  exact won_reference hentry

/-- An answer that is no success makes no winner. -/
theorem firstPut_error (past : History) (call : ArchiveCall) (error : ResourceError) :
    firstPut (past ++ [(call, .error error)]) = firstPut past := by
  funext reference
  rw [firstPut_append, firstPut_singleton]
  cases call <;> exact Option.or_none

theorem firstPut_get (past : History) (reference : ResourceRef) (answer : Answer) :
    firstPut (past ++ [(.get reference, answer)]) = firstPut past := by
  funext other
  rw [firstPut_append, firstPut_singleton]
  exact Option.or_none

/-- A put that finds its own reference taken makes no winner. -/
theorem firstPut_again {past : History} {resource existing : Resource}
    (h : firstPut past resource.reference = some existing) (answer : Answer) :
    firstPut (past ++ [(.put resource, answer)]) = firstPut past := by
  funext reference
  rw [firstPut_append, firstPut_singleton]
  cases answer with
  | error error => exact Option.or_none
  | ok answer =>
    by_cases hreference : resource.reference = reference
    · rw [← hreference, h]
      rfl
    · rw [show won reference (.put resource, .ok answer) = none from if_neg hreference,
        Option.or_none]

theorem firstPut_new {past : History} {resource : Resource}
    (h : firstPut past resource.reference = none) (answer : Resource) (reference : ResourceRef) :
    firstPut (past ++ [(.put resource, .ok answer)]) reference =
      if resource.reference = reference then some resource else firstPut past reference := by
  rw [firstPut_append, firstPut_singleton]
  by_cases hreference : resource.reference = reference
  · rw [if_pos hreference, ← hreference, h]
    exact if_pos rfl
  · rw [if_neg hreference,
      show won reference (.put resource, .ok answer) = none from if_neg hreference, Option.or_none]

/-! ## In memory -/

variable {past : History}

def MemoryResourceStore.Holds (past : History) (store : MemoryResourceStore) : Prop :=
  ∀ reference, store.resources.lookup (reference.id, reference.revision) = firstPut past reference

theorem MemoryResourceStore.default_holds : default.Holds [] := fun _ => AList.lookup_empty _

theorem key_inj {a b : ResourceRef} (h : (a.id, a.revision) = (b.id, b.revision)) :
    a = b := by
  cases a
  cases b
  simpa using h

theorem MemoryResourceStore.Holds.get {store : MemoryResourceStore} (h : store.Holds past)
    (reference : ResourceRef) :
    store.get reference = answerGet (firstPut past reference) reference :=
  congrArg (answerGet · reference) (h reference)

theorem MemoryResourceStore.Holds.put {store : MemoryResourceStore} (h : store.Holds past)
    (resource : Resource) :
    (store.put resource).1 = answerPut (firstPut past resource.reference) resource ∧
      (store.put resource).2.Holds (past ++ [(.put resource, (store.put resource).1)]) := by
  unfold MemoryResourceStore.put answerPut
  by_cases hblank : (isBlank resource.reference.revision || isBlank resource.mediaType) = true
  · rw [if_pos hblank, if_pos hblank]
    exact ⟨rfl, fun other => by rw [firstPut_error, h other]⟩
  · rw [if_neg hblank, if_neg hblank]
    simp only [h resource.reference]
    cases hwinner : firstPut past resource.reference with
    | some existing =>
      by_cases hsame : existing = resource
      · simp only [if_pos hsame]
        exact ⟨trivial, fun other => by rw [firstPut_again hwinner, h other]⟩
      · simp only [if_neg hsame]
        exact ⟨trivial, fun other => by rw [firstPut_error, h other]⟩
    | none =>
      refine ⟨rfl, fun other => ?_⟩
      rw [firstPut_new hwinner]
      refine (HashMap.lookup_insert_eq _ _ _ _).trans ?_
      by_cases hother : resource.reference = other
      · rw [if_pos hother, if_pos (by rw [hother])]
      · rw [if_neg hother, if_neg fun hkey => hother (key_inj hkey).symm, h other]

/-- The map answers as its winners say, and holds the winners after the call. -/
theorem MemoryResourceStore.Holds.exec {store : MemoryResourceStore} (h : store.Holds past)
    (call : ArchiveCall) :
    (store.exec call).1 = archived (firstPut past) call ∧
      (store.exec call).2.Holds (past ++ [(call, (store.exec call).1)]) := by
  cases call with
  | get reference =>
    refine ⟨h.get reference, fun other => ?_⟩
    show store.resources.lookup _ = _
    rw [firstPut_get, h other]
  | put resource => exact h.put resource

theorem MemoryResourceStore.Holds.run {store : MemoryResourceStore} (h : store.Holds past)
    (calls : List ArchiveCall) :
    (MemoryResourceStore.run calls store).2.Holds
      (past ++ (MemoryResourceStore.run calls store).1) := by
  induction calls generalizing past store with
  | nil =>
    show store.Holds (past ++ [])
    rw [List.append_nil]
    exact h
  | cons call calls ih =>
    have hrest := ih (h.exec call).2
    rw [List.append_assoc] at hrest
    exact hrest

/-! ## In the database -/

namespace ResourceDb

variable {digest : ByteArray → String} {db db' : ResourceDb} {refusals : Refusals}
  {resource : Resource}

/-- The tables hold the winners, and the blobs of these and no others. -/
structure Holds (digest : ByteArray → String) (past : History) (db : ResourceDb) : Prop where
  versions : ∀ reference, db.versions.lookup (reference.id.asStr, reference.revision) =
    (firstPut past reference).map fun winner => ⟨winner.mediaType, digest winner.bytes⟩
  blob : ∀ reference winner, firstPut past reference = some winner →
    db.blobs.lookup (digest winner.bytes) = some winner.bytes
  referenced : ∀ hash bytes, db.blobs.lookup hash = some bytes →
    digest bytes = hash ∧ ∃ reference winner, firstPut past reference = some winner ∧
      winner.bytes = bytes

theorem empty_holds : empty.Holds digest [] :=
  ⟨fun _ => AList.lookup_empty _, nofun, fun hash _ h =>
    nomatch (AList.lookup_empty hash).symm.trans h⟩

theorem Holds.congr {more : History} (h : db.Holds digest past)
    (hsame : firstPut more = firstPut past) : db.Holds digest more := by
  refine ⟨?_, ?_, ?_⟩ <;> rw [hsame]
  · exact h.versions
  · exact h.blob
  · exact h.referenced

theorem Holds.read (h : db.Holds digest past) (reference : ResourceRef) :
    db.read digest reference =
      match firstPut past reference with
      | some winner => .ok winner
      | none => .error .missing := by
  unfold ResourceDb.read
  rw [h.versions reference]
  cases hwinner : firstPut past reference with
  | none => rfl
  | some winner =>
    have hreference := firstPut_reference hwinner
    simp only [Option.map_some, h.blob reference winner hwinner, ne_eq, not_true_eq_false, if_false]
    rw [← hreference]

/-- A statement that is refused. -/
def Refuses (refusals : Refusals) (answer : Answer) : Prop :=
  ∃ n e, refusals n = some e ∧ answer = .error (.store e)

theorem statement_cases (refusals : Refusals) (n : Nat) :
    statement refusals n = .ok () ∨
      ∃ e, refusals n = some e ∧ statement refusals n = .error (.store e) := by
  unfold statement
  cases refusals n with
  | none => exact .inl rfl
  | some e => exact .inr ⟨e, rfl, rfl⟩

theorem Holds.get (h : db.Holds digest past) (reference : ResourceRef) :
    db.get digest refusals reference = answerGet (firstPut past reference) reference ∨
      Refuses refusals (db.get digest refusals reference) := by
  unfold ResourceDb.get answerGet
  by_cases hblank : isBlank reference.revision = true
  · rw [if_pos hblank, if_pos hblank]
    exact .inl rfl
  · rw [if_neg hblank, if_neg hblank]
    rcases statement_cases refusals 0 with hok | ⟨e, he, herror⟩
    · rw [hok]
      exact .inl (h.read reference)
    · rw [herror]
      exact .inr ⟨0, e, he, rfl⟩

/-- Other bytes are kept under the digest of these. -/
def Collides (digest : ByteArray → String) (past : History) (bytes : ByteArray) : Prop :=
  ∃ reference winner, firstPut past reference = some winner ∧
    digest winner.bytes = digest bytes ∧ winner.bytes ≠ bytes

/-- A blob with these bytes is added, unless it was there. -/
structure Shares (digest : ByteArray → String) (bytes : ByteArray) (db db' : ResourceDb) : Prop where
  blob : db'.blobs.lookup (digest bytes) = some bytes
  others : ∀ hash, hash ≠ digest bytes → db'.blobs.lookup hash = db.blobs.lookup hash
  kept : ∀ hash other, db.blobs.lookup hash = some other → db'.blobs.lookup hash = some other

theorem Holds.insertBlob (h : db.Holds digest past) (bytes : ByteArray) :
    (db.insertBlob (digest bytes) bytes).versions = db.versions ∧
      (Shares digest bytes db (db.insertBlob (digest bytes) bytes) ∨
        Collides digest past bytes ∧
          ∃ other, (db.insertBlob (digest bytes) bytes).blobs.lookup (digest bytes) = some other ∧
            other ≠ bytes) := by
  unfold ResourceDb.insertBlob
  cases hblob : db.blobs.lookup (digest bytes) with
  | none =>
    refine ⟨rfl, .inl ⟨AList.lookup_insert _, fun hash hne => AList.lookup_insert_ne hne,
      fun hash other hother => ?_⟩⟩
    have hne : hash ≠ digest bytes := by
      rintro rfl
      exact nomatch hblob.symm.trans hother
    exact (AList.lookup_insert_ne hne).trans hother
  | some other =>
    refine ⟨rfl, ?_⟩
    by_cases hsame : other = bytes
    · subst hsame
      exact .inl ⟨hblob, fun _ _ => rfl, fun _ _ hother => hother⟩
    · obtain ⟨hdigest, reference, winner, hwinner, rfl⟩ := h.referenced _ _ hblob
      exact .inr ⟨⟨reference, winner, hwinner, hdigest, hsame⟩, winner.bytes, hblob, hsame⟩

/-- What the transaction of a put does. -/
inductive Puts (digest : ByteArray → String) (past : History) (refusals : Refusals)
    (resource : Resource) (db : ResourceDb) : Except ResourceError (Resource × ResourceDb) → Prop
  | refused (n : Nat) (e : StoreError) (h : refusals n = some e) :
      Puts digest past refusals resource db (.error (.store e))
  | again (h : firstPut past resource.reference = some resource) :
      Puts digest past refusals resource db (.ok (resource, db))
  | conflict (existing : Resource) (h : firstPut past resource.reference = some existing)
      (hne : existing ≠ resource) : Puts digest past refusals resource db (.error .revisionConflict)
  | collision (h : firstPut past resource.reference = none)
      (hcollides : Collides digest past resource.bytes) :
      Puts digest past refusals resource db
        (.error (.store (.corruptData "resource blob conflicts with digest")))
  | inserted (db' : ResourceDb) (h : firstPut past resource.reference = none)
      (hversions : db'.versions =
        db.versions.insert (resource.reference.id.asStr, resource.reference.revision)
          ⟨resource.mediaType, digest resource.bytes⟩)
      (hshares : Shares digest resource.bytes db db') :
      Puts digest past refusals resource db (.ok (resource, db'))

theorem Holds.transaction (h : db.Holds digest past) (refusals : Refusals) (resource : Resource) :
    Puts digest past refusals resource db (db.transaction digest refusals resource) := by
  have hread := h.read resource.reference
  unfold ResourceDb.transaction
  rcases statement_cases refusals 0 with hok | ⟨e, he, herror⟩
  case inr => rw [herror]; exact .refused 0 e he
  rw [hok]
  show Puts _ _ _ _ _ (statement refusals 1 >>= _)
  rcases statement_cases refusals 1 with hok | ⟨e, he, herror⟩
  case inr => rw [herror]; exact .refused 1 e he
  rw [hok]
  cases hwinner : firstPut past resource.reference with
  | some existing =>
    rw [hread, hwinner]
    show Puts _ _ _ _ _ (if existing = resource then _ else _)
    by_cases hsame : existing = resource
    · rw [if_pos hsame, hsame]
      exact .again (by rw [hwinner, hsame])
    · rw [if_neg hsame]
      exact .conflict existing hwinner hsame
  | none =>
    rw [hread, hwinner]
    show Puts _ _ _ _ _ (statement refusals 2 >>= _)
    rcases statement_cases refusals 2 with hok | ⟨e, he, herror⟩
    case inr => rw [herror]; exact .refused 2 e he
    rw [hok]
    show Puts _ _ _ _ _ (statement refusals 3 >>= _)
    rcases statement_cases refusals 3 with hok | ⟨e, he, herror⟩
    case inr => rw [herror]; exact .refused 3 e he
    rw [hok]
    show Puts _ _ _ _ _
      (selectBlob (db.insertBlob (digest resource.bytes) resource.bytes) _ >>= _)
    obtain ⟨hversions, hshares | ⟨hcollides, other, hblob, hne⟩⟩ := h.insertBlob resource.bytes
    · have hblob := hshares.blob
      rw [show selectBlob _ _ = .ok resource.bytes by unfold selectBlob; rw [hblob]]
      show Puts _ _ _ _ _ (if resource.bytes ≠ resource.bytes then _ else _)
      rw [if_neg (not_not_intro rfl)]
      show Puts _ _ _ _ _ (statement refusals 4 >>= _)
      rcases statement_cases refusals 4 with hok | ⟨e, he, herror⟩
      case inr => rw [herror]; exact .refused 4 e he
      rw [hok]
      have hfree : (db.versions.lookup
          (resource.reference.id.asStr, resource.reference.revision)).isSome = false := by
        rw [h.versions, hwinner]
        rfl
      have hinsert : insertVersion (db.insertBlob (digest resource.bytes) resource.bytes)
          resource.reference ⟨resource.mediaType, digest resource.bytes⟩ =
          .ok { db.insertBlob (digest resource.bytes) resource.bytes with
            versions := db.versions.insert
              (resource.reference.id.asStr, resource.reference.revision)
              ⟨resource.mediaType, digest resource.bytes⟩ } := by
        unfold insertVersion
        rw [hversions, hblob]
        simp [hfree]
      show Puts _ _ _ _ _ (insertVersion _ _ _ >>= _)
      rw [hinsert]
      show Puts _ _ _ _ _ (statement refusals 5 >>= _)
      rcases statement_cases refusals 5 with hok | ⟨e, he, herror⟩
      case inr => rw [herror]; exact .refused 5 e he
      rw [hok]
      exact .inserted _ hwinner rfl ⟨hblob, hshares.others, hshares.kept⟩
    · rw [show selectBlob _ _ = .ok other by unfold selectBlob; rw [hblob]]
      show Puts _ _ _ _ _ (if other ≠ resource.bytes then _ else _)
      rw [if_pos hne]
      exact .collision hwinner hcollides

theorem asStr_key_inj {a b : ResourceRef}
    (h : (a.id.asStr, a.revision) = (b.id.asStr, b.revision)) : a = b := by
  rw [Prod.mk.injEq, Identifier.asStr_inj] at h
  exact key_inj (Prod.ext h.1 h.2)

/-- The tables hold the new winner. -/
theorem Holds.inserted (h : db.Holds digest past)
    (hnone : firstPut past resource.reference = none)
    (hversions : db'.versions =
      db.versions.insert (resource.reference.id.asStr, resource.reference.revision)
        ⟨resource.mediaType, digest resource.bytes⟩)
    (hshares : Shares digest resource.bytes db db') :
    db'.Holds digest (past ++ [(.put resource, .ok resource)]) := by
  have hnew := firstPut_new hnone resource
  refine ⟨fun reference => ?_, fun reference winner hwinner => ?_, fun hash bytes hbytes => ?_⟩
  · rw [hversions, hnew]
    refine (HashMap.lookup_insert_eq _ _ _ _).trans ?_
    by_cases hreference : resource.reference = reference
    · rw [if_pos hreference, if_pos (by rw [hreference])]
      rfl
    · rw [if_neg hreference, if_neg fun hkey => hreference (asStr_key_inj hkey).symm,
        h.versions reference]
  · rw [hnew] at hwinner
    by_cases hreference : resource.reference = reference
    · rw [if_pos hreference] at hwinner
      cases hwinner
      exact hshares.blob
    · rw [if_neg hreference] at hwinner
      exact hshares.kept _ _ (h.blob reference winner hwinner)
  · by_cases hhash : hash = digest resource.bytes
    · rw [hhash, hshares.blob] at hbytes
      cases hbytes
      exact ⟨hhash.symm, resource.reference, resource, by rw [hnew, if_pos rfl], rfl⟩
    · rw [hshares.others hash hhash] at hbytes
      obtain ⟨hdigest, reference, winner, hwinner, rfl⟩ := h.referenced hash bytes hbytes
      refine ⟨hdigest, reference, winner, ?_, rfl⟩
      rw [hnew, if_neg, hwinner]
      rintro rfl
      exact nomatch hnone.symm.trans hwinner

/-- A put that fails leaves the tables as they were. -/
theorem put_error {error : ResourceError} (h : (db.put digest refusals resource).1 = .error error) :
    (db.put digest refusals resource).2 = db := by
  unfold ResourceDb.put at h ⊢
  split
  · rfl
  · rename_i hblank
    rw [if_neg hblank] at h
    cases htransaction : db.transaction digest refusals resource with
    | error e => rfl
    | ok done =>
      rw [htransaction] at h
      cases h

/-- The answer to a call on the tables, and the tables after it. -/
structure Serves (digest : ByteArray → String) (past : History) (refusals : Refusals)
    (call : ArchiveCall) (answer : Answer) (db' : ResourceDb) : Prop where
  answers : answer = archived (firstPut past) call ∨ Refuses refusals answer ∨
    ∃ resource, call = .put resource ∧ firstPut past resource.reference = none ∧
      Collides digest past resource.bytes ∧
      answer = .error (.store (.corruptData "resource blob conflicts with digest"))
  holds : db'.Holds digest (past ++ [(call, answer)])

theorem Holds.put (h : db.Holds digest past) (refusals : Refusals) (resource : Resource) :
    Serves digest past refusals (.put resource) (db.put digest refusals resource).1
      (db.put digest refusals resource).2 := by
  have hsame (error : ResourceError) : db.Holds digest (past ++ [(.put resource, .error error)]) :=
    h.congr (firstPut_error past _ error)
  have harchived (hblank : ¬ (isBlank resource.reference.revision ||
      isBlank resource.mediaType) = true) : archived (firstPut past) (.put resource) =
      match firstPut past resource.reference with
      | some existing => if existing = resource then .ok existing else .error .revisionConflict
      | none => .ok resource := if_neg hblank
  unfold ResourceDb.put
  by_cases hblank : (isBlank resource.reference.revision || isBlank resource.mediaType) = true
  · rw [if_pos hblank]
    exact ⟨.inl (if_pos hblank).symm, hsame _⟩
  · rw [if_neg hblank]
    have hputs := h.transaction refusals resource
    revert hputs
    generalize db.transaction digest refusals resource = done
    intro hputs
    cases hputs with
    | refused n e he => exact ⟨.inr (.inl ⟨n, e, he, rfl⟩), hsame _⟩
    | again hwinner =>
      refine ⟨.inl ?_, h.congr (firstPut_again hwinner _)⟩
      rw [harchived hblank, hwinner]
      exact (if_pos rfl).symm
    | conflict existing hwinner hne =>
      refine ⟨.inl ?_, hsame _⟩
      rw [harchived hblank, hwinner]
      exact (if_neg hne).symm
    | collision hnone hcollides => exact ⟨.inr (.inr ⟨resource, rfl, hnone, hcollides, rfl⟩), hsame _⟩
    | inserted after hnone hversions hshares =>
      refine ⟨.inl ?_, h.inserted hnone hversions hshares⟩
      rw [harchived hblank, hnone]

theorem Holds.exec (h : db.Holds digest past) (refusals : Refusals) (call : ArchiveCall) :
    Serves digest past refusals call (db.exec digest refusals call).1
      (db.exec digest refusals call).2 := by
  cases call with
  | get reference =>
    refine ⟨?_, h.congr (firstPut_get past reference _)⟩
    exact (h.get reference).imp_right .inl
  | put resource => exact h.put refusals resource

theorem Holds.run (h : db.Holds digest past) (calls : List (ArchiveCall × Refusals)) :
    (ResourceDb.run digest calls db).2.Holds digest (past ++ (ResourceDb.run digest calls db).1) := by
  induction calls generalizing past db with
  | nil =>
    show db.Holds digest (past ++ [])
    rw [List.append_nil]
    exact h
  | cons call calls ih =>
    have hrest := ih (h.exec call.2 call.1).holds
    rw [List.append_assoc] at hrest
    exact hrest

/-- No statement is refused. -/
def accepts : Refusals := fun _ => none

theorem not_refuses_accepts {answer : Answer} : ¬ Refuses accepts answer :=
  fun ⟨_, _, h, _⟩ => nomatch h

end ResourceDb

/-! ## The two archives -/

open ResourceDb in
/-- While no two strings of bytes share a digest, the tables answer as the map does. -/
theorem run_eq_run {digest : ByteArray → String} (known : ByteArray → Prop)
    (hdistinct : ∀ a b, known a → known b → digest a = digest b → a = b)
    {db : ResourceDb} {store : MemoryResourceStore} (hdb : db.Holds digest past)
    (hstore : store.Holds past)
    (hpast : ∀ reference winner, firstPut past reference = some winner → known winner.bytes)
    (calls : List ArchiveCall) (hcalls : ∀ resource, .put resource ∈ calls → known resource.bytes) :
    (ResourceDb.run digest (calls.map fun call => (call, accepts)) db).1 =
      (MemoryResourceStore.run calls store).1 := by
  induction calls generalizing past db store with
  | nil => rfl
  | cons call calls ih =>
    have hserves := hdb.exec accepts call
    obtain ⟨hanswer, hstore'⟩ := hstore.exec call
    have hsame : (db.exec digest accepts call).1 = (store.exec call).1 := by
      rw [hanswer]
      rcases hserves.answers with h | h | ⟨resource, rfl, -, ⟨_, winner, hwinner, hdigest, hne⟩, -⟩
      · exact h
      · exact absurd h not_refuses_accepts
      · exact absurd (hdistinct _ _ (hpast _ _ hwinner) (hcalls resource List.mem_cons_self) hdigest)
          hne
    have hholds := hserves.holds
    rw [hsame] at hholds
    have hrest := ih hholds hstore' (fun reference winner hwinner => ?_)
      fun resource hmem => hcalls resource (List.mem_cons_of_mem _ hmem)
    · exact congrArg₂ List.cons (congrArg (Prod.mk call) hsame) hrest
    · rw [firstPut_append, firstPut_singleton] at hwinner
      rcases Option.or_eq_some_iff.mp hwinner with hold | ⟨-, hnew⟩
      · exact hpast reference winner hold
      · exact hcalls winner (won_put hnew ▸ List.mem_cons_self)

/-- Every revision keeps the resource that was put first, in both archives. -/
theorem revisions_have_one_winner (digest : ByteArray → String)
    (calls : List (ArchiveCall × Refusals)) :
    let tables := ResourceDb.run digest calls ResourceDb.empty
    let map := MemoryResourceStore.run (calls.map Prod.fst) MemoryResourceStore.default
    -- The map answers as the resources say that were put into it first.
    (∀ call, (map.2.exec call).1 = archived (firstPut map.1) call) ∧
    -- So do the tables, but for a statement that is refused and for a collision.
    (∀ call refusals,
      (tables.2.exec digest refusals call).1 = archived (firstPut tables.1) call ∨
        ResourceDb.Refuses refusals (tables.2.exec digest refusals call).1 ∨
        ∃ resource, call = .put resource ∧ firstPut tables.1 resource.reference = none ∧
          ResourceDb.Collides digest tables.1 resource.bytes ∧
          (tables.2.exec digest refusals call).1 =
            .error (.store (.corruptData "resource blob conflicts with digest"))) ∧
    -- Without these the two answer alike.
    ((∀ a b : Resource, .put a ∈ calls.map Prod.fst → .put b ∈ calls.map Prod.fst →
        digest a.bytes = digest b.bytes → a.bytes = b.bytes) →
      (∀ call ∈ calls, call.2 = ResourceDb.accepts) → tables.1 = map.1) ∧
    -- There is one blob for each string of bytes that a resource has.
    (∀ hash bytes, tables.2.blobs.lookup hash = some bytes ↔
      digest bytes = hash ∧ ∃ reference winner, firstPut tables.1 reference = some winner ∧
        winner.bytes = bytes) ∧
    ∀ refusals resource error, (tables.2.put digest refusals resource).1 = .error error →
      (tables.2.put digest refusals resource).2 = tables.2 := by
  intro tables map
  have hdb : tables.2.Holds digest tables.1 := ResourceDb.empty_holds.run calls
  have hstore : map.2.Holds map.1 := MemoryResourceStore.default_holds.run (calls.map Prod.fst)
  refine ⟨fun call => (hstore.exec call).1, fun call refusals => (hdb.exec refusals call).answers,
    fun hdistinct haccepts => ?_, fun hash bytes => ⟨hdb.referenced hash bytes, ?_⟩,
    fun refusals resource error => ResourceDb.put_error⟩
  · have hcalls : (calls.map Prod.fst).map (fun call => (call, ResourceDb.accepts)) = calls := by
      rw [List.map_map]
      refine (List.map_congr_left fun call hmem => ?_).trans (List.map_id calls)
      exact Prod.ext rfl (haccepts call hmem).symm
    let known (bytes : ByteArray) : Prop :=
      ∃ resource : Resource, .put resource ∈ calls.map Prod.fst ∧ resource.bytes = bytes
    have hknown : ∀ a b, known a → known b → digest a = digest b → a = b := by
      rintro _ _ ⟨a, ha, rfl⟩ ⟨b, hb, rfl⟩ hdigest
      exact hdistinct a b ha hb hdigest
    have hrun := run_eq_run known hknown ResourceDb.empty_holds MemoryResourceStore.default_holds
      nofun (calls.map Prod.fst) fun resource hmem => ⟨resource, hmem, rfl⟩
    rw [hcalls] at hrun
    exact hrun
  · rintro ⟨rfl, reference, winner, hwinner, rfl⟩
    exact hdb.blob reference winner hwinner

end Context

end AgentBridge
