import AgentBridge.Records.Delegation
import AgentBridge.Records.Refinement.Relation

/-!
# The rows of runs and of relations between them

Their documents always read back, so every read of these tables gives what they hold.
-/

namespace AgentBridge

open Reasoning SqliteStore

variable {Text : Type} {J : SerdeJson Text} {g : ExecutionGraph} {db db' : Db Text}

/-! ## The walk up the ancestors -/

/-- The walk passes through the lineage of a run, and fails when the child is in it. -/
theorem MemoryStore.walkAncestors_lineage {relations : HashMap RunId ExecutionRelation}
    {child run : RunId} {l visited : List RunId}
    (h : Lineage (fun r => (relations.lookup r).map (·.parent)) run l)
    (hnew : ∀ r ∈ l, r ∉ visited) :
    MemoryStore.walkAncestors relations child run visited =
      if child ∈ l then .error (.error .executionCycle) else .ok () := by
  induction h generalizing visited with
  | @root run hroot =>
    have hnone : relations.lookup run = none := Option.map_eq_none_iff.mp hroot
    have hrun := hnew run List.mem_cons_self
    rw [walkAncestors_eq]
    by_cases heq : run = child
    · rw [if_pos (.inl heq), if_pos (heq ▸ List.mem_cons_self)]
    · rw [if_neg (by simp [heq, hrun]), hnone, if_neg]
      exact fun hmem => heq (List.mem_singleton.mp hmem).symm
  | @child run p l hparent hrest ih =>
    obtain ⟨edge, hedge, rfl⟩ := Option.map_eq_some_iff.mp hparent
    have hrun := hnew run List.mem_cons_self
    have hfresh : run ∉ l := (List.nodup_cons.mp (Lineage.child hparent hrest).nodup).1
    rw [walkAncestors_eq]
    by_cases heq : run = child
    · rw [if_pos (.inl heq), if_pos (heq ▸ List.mem_cons_self)]
    · rw [if_neg (by simp [heq, hrun]), hedge]
      show walkAncestors relations child edge.parent (run :: visited) = _
      rw [ih]
      · by_cases hmem : child ∈ l
        · rw [if_pos hmem, if_pos (List.mem_cons_of_mem _ hmem)]
        · rw [if_neg hmem, if_neg]
          intro hcons
          rcases List.mem_cons.mp hcons with hsame | hrest
          · exact heq hsame.symm
          · exact hmem hrest
      · intro r hr hvisited
        rcases List.mem_cons.mp hvisited with hsame | hold
        · exact hfresh (hsame ▸ hr)
        · exact hnew r (List.mem_cons_of_mem _ hr) hold

namespace SqliteStore

theorem walkAncestors_eq (child ancestor : RunId) (visited : List RunId) :
    walkAncestors J db child ancestor visited =
      if ancestor = child ∨ ancestor ∈ visited then .error .executionCycle
      else readRelation J db ancestor >>= fun
        | none => .ok ()
        | some edge => walkAncestors J db child edge.parent (ancestor :: visited) := by
  rw [walkAncestors]
  split
  · rfl
  · split
    · next heq => simp only [heq, error_bind]
    · next heq => simp only [heq, ok_bind]
    · next heq => simp only [heq, ok_bind]

/-- Both stores walk the same way through the relations that are read. -/
theorem walkAncestors_of_reads {relations : HashMap RunId ExecutionRelation}
    (hread : ∀ run, readRelation J db run = .ok (relations.lookup run)) (child ancestor : RunId)
    (visited : List RunId) : orFault (walkAncestors J db child ancestor visited) =
      MemoryStore.walkAncestors relations child ancestor visited := by
  induction ancestor, visited using MemoryStore.walkAncestors.induct relations child
  case case1 ancestor visited hcycle =>
    rw [walkAncestors_eq, MemoryStore.walkAncestors_eq, if_pos hcycle, if_pos hcycle, orFault_error]
  case case2 ancestor visited hcycle hedge =>
    rw [walkAncestors_eq, MemoryStore.walkAncestors_eq, if_neg hcycle, if_neg hcycle, hread, hedge]
    rfl
  case case3 ancestor visited hcycle edge hedge ih =>
    rw [walkAncestors_eq, MemoryStore.walkAncestors_eq, if_neg hcycle, if_neg hcycle, hread, hedge]
    exact ih

/-- What the loop over the relations below a child has checked. -/
theorem checkDescendants_ok {relation : ExecutionRelation} {u : Unit} : ∀ {names : List String},
    checkDescendants J db relation names = .ok u → ∀ (run : RunId) (edge : ExecutionRelation),
      run.asStr ∈ names → readRelation J db run = .ok (some edge) →
      edge.parentAuthority = relation.childAuthority
  | [], _, run, edge, hmem, _ => absurd hmem List.not_mem_nil
  | name :: names, h, run, edge, hmem, hread => by
    unfold checkDescendants at h
    obtain ⟨other, hother, h⟩ := bind_eq_ok.mp h
    obtain ⟨found, hfound, h⟩ := bind_eq_ok.mp h
    rw [id_eq_ok] at hother
    have hrest : checkDescendants J db relation names = .ok u := by
      cases found with
      | none => exact h
      | some below => exact (ite_error_eq_ok.mp h).2
    rcases List.mem_cons.mp hmem with heq | hmem
    · obtain rfl : run = other := Identifier.asStr_inj.mp (heq.trans hother)
      rw [hread, Except.ok.injEq] at hfound
      subst hfound
      exact not_not.mp (ite_error_eq_ok.mp h).1
    · exact checkDescendants_ok hrest run edge hmem hread

theorem mem_selectChildren {parent name : String} :
    name ∈ db.selectChildren parent ↔
      ∃ row, db.executionRelations.lookup name = some row ∧ row.parent = parent := by
  unfold Db.selectChildren
  simp only [List.mem_insertionSort, List.mem_map, List.mem_filter, beq_iff_eq]
  constructor
  · rintro ⟨⟨name', row⟩, ⟨hmem, hparent⟩, rfl⟩
    exact ⟨row, (HashMap.mem_entries_iff _ _ _).mp hmem, hparent⟩
  · rintro ⟨row, hrow, hparent⟩
    exact ⟨⟨name, row⟩, ⟨(HashMap.mem_entries_iff _ _ _).mpr hrow, hparent⟩, rfl⟩

end SqliteStore

/-! ## The rows -/

structure GraphRows (J : SerdeJson Text) (g : ExecutionGraph) (db : Db Text) : Prop where
  wellFormed : g.WellFormed
  runs : ∀ name, db.runs.lookup name = (byName g.runs name).map (runRow J)
  relations : ∀ name, db.executionRelations.lookup name =
    (byName g.relations name).map (relationRow J)

namespace GraphRows

theorem congr (h : GraphRows J g db) (hruns : db'.runs = db.runs)
    (hrelations : db'.executionRelations = db.executionRelations) : GraphRows J g db' :=
  ⟨h.wellFormed, fun name => by rw [hruns]; exact h.runs name,
    fun name => by rw [hrelations]; exact h.relations name⟩

theorem readRun (h : GraphRows J g db) (hJ : J.Lawful) (id : RunId) :
    SqliteStore.readRun J db id = .ok (g.runs.lookup id) := by
  unfold SqliteStore.readRun
  rw [h.runs, byName_asStr]
  cases hs : g.runs.lookup id with
  | none => rfl
  | some spec =>
    have hcontext : Codec.decode J (Codec.documentText J spec.context) = .ok spec.context :=
      Codec.readsBack_contextManifest hJ spec.context
    have hconfig : Codec.decode J (Codec.documentText J spec.config) = .ok spec.config :=
      Codec.readsBack_runConfiguration hJ spec.config
    have hdecode := decode_runRow (h.wellFormed.named id spec hs) hcontext hconfig
    simp [transpose, hdecode, Except.map]

theorem readRelation (h : GraphRows J g db) (hJ : J.Lawful) (child : RunId) :
    SqliteStore.readRelation J db child = .ok (g.relations.lookup child) := by
  unfold SqliteStore.readRelation
  rw [h.relations, byName_asStr]
  cases hr : g.relations.lookup child with
  | none => rfl
  | some relation =>
    have hdoc : Codec.decode J (Codec.documentText J relation) = .ok relation :=
      Codec.readsBack_executionRelation hJ relation
    obtain ⟨hchild, parentSpec, childSpec, hparent, hchildSpec, hvalid⟩ :=
      h.wellFormed.valid child relation hr
    have hdecode : RelationRow.decode J db child (relationRow J relation) = .ok relation := by
      simp [RelationRow.decode, relationRow, hdoc, hchild, h.readRun hJ, hparent, hchildSpec, hvalid]
    simp [transpose, hdecode, Except.map]

theorem registered (h : GraphRows J g db) {spec : RunSpec}
    (hfresh : db.runs.lookup spec.id.asStr = none) :
    g.runs.lookup spec.id = none ∧ GraphRows J (g.registered spec) (afterRegister J db spec) := by
  have hnone : g.runs.lookup spec.id = none := by
    rw [h.runs, byName_asStr, Option.map_eq_none_iff] at hfresh
    exact hfresh
  exact ⟨hnone, h.wellFormed.registered hnone, lookup_insert_byName h.runs spec.id spec, h.relations⟩

theorem insertRelation_eq_ok {child : String} {row : RelationRow Text} {docs : List Document}
    (h : db.insertRelation child row docs = .ok db') :
    db' = { db with
      executionRelations := db.executionRelations.insert child row
      written := docs ++ db.written } := by
  unfold Db.insertRelation at h
  simp only [ite_error_eq_ok, Except.ok.injEq] at h
  obtain ⟨-, -, -, rfl⟩ := h
  rfl

theorem link_cases (h : GraphRows J g db) (hJ : J.Lawful) (relation : ExecutionRelation) :
    (∃ e, write (linkExecution J relation) db = (.error e, db)) ∨
      (write (linkExecution J relation) db).2 = db ∨
      (g.Links relation ∧
        GraphRows J (g.linked relation) (write (linkExecution J relation) db).2) := by
  cases hresult : linkExecution J relation db with
  | error e => exact .inl ⟨e, write_error hresult⟩
  | ok result =>
  right
  have hresult' := hresult
  unfold linkExecution at hresult'
  simp only [h.readRelation hJ, h.readRun hJ, ok_bind] at hresult'
  cases hfresh : g.relations.lookup relation.child with
  | some existing =>
    left
    simp only [hfresh] at hresult'
    split at hresult'
    · cases hresult'
      rw [write_ok hresult]
    · cases hresult'
  | none =>
  right
  cases hparent : g.runs.lookup relation.parent with
  | none =>
    simp only [hfresh, hparent] at hresult'
    cases hresult'
  | some parentSpec =>
  cases hchild : g.runs.lookup relation.child with
  | none =>
    simp only [hfresh, hparent, hchild] at hresult'
    cases hresult'
  | some childSpec =>
  simp only [hfresh, hparent, hchild, bind_eq_ok, ite_error_eq_ok, Except.ok.injEq] at hresult'
  obtain ⟨⟨⟩, hvalid, hup, ⟨⟩, hdown, ⟨⟩, -, ⟨⟩, hwalk, document, hencode, inserted, hinsert,
    rfl⟩ := hresult'
  obtain rfl : document = Codec.documentText J relation := by
    simpa [Codec.encode] using hencode.symm
  obtain rfl := insertRelation_eq_ok hinsert
  have hlinks : g.Links relation := by
    refine ⟨hfresh, ⟨parentSpec, childSpec, hparent, hchild, hvalid⟩, ?_, ?_, ?_⟩
    · intro edge hedge
      rw [hedge] at hup
      simpa using hup
    · intro child edge hedge hbelow
      have hname : (g.relations.lookup child).map (relationRow J) = some (relationRow J edge) := by
        rw [hedge]
        rfl
      have hmem : child.asStr ∈ db.selectChildren relation.child.asStr := by
        refine mem_selectChildren.mpr ⟨relationRow J edge, ?_, ?_⟩
        · rw [h.relations, byName_asStr, hname]
        · show edge.parent.asStr = _
          rw [hbelow]
      exact checkDescendants_ok hdown child edge hmem (by rw [h.readRelation hJ, hedge])
    · intro l hl hmem
      have hreads := walkAncestors_of_reads (h.readRelation hJ) relation.child relation.parent []
      rw [hwalk, orFault_ok, MemoryStore.walkAncestors_lineage hl (by simp), if_pos hmem] at hreads
      cases hreads
  rw [write_ok hresult]
  exact ⟨hlinks, h.wellFormed.linked hlinks, h.runs,
    lookup_insert_byName h.relations relation.child relation⟩

end GraphRows

end AgentBridge
