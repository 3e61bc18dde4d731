import AgentBridge.Reasoning.Except
import AgentBridge.Reasoning.Positions
import AgentBridge.Tools.Registry

/-!
# The subset of JSON schemas

`checkSchema` goes through the schema positions of a document with one counter of nodes and stops at
the first fault.  It accepts exactly the documents whose positions are all in the subset, within the
limits of their number and their depth.
-/

namespace AgentBridge

open Reasoning

namespace Tools

variable {ν : Type}

/-! ## The subset -/

/-- The schemas that a keyword holds. -/
def subschemas (keyword : String × JsonTree ν) : List (JsonTree ν) :=
  if keyword.1 = "properties" then
    match keyword.2 with
    | .obj schemas => schemas.map (·.2)
    | _ => []
  else if keyword.1 = "items" ∨ keyword.1 = "additionalProperties" then [keyword.2]
  else []

def schemaChildren : JsonTree ν → List (JsonTree ν)
  | .obj object => object.flatMap subschemas
  | _ => []

/-- A keyword of the subset, with a value that it may have. -/
def AllowedKeyword (keyword : String × JsonTree ν) : Prop :=
  keyword.1 = "$schema" ∧ keyword.2 = .str dialect ∨ keyword.1 ∈ assertionKeywords ∨
    keyword.1 = "properties" ∧ (∃ schemas, keyword.2 = .obj schemas) ∨ keyword.1 = "items" ∨
    keyword.1 = "additionalProperties"

/-- A boolean, or an object with keywords of the subset only. -/
def AllowedSchema : JsonTree ν → Prop
  | .bool _ => True
  | .obj object => ∀ keyword ∈ object, AllowedKeyword keyword
  | _ => False

/-- Every schema position below a node at some depth is in the subset and not too deep. -/
def Admissible (schema : JsonTree ν) (depth : Nat) : Prop :=
  ∀ path position, descend schemaChildren schema path = some position →
    AllowedSchema position ∧ depth + path.length ≤ 16

theorem admissible_iff {schema : JsonTree ν} {depth : Nat} :
    Admissible schema depth ↔ (AllowedSchema schema ∧ depth ≤ 16) ∧
      ∀ child ∈ schemaChildren schema, Admissible child (depth + 1) := by
  unfold Admissible
  rw [forall_descend_iff]
  refine and_congr Iff.rfl ?_
  constructor
  · intro h child hchild path position hposition
    obtain ⟨i, hi⟩ := List.mem_iff_getElem?.mp hchild
    obtain ⟨hallowed, hdepth⟩ := h i child hi path position hposition
    exact ⟨hallowed, by rw [List.length_cons] at hdepth; omega⟩
  · intro h i child hi path position hposition
    obtain ⟨hallowed, hdepth⟩ := h child (List.mem_of_getElem? hi) path position hposition
    exact ⟨hallowed, by rw [List.length_cons]; omega⟩

/-! ## The checker -/

/-- Some schemas at a depth are admissible, and take the counter from one value to another. -/
structure Counts (schemas : List (JsonTree ν)) (depth nodes after : Nat) : Prop where
  admissible : ∀ schema ∈ schemas, Admissible schema depth
  count : (after : ℕ∞) =
    nodes + (schemas.map fun schema => (positions schemaChildren schema).encard).sum
  limit : after ≤ 256

theorem counts_nil {depth nodes after : Nat} (hnodes : nodes ≤ 256) :
    Counts ([] : List (JsonTree ν)) depth nodes after ↔ after = nodes := by
  constructor
  · intro h
    have hcount := h.count
    rw [List.map_nil, List.sum_nil, add_zero] at hcount
    exact Nat.cast_injective hcount
  · rintro rfl
    exact ⟨nofun, by simp, hnodes⟩

/-- The counter passes through a value between the schemas of two lists. -/
theorem counts_append {schemas more : List (JsonTree ν)} {depth nodes after : Nat} :
    Counts (schemas ++ more) depth nodes after ↔
      ∃ mid, Counts schemas depth nodes mid ∧ Counts more depth mid after := by
  constructor
  · intro h
    have hcount := h.count
    rw [List.map_append, List.sum_append, ← add_assoc] at hcount
    -- the counter is finite at the end, hence in between
    have hfinite : (nodes : ℕ∞) +
        (schemas.map fun schema => (positions schemaChildren schema).encard).sum ≠ ⊤ := by
      intro htop
      rw [htop, top_add] at hcount
      exact ENat.natCast_ne_top after hcount
    obtain ⟨mid, hmid⟩ := ENat.ne_top_iff_exists.mp hfinite
    rw [← hmid] at hcount
    have hle : (mid : ℕ∞) ≤ after := hcount ▸ le_self_add
    have hlimit : mid ≤ 256 := Nat.le_trans (Nat.cast_le.mp hle) h.limit
    exact ⟨mid, ⟨fun schema hschema => h.admissible schema (List.mem_append_left _ hschema), hmid,
      hlimit⟩, fun schema hschema => h.admissible schema (List.mem_append_right _ hschema), hcount,
      h.limit⟩
  · rintro ⟨mid, hfirst, hrest⟩
    refine ⟨fun schema hschema => ?_, ?_, hrest.limit⟩
    · rcases List.mem_append.mp hschema with hschema | hschema
      · exact hfirst.admissible schema hschema
      · exact hrest.admissible schema hschema
    · rw [List.map_append, List.sum_append, ← add_assoc, ← hfirst.count, hrest.count]

/-- A schema counts for itself and then for its children. -/
theorem counts_singleton {schema : JsonTree ν} {depth nodes after : Nat} :
    Counts [schema] depth nodes after ↔ (AllowedSchema schema ∧ depth ≤ 16) ∧ nodes + 1 ≤ 256 ∧
      Counts (schemaChildren schema) (depth + 1) (nodes + 1) after := by
  have hsum : ∀ x : ℕ∞, (nodes : ℕ∞) + (x + 1) = ((nodes + 1 : Nat) : ℕ∞) + x := by
    intro x
    rw [Nat.cast_add, Nat.cast_one, add_comm x 1, add_assoc]
  constructor
  · intro h
    obtain ⟨hroot, hchildren⟩ := admissible_iff.mp (h.admissible schema (List.mem_singleton_self _))
    have hcount := h.count
    rw [List.map_singleton, List.sum_singleton, encard_positions, hsum] at hcount
    have hle : ((nodes + 1 : Nat) : ℕ∞) ≤ after := hcount ▸ le_self_add
    exact ⟨hroot, Nat.le_trans (Nat.cast_le.mp hle) h.limit, hchildren, hcount, h.limit⟩
  · rintro ⟨hroot, -, h⟩
    refine ⟨fun other hother => ?_, ?_, h.limit⟩
    · rw [List.mem_singleton.mp hother]
      exact admissible_iff.mpr ⟨hroot, h.admissible⟩
    · rw [List.map_singleton, List.sum_singleton, encard_positions, hsum, h.count]

/-- A keyword, and then those after it. -/
theorem keywords_cons {keyword : String × JsonTree ν} {object : List (String × JsonTree ν)}
    {depth nodes after : Nat} :
    ((∀ k ∈ keyword :: object, AllowedKeyword k) ∧
        Counts ((keyword :: object).flatMap subschemas) depth nodes after) ↔
      ∃ mid, AllowedKeyword keyword ∧ Counts (subschemas keyword) depth nodes mid ∧
        (∀ k ∈ object, AllowedKeyword k) ∧ Counts (object.flatMap subschemas) depth mid after := by
  rw [List.forall_mem_cons, List.flatMap_cons, counts_append]
  constructor
  · rintro ⟨⟨hfirst, hrest⟩, mid, hcounts, hafter⟩
    exact ⟨mid, hfirst, hcounts, hrest, hafter⟩
  · rintro ⟨mid, hfirst, hcounts, hrest, hafter⟩
    exact ⟨⟨hfirst, hrest⟩, mid, hcounts, hafter⟩

/-- A keyword that holds no schemas leaves the counter as it is. -/
theorem keywords_cons_plain {keyword : String × JsonTree ν} {object : List (String × JsonTree ν)}
    {depth nodes after : Nat} (hnodes : nodes ≤ 256) (hallowed : AllowedKeyword keyword)
    (hplain : subschemas keyword = []) :
    ((∀ k ∈ keyword :: object, AllowedKeyword k) ∧
        Counts ((keyword :: object).flatMap subschemas) depth nodes after) ↔
      (∀ k ∈ object, AllowedKeyword k) ∧ Counts (object.flatMap subschemas) depth nodes after := by
  rw [keywords_cons, hplain]
  constructor
  · rintro ⟨mid, -, hcounts, hrest⟩
    exact (counts_nil hnodes).mp hcounts ▸ hrest
  · exact fun hrest => ⟨nodes, hallowed, (counts_nil hnodes).mpr rfl, hrest⟩

theorem asStr_eq_some {value : JsonTree ν} {s : String} :
    value.asStr = some s ↔ value = .str s := by
  cases value <;> simp [JsonTree.asStr]

mutual

/-- The checker passes where the schema is admissible, and counts its positions. -/
theorem checkSchema_eq_ok (schema : JsonTree ν) (depth nodes after : Nat) :
    checkSchema schema depth nodes = .ok after ↔ Counts [schema] depth nodes after := by
  match schema with
  | .bool b =>
    rw [checkSchema, ite_error_eq_ok, counts_singleton, not_or, Nat.not_lt, Nat.not_lt]
    constructor
    · rintro ⟨⟨hdepth, hlimit⟩, h⟩
      exact ⟨⟨trivial, hdepth⟩, hlimit, (counts_nil hlimit).mpr (Except.ok.inj h).symm⟩
    · rintro ⟨⟨-, hdepth⟩, hlimit, h⟩
      exact ⟨⟨hdepth, hlimit⟩, congrArg _ ((counts_nil hlimit).mp h).symm⟩
  | .obj object =>
    rw [checkSchema, ite_error_eq_ok, counts_singleton, not_or, Nat.not_lt, Nat.not_lt]
    constructor
    · rintro ⟨⟨hdepth, hlimit⟩, h⟩
      obtain ⟨hallowed, hcounts⟩ := (checkKeywords_eq_ok object depth (nodes + 1) after hlimit).mp h
      exact ⟨⟨hallowed, hdepth⟩, hlimit, hcounts⟩
    · rintro ⟨⟨hallowed, hdepth⟩, hlimit, hcounts⟩
      exact ⟨⟨hdepth, hlimit⟩,
        (checkKeywords_eq_ok object depth (nodes + 1) after hlimit).mpr ⟨hallowed, hcounts⟩⟩
  | .null | .num _ | .str _ | .arr _ =>
    simp [checkSchema, ite_error_eq_ok, counts_singleton, AllowedSchema]

theorem checkKeywords_eq_ok (object : List (String × JsonTree ν)) (depth nodes after : Nat)
    (hnodes : nodes ≤ 256) :
    checkKeywords object depth nodes = .ok after ↔ (∀ keyword ∈ object, AllowedKeyword keyword) ∧
      Counts (object.flatMap subschemas) (depth + 1) nodes after := by
  match object with
  | [] =>
    rw [checkKeywords, List.flatMap_nil, counts_nil hnodes]
    simp [eq_comm]
  | (key, value) :: object =>
    rw [checkKeywords]
    split
    · rename_i hdialect
      rw [keywords_cons_plain hnodes (Or.inl ⟨hdialect.1, asStr_eq_some.mp hdialect.2⟩) ?_]
      · exact checkKeywords_eq_ok object depth nodes after hnodes
      · simp [subschemas, hdialect.1]
    rename_i hdialect
    split
    · rename_i hassertion
      rw [keywords_cons_plain hnodes (Or.inr (Or.inl hassertion)) ?_]
      · exact checkKeywords_eq_ok object depth nodes after hnodes
      · have hne : ∀ k ∉ assertionKeywords, key ≠ k := fun k hk heq => hk (heq ▸ hassertion)
        rw [subschemas, if_neg (hne _ (by decide)), if_neg]
        exact not_or.mpr ⟨hne _ (by decide), hne _ (by decide)⟩
    rename_i hassertion
    rw [keywords_cons]
    split
    · rename_i hproperties
      subst hproperties
      rw [bind_eq_ok]
      constructor
      · rintro ⟨mid, hfirst, hrest⟩
        obtain ⟨schemas, rfl, hcounts⟩ :=
          (checkProperties_eq_ok value (depth + 1) nodes mid hnodes).mp hfirst
        exact ⟨mid, Or.inr (Or.inr (Or.inl ⟨rfl, schemas, rfl⟩)), hcounts,
          (checkKeywords_eq_ok object depth mid after hcounts.limit).mp hrest⟩
      · rintro ⟨mid, hallowed, hcounts, hrest⟩
        have hobject : ∃ schemas, value = .obj schemas := by
          rcases hallowed with ⟨h, -⟩ | h | ⟨-, h⟩ | h | h
          · simp at h
          · exact absurd h hassertion
          · exact h
          · simp at h
          · simp at h
        obtain ⟨schemas, rfl⟩ := hobject
        exact ⟨mid,
          (checkProperties_eq_ok _ (depth + 1) nodes mid hnodes).mpr ⟨schemas, rfl, hcounts⟩,
          (checkKeywords_eq_ok object depth mid after hcounts.limit).mpr hrest⟩
    rename_i hproperties
    split
    · rename_i hschema
      have hsub : subschemas (key, value) = [value] := by
        rw [subschemas, if_neg hproperties, if_pos hschema]
      rw [bind_eq_ok, hsub]
      constructor
      · rintro ⟨mid, hfirst, hrest⟩
        have hcounts := (checkSchema_eq_ok value (depth + 1) nodes mid).mp hfirst
        exact ⟨mid, Or.inr (Or.inr (Or.inr hschema)), hcounts,
          (checkKeywords_eq_ok object depth mid after hcounts.limit).mp hrest⟩
      · rintro ⟨mid, -, hcounts, hrest⟩
        exact ⟨mid, (checkSchema_eq_ok value (depth + 1) nodes mid).mpr hcounts,
          (checkKeywords_eq_ok object depth mid after hcounts.limit).mpr hrest⟩
    · rename_i hschema
      constructor
      · exact nofun
      · rintro ⟨mid, hallowed, -⟩
        rcases hallowed with ⟨hkey, hvalue⟩ | h | ⟨h, -⟩ | h
        · exact absurd ⟨hkey, asStr_eq_some.mpr hvalue⟩ hdialect
        · exact absurd h hassertion
        · exact absurd h hproperties
        · exact absurd h hschema

theorem checkProperties_eq_ok (value : JsonTree ν) (depth nodes after : Nat)
    (hnodes : nodes ≤ 256) :
    checkProperties value depth nodes = .ok after ↔ ∃ schemas, value = .obj schemas ∧
      Counts (schemas.map (·.2)) depth nodes after := by
  match value with
  | .obj schemas =>
    rw [checkProperties, checkSchemas_eq_ok schemas depth nodes after hnodes]
    constructor
    · exact fun h => ⟨schemas, rfl, h⟩
    · rintro ⟨_, heq, h⟩
      exact JsonTree.obj.inj heq ▸ h
  | .null | .bool _ | .num _ | .str _ | .arr _ => simp [checkProperties]

theorem checkSchemas_eq_ok (schemas : List (String × JsonTree ν)) (depth nodes after : Nat)
    (hnodes : nodes ≤ 256) :
    checkSchemas schemas depth nodes = .ok after ↔
      Counts (schemas.map (·.2)) depth nodes after := by
  match schemas with
  | [] =>
    rw [checkSchemas, List.map_nil, counts_nil hnodes]
    simp [eq_comm]
  | (key, schema) :: schemas =>
    rw [checkSchemas, bind_eq_ok, List.map_cons, ← List.singleton_append, counts_append]
    constructor
    · rintro ⟨mid, hfirst, hrest⟩
      have hcounts := (checkSchema_eq_ok schema depth nodes mid).mp hfirst
      exact ⟨mid, hcounts, (checkSchemas_eq_ok schemas depth mid after hcounts.limit).mp hrest⟩
    · rintro ⟨mid, hfirst, hrest⟩
      exact ⟨mid, (checkSchema_eq_ok schema depth nodes mid).mpr hfirst,
        (checkSchemas_eq_ok schemas depth mid after hfirst.limit).mpr hrest⟩

end

/-! ## Data in a schema -/

mutual

/-- The document without the data of its `enum` and `const` keywords. -/
def eraseData : JsonTree ν → JsonTree ν
  | .obj object => .obj (eraseKeywords object)
  | schema => schema

def eraseKeywords : List (String × JsonTree ν) → List (String × JsonTree ν)
  | [] => []
  | (key, value) :: object =>
      let value :=
        if key = "enum" ∨ key = "const" then .null
        else if key = "properties" then eraseProperties value
        else if key = "items" ∨ key = "additionalProperties" then eraseData value
        else value
      (key, value) :: eraseKeywords object

def eraseProperties : JsonTree ν → JsonTree ν
  | .obj schemas => .obj (eraseSchemas schemas)
  | value => value

def eraseSchemas : List (String × JsonTree ν) → List (String × JsonTree ν)
  | [] => []
  | (key, schema) :: schemas => (key, eraseData schema) :: eraseSchemas schemas

end

mutual

theorem checkSchema_eraseData (schema : JsonTree ν) (depth nodes : Nat) :
    checkSchema (eraseData schema) depth nodes = checkSchema schema depth nodes := by
  match schema with
  | .obj object => rw [eraseData, checkSchema, checkSchema, checkKeywords_eraseKeywords object]
  | .null | .bool _ | .num _ | .str _ | .arr _ =>
    rw [eraseData]
    exact nofun

theorem checkKeywords_eraseKeywords (object : List (String × JsonTree ν)) (depth nodes : Nat) :
    checkKeywords (eraseKeywords object) depth nodes = checkKeywords object depth nodes := by
  match object with
  | [] => rw [eraseKeywords]
  | (key, value) :: object =>
    have hrest : ∀ n, checkKeywords (eraseKeywords object) depth n = checkKeywords object depth n :=
      checkKeywords_eraseKeywords object depth
    simp only [eraseKeywords, checkKeywords, hrest]
    by_cases hdata : key = "enum" ∨ key = "const"
    · have hassertion : key ∈ assertionKeywords := by
        rcases hdata with rfl | rfl <;> decide
      have hschema : key ≠ "$schema" := by
        rcases hdata with rfl | rfl <;> decide
      simp [hassertion, hschema]
    rw [if_neg hdata]
    by_cases hproperties : key = "properties"
    · subst hproperties
      simp [checkProperties_eraseProperties value]
    rw [if_neg hproperties]
    by_cases hschema : key = "items" ∨ key = "additionalProperties"
    · have hdialect : key ≠ "$schema" := by
        rcases hschema with rfl | rfl <;> decide
      simp [hschema, hdialect, hproperties, checkSchema_eraseData value]
    · rw [if_neg hschema]

theorem checkProperties_eraseProperties (value : JsonTree ν) (depth nodes : Nat) :
    checkProperties (eraseProperties value) depth nodes = checkProperties value depth nodes := by
  match value with
  | .obj schemas => rw [eraseProperties, checkProperties, checkProperties,
      checkSchemas_eraseSchemas schemas]
  | .null | .bool _ | .num _ | .str _ | .arr _ =>
    rw [eraseProperties]
    exact nofun

theorem checkSchemas_eraseSchemas (schemas : List (String × JsonTree ν)) (depth nodes : Nat) :
    checkSchemas (eraseSchemas schemas) depth nodes = checkSchemas schemas depth nodes := by
  match schemas with
  | [] => rw [eraseSchemas]
  | (key, schema) :: schemas =>
    have hrest : ∀ n, checkSchemas (eraseSchemas schemas) depth n = checkSchemas schemas depth n :=
      checkSchemas_eraseSchemas schemas depth
    simp only [eraseSchemas, checkSchemas, hrest, checkSchema_eraseData schema]

end

/-! ## What is accepted -/

/-- Keywords that refer to other schemas, combine schemas, or assert patterns and formats. -/
def rejectedKeywords : List String :=
  ["$ref", "$dynamicRef", "$recursiveRef", "allOf", "anyOf", "oneOf", "not", "if", "then", "else",
    "dependentSchemas", "pattern", "patternProperties", "format"]

theorem not_rejected {keyword : String × JsonTree ν} (h : AllowedKeyword keyword) :
    keyword.1 ∉ rejectedKeywords := by
  have hassertions : ∀ k ∈ assertionKeywords, k ∉ rejectedKeywords := by decide
  rcases h with ⟨h, -⟩ | h | ⟨h, -⟩ | h | h
  · exact h ▸ by decide
  · exact hassertions _ h
  · exact h ▸ by decide
  · exact h ▸ by decide
  · exact h ▸ by decide

theorem counts_start {schema : JsonTree ν} :
    (∃ nodes, Counts [schema] 0 0 nodes) ↔ Admissible schema 0 ∧
      (positions schemaChildren schema).encard ≤ 256 := by
  constructor
  · rintro ⟨nodes, h⟩
    have hcount := h.count
    rw [List.map_singleton, List.sum_singleton, Nat.cast_zero, zero_add] at hcount
    exact ⟨h.admissible schema (List.mem_singleton_self _), hcount ▸ Nat.cast_le.mpr h.limit⟩
  · rintro ⟨hadmissible, hlimit⟩
    obtain ⟨nodes, hnodes⟩ :=
      ENat.ne_top_iff_exists.mp (ne_top_of_le_ne_top (ENat.natCast_ne_top 256) hlimit)
    refine ⟨nodes, fun other hother => List.mem_singleton.mp hother ▸ hadmissible, ?_, ?_⟩
    · rw [List.map_singleton, List.sum_singleton, Nat.cast_zero, zero_add, hnodes]
    · rw [← hnodes] at hlimit
      exact Nat.cast_le.mp hlimit

/-- The checker accepts exactly the documents whose schema positions, at most 256 of them and at most
16 levels deep, are all in the subset.  What it accepts has no rejected keyword at such a position,
and the data of `enum` and `const` does not matter to it. -/
theorem checkSchema_accepts_subset (schema : JsonTree ν) :
    ((∃ nodes, checkSchema schema 0 0 = .ok nodes) ↔
      (∀ path position, descend schemaChildren schema path = some position →
        AllowedSchema position ∧ path.length ≤ 16) ∧
      (positions schemaChildren schema).encard ≤ 256) ∧
    ((∃ nodes, checkSchema schema 0 0 = .ok nodes) →
      ∀ path object, descend schemaChildren schema path = some (.obj object) →
        ∀ keyword ∈ object, keyword.1 ∉ rejectedKeywords) ∧
    ∀ depth nodes, checkSchema (eraseData schema) depth nodes = checkSchema schema depth nodes := by
  have haccepts : (∃ nodes, checkSchema schema 0 0 = .ok nodes) ↔
      Admissible schema 0 ∧ (positions schemaChildren schema).encard ≤ 256 := by
    rw [← counts_start]
    exact exists_congr fun nodes => checkSchema_eq_ok schema 0 0 nodes
  have hadmissible : Admissible schema 0 ↔
      ∀ path position, descend schemaChildren schema path = some position →
        AllowedSchema position ∧ path.length ≤ 16 := by
    unfold Admissible
    simp only [Nat.zero_add]
  refine ⟨?_, fun h path object hobject keyword hkeyword => ?_, checkSchema_eraseData schema⟩
  · rw [haccepts, hadmissible]
  · exact not_rejected (((haccepts.mp h).1 path _ hobject).1 keyword hkeyword)

end Tools

end AgentBridge
