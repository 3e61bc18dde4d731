import Mathlib.Data.List.Basic
import Mathlib.Data.String.Basic

/-! # Maps sorted by a string key: the ordered maps of the data model and the objects of JSON -/

namespace Reasoning

/-- Keys strictly increasing: the members of a map. -/
def sortedKeys {α : Type} : List (String × α) → Bool
  | [] => true
  | [_] => true
  | a :: b :: rest => decide (a.1 < b.1) && sortedKeys (b :: rest)

theorem sortedKeys_map {α β : Type} (f : α → β) (l : List (String × α)) :
    sortedKeys (l.map fun m => (m.1, f m.2)) = sortedKeys l := by
  induction l with
  | nil => rfl
  | cons a l ih =>
    cases l with
    | nil => rfl
    | cons b l =>
      simp only [List.map_cons, sortedKeys] at ih ⊢
      rw [ih]

/-- Names in strictly increasing order. -/
def sortedNames : List String → Bool
  | [] => true
  | [_] => true
  | a :: b :: rest => decide (a < b) && sortedNames (b :: rest)

theorem sortedKeys_eq_sortedNames {α : Type} (l : List (String × α)) :
    sortedKeys l = sortedNames (l.map (·.1)) := by
  induction l with
  | nil => rfl
  | cons a l ih =>
    cases l with
    | nil => rfl
    | cons b l =>
      simp only [List.map_cons, sortedKeys, sortedNames] at ih ⊢
      rw [ih]

theorem sortedKeys_iff {α : Type} (l : List (String × α)) :
    sortedKeys l = true ↔ l.Pairwise fun a b => a.1 < b.1 := by
  induction l with
  | nil => simp [sortedKeys]
  | cons a l ih =>
    cases l with
    | nil => simp [sortedKeys]
    | cons b l =>
      simp only [sortedKeys, Bool.and_eq_true, decide_eq_true_eq, ih, List.pairwise_cons]
      constructor
      · rintro ⟨hab, hb, hl⟩
        refine ⟨?_, hb, hl⟩
        intro c hc
        rcases List.mem_cons.mp hc with rfl | hc
        · exact hab
        · exact hab.trans (hb c hc)
      · rintro ⟨ha, hb, hl⟩
        exact ⟨ha b (by simp), hb, hl⟩

theorem sortedKeys_filter {α : Type} (p : String × α → Bool) {l : List (String × α)}
    (h : sortedKeys l = true) : sortedKeys (l.filter p) = true :=
  (sortedKeys_iff _).mpr (((sortedKeys_iff l).mp h).filter p)

/-- The members of a map with one set. -/
def setKey {α : Type} (key : String) (value : α) : List (String × α) → List (String × α)
  | [] => [(key, value)]
  | a :: l =>
      if key < a.1 then (key, value) :: a :: l
      else if key = a.1 then (key, value) :: l
      else a :: setKey key value l

theorem mem_setKey {α : Type} {key : String} {value : α} {l : List (String × α)} {a : String × α}
    (h : a ∈ setKey key value l) : a = (key, value) ∨ a ∈ l := by
  induction l with
  | nil => simpa [setKey] using h
  | cons b l ih =>
    simp only [setKey] at h
    split at h
    · simpa using h
    · split at h
      · rcases List.mem_cons.mp h with rfl | h
        · exact .inl rfl
        · exact .inr (List.mem_cons_of_mem _ h)
      · rcases List.mem_cons.mp h with rfl | h
        · exact .inr List.mem_cons_self
        · exact (ih h).imp_right (List.mem_cons_of_mem _)

theorem sortedKeys_setKey {α : Type} (key : String) (value : α) {l : List (String × α)}
    (h : sortedKeys l = true) : sortedKeys (setKey key value l) = true := by
  rw [sortedKeys_iff] at h ⊢
  induction l with
  | nil => simp [setKey]
  | cons b l ih =>
    obtain ⟨hb, hl⟩ := List.pairwise_cons.mp h
    simp only [setKey]
    split
    · next hlt =>
      refine List.pairwise_cons.mpr ⟨?_, h⟩
      intro c hc
      rcases List.mem_cons.mp hc with rfl | hc
      · exact hlt
      · exact hlt.trans (hb c hc)
    · next hge =>
      split
      · next heq => exact List.pairwise_cons.mpr ⟨by simpa [heq] using hb, hl⟩
      · next hne =>
        refine List.pairwise_cons.mpr ⟨?_, ih hl⟩
        intro c hc
        rcases mem_setKey hc with rfl | hc
        · exact lt_of_le_of_ne (not_lt.mp hge) (Ne.symm hne)
        · exact hb c hc

/-- A `BTreeMap` keyed by strings. -/
structure SortedMap (V : Type) where
  entries : List (String × V)
  sorted : sortedKeys entries = true
deriving DecidableEq

namespace SortedMap

variable {V : Type}

def empty : SortedMap V := ⟨[], rfl⟩

def singleton (key : String) (value : V) : SortedMap V := ⟨[(key, value)], rfl⟩

def get (m : SortedMap V) (key : String) : Option V := m.entries.lookup key

def keys (m : SortedMap V) : List String := m.entries.map (·.1)

def insert (m : SortedMap V) (key : String) (value : V) : SortedMap V :=
  ⟨setKey key value m.entries, sortedKeys_setKey key value m.sorted⟩

theorem get_insert (m : SortedMap V) (key other : String) (value : V) :
    (m.insert key value).get other = if other = key then some value else m.get other := by
  have hlookup : ∀ {l : List (String × V)}, sortedKeys l = true →
      (setKey key value l).lookup other = if other = key then some value else l.lookup other := by
    intro l hsorted
    rw [sortedKeys_iff] at hsorted
    induction l with
    | nil =>
      by_cases hother : other = key
      · simp [setKey, hother]
      · simp [setKey, hother, List.lookup_cons, beq_false_of_ne hother]
    | cons b l ih =>
      obtain ⟨k, v⟩ := b
      obtain ⟨-, hl⟩ := List.pairwise_cons.mp hsorted
      unfold setKey
      by_cases hlt : key < k
      · rw [if_pos hlt, List.lookup_cons]
        by_cases hother : other = key
        · simp [hother]
        · simp [hother, beq_false_of_ne hother]
      · rw [if_neg hlt]
        by_cases hkey : key = k
        · rw [if_pos hkey, List.lookup_cons, List.lookup_cons, ← hkey]
          by_cases hother : other = key
          · simp [hother]
          · simp [hother, beq_false_of_ne hother]
        · rw [if_neg hkey, List.lookup_cons, List.lookup_cons, ih hl]
          by_cases hother : other = k
          · have hne : ¬ other = key := fun h => hkey (h.symm.trans hother)
            simp [hother, Ne.symm hkey]
          · simp [beq_false_of_ne hother]
  exact hlookup m.sorted

theorem mem_of_get {m : SortedMap V} {key : String} {value : V} (h : m.get key = some value) :
    (key, value) ∈ m.entries := by
  obtain ⟨before, after, hentries, -⟩ := List.lookup_eq_some_iff.mp h
  rw [hentries]
  simp

theorem get_of_mem {m : SortedMap V} {key : String} {value : V} (h : (key, value) ∈ m.entries) :
    m.get key = some value := by
  obtain ⟨before, after, hentries⟩ := List.append_of_mem h
  have hsorted := (sortedKeys_iff _).mp m.sorted
  rw [hentries, List.pairwise_append] at hsorted
  refine List.lookup_eq_some_iff.mpr ⟨before, after, hentries, fun p hp => ?_⟩
  have hlt := hsorted.2.2 p hp (key, value) List.mem_cons_self
  simpa using (ne_of_lt hlt).symm

/-- A map collected from pairs, of which a later one replaces an earlier one with its key. -/
def collect (pairs : List (String × V)) : SortedMap V :=
  pairs.foldl (fun m pair => m.insert pair.1 pair.2) empty

theorem get_collect {pairs : List (String × V)} (hdistinct : (pairs.map (·.1)).Nodup) (key : String)
    (value : V) : (collect pairs).get key = some value ↔ (key, value) ∈ pairs := by
  have hfold : ∀ {pairs : List (String × V)} (m : SortedMap V), (pairs.map (·.1)).Nodup →
      ((pairs.foldl (fun m pair => m.insert pair.1 pair.2) m).get key = some value ↔
        (key, value) ∈ pairs ∨ key ∉ pairs.map (·.1) ∧ m.get key = some value) := by
    intro pairs
    induction pairs with
    | nil => simp
    | cons pair pairs ih =>
      intro m hnodup
      obtain ⟨hfresh, hrest⟩ := List.nodup_cons.mp hnodup
      rw [List.foldl_cons, ih _ hrest, get_insert]
      obtain ⟨k, v⟩ := pair
      by_cases hkey : key = k
      · subst hkey
        have hout : (key, value) ∉ pairs := fun hmem => hfresh (List.mem_map.mpr ⟨_, hmem, rfl⟩)
        simp [hfresh, hout, eq_comm]
      · simp [hkey]
  rw [collect, hfold _ hdistinct]
  simp [get, empty]

/-- The map with these members; `none` when they are not the sorted members of a map. -/
def ofMembers? (members : List (String × V)) : Option (SortedMap V) :=
  if h : sortedKeys members = true then some ⟨members, h⟩ else none

@[simp] theorem ofMembers?_entries (m : SortedMap V) : ofMembers? m.entries = some m := by
  simp only [ofMembers?, m.sorted, ↓reduceDIte]

end SortedMap

end Reasoning
