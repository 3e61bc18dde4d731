import Mathlib.Data.List.AList
import Mathlib.Data.List.Sort

/-!
# Keyed tables

A hash map, or a table with a primary key: at most one value a key.
-/

namespace Reasoning

abbrev HashMap (K V : Type) := AList (fun _ : K => V)

namespace HashMap

variable {K V : Type} [DecidableEq K]

def values (m : HashMap K V) : List V := m.entries.map (·.2)

theorem lookup_insert_eq (m : HashMap K V) (k k' : K) (v : V) :
    AList.lookup k' (m.insert k v) = if k' = k then some v else AList.lookup k' m := by
  split
  · next h => rw [h, AList.lookup_insert]
  · next h => exact AList.lookup_insert_ne h

theorem mem_entries_iff (m : HashMap K V) (k : K) (v : V) :
    (⟨k, v⟩ : Sigma fun _ : K => V) ∈ m.entries ↔ AList.lookup k m = some v :=
  AList.mem_lookup_iff.symm

theorem mem_values_iff (m : HashMap K V) (v : V) :
    v ∈ values m ↔ ∃ k, AList.lookup k m = some v := by
  simp only [values, List.mem_map, ← mem_entries_iff]
  constructor
  · rintro ⟨⟨k, w⟩, hmem, rfl⟩
    exact ⟨k, hmem⟩
  · rintro ⟨k, hmem⟩
    exact ⟨⟨k, v⟩, hmem, rfl⟩

omit [DecidableEq K] in
theorem nodup_entries (m : HashMap K V) : m.entries.Nodup :=
  m.nodupKeys.nodup

/-- A table whose rows name their key lists no row twice. -/
theorem nodup_values (m : HashMap K V)
    (h : ∀ k k' v, AList.lookup k m = some v → AList.lookup k' m = some v → k = k') :
    (values m).Nodup := by
  refine List.Nodup.map_on ?_ (nodup_entries m)
  rintro ⟨k, v⟩ hv ⟨k', v'⟩ hv' (rfl : v = v')
  have hk := h k k' v ((mem_entries_iff m k v).mp hv) ((mem_entries_iff m k' v).mp hv')
  rw [hk]

/-- The keys and values that pass a test. -/
def retain (m : HashMap K V) (keep : K → V → Bool) : HashMap K V :=
  ⟨m.entries.filter fun entry => keep entry.1 entry.2, m.nodupKeys.sublist List.filter_sublist⟩

/-- The same keys with other values. -/
def mapValues {W : Type} (f : V → W) (m : HashMap K V) : HashMap K W :=
  ⟨m.entries.map (.map id fun _ => f), m.nodupKeys.map₂ fun _ => f⟩

@[simp] theorem lookup_mapValues {W : Type} (f : V → W) (m : HashMap K V) (k : K) :
    AList.lookup k (mapValues f m) = (AList.lookup k m).map f :=
  List.dlookup_map₂ k

end HashMap

/-- A list of distinct members, sorted by a key, is the strictly increasing list of them. -/
theorem insertionSort_eq_of_mem_iff {V ι : Type} [LinearOrder ι] {key : V → ι} {l rows : List V}
    (hl : l.Nodup) (hmem : ∀ v, v ∈ rows ↔ v ∈ l)
    (hrows : rows.Pairwise fun a b => key a < key b) :
    l.insertionSort (fun a b => key a ≤ key b) = rows := by
  have hnodup : rows.Nodup := hrows.imp fun h heq => by
    rw [heq] at h
    exact lt_irrefl _ h
  have hperm : l.insertionSort (fun a b => key a ≤ key b) |>.Perm rows :=
    (List.perm_insertionSort _ l).trans
      ((List.perm_ext_iff_of_nodup hl hnodup).mpr fun v => (hmem v).symm)
  have hsorted : (l.insertionSort fun a b => key a ≤ key b).Pairwise fun a b => key a ≤ key b :=
    List.pairwise_insertionSort _ l
  refine hperm.eq_of_pairwise ?_ hsorted (hrows.imp le_of_lt)
  intro a b ha hb hab hba
  have hkeys : (rows.map key).Nodup := List.pairwise_map.mpr (hrows.imp ne_of_lt)
  exact List.inj_on_of_nodup_map hkeys (hperm.mem_iff.mp ha) hb (le_antisymm hab hba)

/-- Two lists with the same distinct members have the same sorting. -/
theorem insertionSort_congr {ι : Type} [LinearOrder ι] {l l' : List ι} (hl : l.Nodup)
    (hl' : l'.Nodup) (hmem : ∀ v, v ∈ l ↔ v ∈ l') :
    l.insertionSort (· ≤ ·) = l'.insertionSort (· ≤ ·) := by
  have hperm : l.Perm l' := (List.perm_ext_iff_of_nodup hl hl').mpr hmem
  have hsorted : (l.insertionSort (· ≤ ·)).Perm (l'.insertionSort (· ≤ ·)) :=
    (List.perm_insertionSort _ l).trans (hperm.trans (List.perm_insertionSort _ l').symm)
  exact hsorted.eq_of_pairwise (fun a b _ _ => le_antisymm) (List.pairwise_insertionSort _ l)
    (List.pairwise_insertionSort _ l')

end Reasoning
