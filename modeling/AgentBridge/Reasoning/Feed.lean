import Mathlib.Data.List.Sort

/-!
# Feeds of changes and their mirrors

A feed is a table whose rows carry the position of their last change, under a clock that no position
exceeds.  A mirror copies it page by page while the feed goes on changing.  The rules: what a mirror
covers up to a position it covers in every later feed, and a mirror that covers everything is the
table.
-/

namespace Reasoning

structure Feed (K V P : Type) [LE P] where
  row : K → Option (V × P)
  clock : P
  bounded : ∀ k v p, row k = some (v, p) → p ≤ clock

/-- How the rows of a table are read, and which of two readings is the newer one. -/
structure Reading (V W R : Type) where
  Reads : V → W → Prop
  revision : V → R
  version : W → R
  functional : ∀ {v w w'}, Reads v w → Reads v w' → w = w'
  version_eq : ∀ {v w}, Reads v w → version w = revision v

section Mirror

variable {K V W P R : Type} [LinearOrder P] [LinearOrder R] (rd : Reading V W R)

/-- What a feed can become: a row that changes gets a higher revision, and a position behind the
clock. -/
structure Feed.Grows (f f' : Feed K V P) : Prop where
  clock : f.clock ≤ f'.clock
  row : ∀ k v p, f.row k = some (v, p) → f'.row k = some (v, p) ∨
    ∃ v' p', f'.row k = some (v', p') ∧ f.clock < p' ∧ rd.revision v < rd.revision v'
  fresh : ∀ k v p, f.row k = none → f'.row k = some (v, p) → f.clock < p

/-- What a mirror holds is in the table, as it is or at a higher revision. -/
def Feed.Older (f : Feed K V P) (m : K → Option W) : Prop :=
  ∀ k w, m k = some w →
    ∃ v p, f.row k = some (v, p) ∧ (rd.Reads v w ∨ rd.version w < rd.revision v)

/-- The mirror holds the rows of a part of the table as they are. -/
def Feed.Covers (f : Feed K V P) (m : K → Option W) (C : V → P → Prop) : Prop :=
  ∀ k v p, f.row k = some (v, p) → C v p → ∃ w, rd.Reads v w ∧ m k = some w

/-- A page of rows as they are. -/
def Feed.Current (f : Feed K V P) (page : List (K × W)) : Prop :=
  ∀ k w, (k, w) ∈ page → ∃ v p, f.row k = some (v, p) ∧ rd.Reads v w

variable {rd} {f f' f'' : Feed K V P} {m : K → Option W} {C C' : V → P → Prop}

/-! ## The table changes -/

theorem Feed.Grows.refl (f : Feed K V P) : f.Grows rd f where
  clock := le_refl _
  row _ _ _ h := .inl h
  fresh k v p h h' := by
    rw [h] at h'
    cases h'

theorem Feed.Grows.trans (h : f.Grows rd f') (h' : f'.Grows rd f'') : f.Grows rd f'' where
  clock := le_trans h.clock h'.clock
  row k v p hrow := by
    rcases h.row k v p hrow with hsame | ⟨v', p', hnew, hp', hv'⟩
    · rcases h'.row k v p hsame with hsame' | ⟨v'', p'', hnew', hp'', hv''⟩
      · exact .inl hsame'
      · exact .inr ⟨v'', p'', hnew', lt_of_le_of_lt h.clock hp'', hv''⟩
    · rcases h'.row k v' p' hnew with hsame' | ⟨v'', p'', hnew', hp'', hv''⟩
      · exact .inr ⟨v', p', hsame', hp', hv'⟩
      · exact .inr ⟨v'', p'', hnew', lt_of_le_of_lt h.clock hp'', lt_trans hv' hv''⟩
  fresh k v p hnone hrow := by
    cases hmid : f'.row k with
    | none => exact lt_of_le_of_lt h.clock (h'.fresh k v p hmid hrow)
    | some row =>
      have hfresh := h.fresh k row.1 row.2 hnone hmid
      rcases h'.row k row.1 row.2 hmid with hsame | ⟨v', p', hnew, hp', -⟩
      · rw [hrow, Option.some.injEq, Prod.mk.injEq] at hsame
        rw [hsame.2]
        exact hfresh
      · rw [hrow, Option.some.injEq, Prod.mk.injEq] at hnew
        rw [hnew.2]
        exact lt_of_le_of_lt h.clock hp'

theorem Feed.Older.grows (h : f.Older rd m) (hg : f.Grows rd f') : f'.Older rd m := by
  intro k w hw
  obtain ⟨v, p, hrow, hold⟩ := h k w hw
  rcases hg.row k v p hrow with hsame | ⟨v', p', hnew, -, hv'⟩
  · exact ⟨v, p, hsame, hold⟩
  · refine ⟨v', p', hnew, .inr ?_⟩
    rcases hold with hreads | hlt
    · rw [rd.version_eq hreads]
      exact hv'
    · exact lt_trans hlt hv'

/-- What changes lies behind the clock, so the part of the table up to it stays covered. -/
theorem Feed.Covers.grows (h : f.Covers rd m C) (hg : f.Grows rd f')
    (hC : ∀ v p, C v p → p ≤ f.clock) : f'.Covers rd m C := by
  intro k v p hrow hc
  have hle := hC v p hc
  cases hold : f.row k with
  | none => exact absurd (hg.fresh k v p hold hrow) (not_lt.mpr hle)
  | some row =>
    rcases hg.row k row.1 row.2 hold with hsame | ⟨v', p', hnew, hp', -⟩
    · rw [hrow, Option.some.injEq] at hsame
      obtain rfl := congrArg Prod.fst hsame
      obtain rfl := congrArg Prod.snd hsame
      exact h k _ _ hold hc
    · rw [hrow, Option.some.injEq, Prod.mk.injEq] at hnew
      obtain ⟨rfl, rfl⟩ := hnew
      exact absurd hp' (not_lt.mpr hle)

omit [LinearOrder R] in
theorem Feed.Covers.mono (h : f.Covers rd m C)
    (hC : ∀ k v p, f.row k = some (v, p) → C' v p → C v p) : f.Covers rd m C' :=
  fun k v p hrow hc => h k v p hrow (hC k v p hrow hc)

/-! ## A page is applied -/

variable [DecidableEq K] (rd)

/-- A row replaces an older one only. -/
def merge (m : K → Option W) (row : K × W) : K → Option W := fun k =>
  if k = row.1 then
    match m row.1 with
    | none => some row.2
    | some old => if rd.version old < rd.version row.2 then some row.2 else some old
  else m k

variable {rd} {page : List (K × W)}

theorem merge_ne {row : K × W} {k : K} (h : k ≠ row.1) : merge rd m row k = m k := if_neg h

/-- A row as it is replaces whatever the mirror holds, or equals it. -/
theorem merge_current (hold : f.Older rd m) {k : K} {w : W} {v : V} {p : P}
    (hrow : f.row k = some (v, p)) (hreads : rd.Reads v w) : merge rd m (k, w) k = some w := by
  unfold merge
  rw [if_pos rfl]
  cases hm : m k with
  | none => rfl
  | some old =>
    dsimp only
    obtain ⟨v', p', hrow', hage⟩ := hold k old hm
    rw [hrow, Option.some.injEq, Prod.mk.injEq] at hrow'
    obtain ⟨rfl, -⟩ := hrow'
    rcases hage with hsame | hlt
    · rw [rd.functional hsame hreads, if_neg (lt_irrefl _)]
    · rw [if_pos (by rw [rd.version_eq hreads]; exact hlt)]

/-- A mirror never goes back. -/
theorem version_le_merge (row : K × W) {k : K} {w : W} (hw : m k = some w) :
    ∃ w', merge rd m row k = some w' ∧ rd.version w ≤ rd.version w' := by
  by_cases hk : k = row.1
  · unfold merge
    rw [if_pos hk, ← hk, hw]
    dsimp only
    by_cases hlt : rd.version w < rd.version row.2
    · exact ⟨row.2, if_pos hlt, le_of_lt hlt⟩
    · exact ⟨w, if_neg hlt, le_refl _⟩
  · exact ⟨w, (merge_ne hk).trans hw, le_refl _⟩

theorem version_le_merges (page : List (K × W)) {k : K} {w : W} (hw : m k = some w) :
    ∃ w', page.foldl (merge rd) m k = some w' ∧ rd.version w ≤ rd.version w' := by
  induction page generalizing m w with
  | nil => exact ⟨w, hw, le_refl _⟩
  | cons row page ih =>
    have hrow : ∃ mid, merge rd m row k = some mid ∧ rd.version w ≤ rd.version mid :=
      version_le_merge row hw
    obtain ⟨mid, hmid, hle⟩ := hrow
    obtain ⟨w', hw', hle'⟩ := ih hmid
    exact ⟨w', hw', le_trans hle hle'⟩

theorem Feed.Older.merge (hold : f.Older rd m) {k : K} {w : W} {v : V} {p : P}
    (hrow : f.row k = some (v, p)) (hreads : rd.Reads v w) :
    f.Older rd (merge rd m (k, w)) := by
  intro k' w' hw'
  by_cases hk : k' = k
  · subst hk
    rw [merge_current hold hrow hreads, Option.some.injEq] at hw'
    subst hw'
    exact ⟨v, p, hrow, .inl hreads⟩
  · rw [merge_ne hk] at hw'
    exact hold k' w' hw'

/-- What a page of rows as they are leaves of a mirror. -/
structure Applied (f : Feed K V P) (rd : Reading V W R) (m : K → Option W) (page : List (K × W))
    (m' : K → Option W) : Prop where
  older : f.Older rd m'
  rows : ∀ k w, (k, w) ∈ page → m' k = some w
  others : ∀ k, (∀ w, (k, w) ∉ page) → m' k = m k

theorem applied (hold : f.Older rd m) (hpage : f.Current rd page) :
    Applied f rd m page (page.foldl (merge rd) m) := by
  induction page generalizing m with
  | nil => exact ⟨hold, fun _ _ h => absurd h List.not_mem_nil, fun _ _ => rfl⟩
  | cons row page ih =>
    obtain ⟨k, w⟩ := row
    obtain ⟨v, p, hrow, hreads⟩ := hpage k w List.mem_cons_self
    have hrest := ih (hold.merge hrow hreads) fun k' w' h => hpage k' w' (List.mem_cons_of_mem _ h)
    refine ⟨hrest.older, ?_, ?_⟩
    · intro k' w' hmem
      by_cases hlater : ∃ w'', (k', w'') ∈ page
      · -- a row listed twice is the same row
        obtain ⟨w'', hw''⟩ := hlater
        obtain ⟨v', p', hrow', hreads'⟩ := hpage k' w' hmem
        obtain ⟨v'', p'', hrow'', hreads''⟩ := hpage k' w'' (List.mem_cons_of_mem _ hw'')
        rw [hrow', Option.some.injEq, Prod.mk.injEq] at hrow''
        obtain ⟨rfl, -⟩ := hrow''
        rw [rd.functional hreads' hreads'']
        exact hrest.rows k' w'' hw''
      · have hhead : (k', w') = (k, w) := by
          rcases List.mem_cons.mp hmem with h | h
          · exact h
          · exact absurd ⟨w', h⟩ hlater
        obtain ⟨rfl, rfl⟩ := Prod.mk.inj hhead
        exact (hrest.others k' fun w'' h => hlater ⟨w'', h⟩).trans
          (merge_current hold hrow hreads)
    · intro k' hnot
      have hne : k' ≠ k := fun h => hnot w (by rw [h]; exact List.mem_cons_self)
      exact (hrest.others k' fun w' h => hnot w' (List.mem_cons_of_mem _ h)).trans (merge_ne hne)

/-- A page extends what a mirror covers by the rows on it. -/
theorem Feed.Covers.apply (hcovers : f.Covers rd m C) (hold : f.Older rd m)
    (hpage : f.Current rd page)
    (h : ∀ k v p, f.row k = some (v, p) → C' v p → C v p ∨ ∃ w, (k, w) ∈ page) :
    f.Covers rd (page.foldl (merge rd) m) C' := by
  intro k v p hrow hc
  have happlied := applied hold hpage
  by_cases hmem : ∃ w, (k, w) ∈ page
  · obtain ⟨w, hw⟩ := hmem
    obtain ⟨v', p', hrow', hreads⟩ := hpage k w hw
    rw [hrow, Option.some.injEq, Prod.mk.injEq] at hrow'
    obtain ⟨rfl, -⟩ := hrow'
    exact ⟨w, hreads, happlied.rows k w hw⟩
  · obtain ⟨w, hreads, hw⟩ := hcovers k v p hrow ((h k v p hrow hc).resolve_right hmem)
    exact ⟨w, hreads, (happlied.others k fun w' h' => hmem ⟨w', h'⟩).trans hw⟩

omit [DecidableEq K] in
/-- A mirror that covers the whole table is the table. -/
theorem Feed.Covers.exact (hcovers : f.Covers rd m C) (hold : f.Older rd m)
    (hC : ∀ k v p, f.row k = some (v, p) → C v p) (k : K) (w : W) :
    m k = some w ↔ ∃ v p, f.row k = some (v, p) ∧ rd.Reads v w := by
  constructor
  · intro hw
    obtain ⟨v, p, hrow, -⟩ := hold k w hw
    obtain ⟨w', hreads, hw'⟩ := hcovers k v p hrow (hC k v p hrow)
    rw [hw, Option.some.injEq] at hw'
    subst hw'
    exact ⟨v, p, hrow, hreads⟩
  · rintro ⟨v, p, hrow, hreads⟩
    obtain ⟨w', hreads', hw'⟩ := hcovers k v p hrow (hC k v p hrow)
    rw [rd.functional hreads hreads']
    exact hw'

end Mirror

/-! ## Pages by key -/

section Keyed

variable {α ι : Type} [LinearOrder ι] (key : α → ι)

/-- `WHERE key > after ORDER BY key LIMIT n`. -/
def selectAfter (l : List α) (after : ι) (n : Nat) : List α :=
  ((l.filter fun a => after < key a).insertionSort fun a b => key a ≤ key b).take n

/-- How many rows lie behind a key. -/
def remaining (l : List α) (after : ι) : Nat := (l.filter fun a => after < key a).length

variable {key} {l : List α} {after : ι} {n : Nat}

theorem length_selectAfter : (selectAfter key l after n).length = min n (remaining key l after) := by
  rw [selectAfter, List.length_take, List.length_insertionSort, remaining]

theorem mem_selectAfter {a : α} (h : a ∈ selectAfter key l after n) : a ∈ l ∧ after < key a := by
  have hmem := List.mem_of_mem_take h
  rw [List.mem_insertionSort, List.mem_filter, decide_eq_true_eq] at hmem
  exact hmem

/-- A row behind the key is on the page, or comes behind every row of it, and the page is full. -/
theorem selectAfter_complete {a : α} (ha : a ∈ l) (hafter : after < key a)
    (hout : a ∉ selectAfter key l after n) :
    (selectAfter key l after n).length = n ∧ ∀ b ∈ selectAfter key l after n, key b ≤ key a := by
  have hmem : a ∈ (l.filter fun a => after < key a).insertionSort fun a b => key a ≤ key b := by
    rw [List.mem_insertionSort, List.mem_filter, decide_eq_true_eq]
    exact ⟨ha, hafter⟩
  have hsorted := List.pairwise_insertionSort (fun a b => key a ≤ key b)
    (l.filter fun a => after < key a)
  unfold selectAfter at hout ⊢
  rw [← List.take_append_drop n (List.insertionSort _ _), List.mem_append] at hmem
  rw [← List.take_append_drop n (List.insertionSort _ _), List.pairwise_append] at hsorted
  have hdrop := hmem.resolve_left hout
  have hlong := List.length_pos_of_mem hdrop
  rw [List.length_drop] at hlong
  refine ⟨?_, fun b hb => hsorted.2.2 b hb a hdrop⟩
  rw [List.length_take]
  omega

/-- Behind a full page there is what there was, less the page. -/
theorem remaining_last (hkeys : (l.map key).Nodup) {a : α}
    (hlast : (selectAfter key l after n).getLast? = some a) :
    remaining key l (key a) = remaining key l after - n := by
  have hperm := List.perm_insertionSort (fun a b => key a ≤ key b) (l.filter fun a => after < key a)
  have hstrict : ((l.filter fun a => after < key a).insertionSort
      fun a b => key a ≤ key b).Pairwise fun a b => key a < key b := by
    have hsorted := List.pairwise_insertionSort (fun a b => key a ≤ key b)
      (l.filter fun a => after < key a)
    have hdistinct : (((l.filter fun a => after < key a).insertionSort
        fun a b => key a ≤ key b).map key).Nodup :=
      (hperm.map key).nodup_iff.mpr (hkeys.sublist (List.filter_sublist.map key))
    have hne := List.pairwise_map.mp hdistinct
    exact (hsorted.and hne).imp fun h => lt_of_le_of_ne h.1 h.2
  have hafter : after < key a := by
    have hmem := List.mem_of_mem_take (List.mem_of_getLast? hlast)
    have hfilter := hperm.mem_iff.mp hmem
    simpa using (List.mem_filter.mp hfilter).2
  unfold selectAfter at hlast
  generalize hl : (l.filter fun a => after < key a).insertionSort (fun a b => key a ≤ key b) =
    sorted at hperm hstrict hlast
  have hsplit := hstrict
  rw [← List.take_append_drop n sorted, List.pairwise_append] at hsplit
  obtain ⟨htake, -, hacross⟩ := hsplit
  have hfront : ∀ b ∈ sorted.take n, ¬ key a < key b := by
    obtain ⟨front, hfront⟩ := List.getLast?_eq_some_iff.mp hlast
    rw [hfront] at htake ⊢
    intro b hb
    rcases List.mem_append.mp hb with hb | hb
    · exact not_lt.mpr (le_of_lt ((List.pairwise_append.mp htake).2.2 b hb a (by simp)))
    · rw [List.mem_singleton.mp hb]
      exact lt_irrefl _
  have hrest : sorted.filter (fun b => key a < key b) = sorted.drop n := by
    conv_lhs => rw [← List.take_append_drop n sorted]
    rw [List.filter_append, List.filter_eq_nil_iff.mpr (by simpa using hfront), List.nil_append,
      List.filter_eq_self.mpr]
    intro b hb
    simpa using hacross a (List.mem_of_getLast? hlast) b hb
  have hcount : remaining key l (key a) = (sorted.filter fun b => key a < key b).length := by
    rw [(hperm.filter _).length_eq, List.filter_filter, remaining]
    congr 1
    apply List.filter_congr
    intro b _
    by_cases hb : key a < key b
    · simp [hb, lt_trans hafter hb]
    · simp [hb]
  rw [hcount, hrest, List.length_drop, hperm.length_eq, remaining]

end Keyed

/-! ## Lists of counterparts -/

/-- Each member has a counterpart. -/
theorem exists_of_mem_left {α β : Type} {R : α → β → Prop} {l : List α} {l' : List β}
    (h : List.Forall₂ R l l') {a : α} (ha : a ∈ l) : ∃ b, b ∈ l' ∧ R a b := by
  induction h with
  | nil => cases ha
  | cons hab _ ih =>
    rcases List.mem_cons.mp ha with rfl | ha
    · exact ⟨_, List.mem_cons_self, hab⟩
    · obtain ⟨b, hb, hr⟩ := ih ha
      exact ⟨b, List.mem_cons_of_mem _ hb, hr⟩

theorem exists_of_mem_right {α β : Type} {R : α → β → Prop} {l : List α} {l' : List β}
    (h : List.Forall₂ R l l') {b : β} (hb : b ∈ l') : ∃ a, a ∈ l ∧ R a b :=
  exists_of_mem_left h.flip hb

/-- The last members are counterparts. -/
theorem getLast?_of_forall₂ {α β : Type} {R : α → β → Prop} {l : List α} {l' : List β}
    (h : List.Forall₂ R l l') {b : β} (hb : l'.getLast? = some b) :
    ∃ a, l.getLast? = some a ∧ R a b := by
  rw [← List.head?_reverse] at hb
  have hreverse := List.rel_reverse h
  cases hl : l.reverse with
  | nil =>
    rw [hl] at hreverse
    rw [List.forall₂_nil_left_iff.mp hreverse] at hb
    cases hb
  | cons a rest =>
    rw [hl] at hreverse
    obtain ⟨b', rest', hab, -, heq⟩ := List.forall₂_cons_left_iff.mp hreverse
    rw [heq, List.head?_cons, Option.some.injEq] at hb
    subst hb
    exact ⟨a, by rw [← List.head?_reverse, hl, List.head?_cons], hab⟩

theorem exists_forall₂ {α β : Type} {R : α → β → Prop} {l : List α} (h : ∀ a ∈ l, ∃ b, R a b) :
    ∃ l', List.Forall₂ R l l' := by
  induction l with
  | nil => exact ⟨[], .nil⟩
  | cons a l ih =>
    obtain ⟨b, hb⟩ := h a List.mem_cons_self
    obtain ⟨l', hl'⟩ := ih fun a' ha' => h a' (List.mem_cons_of_mem _ ha')
    exact ⟨b :: l', .cons hb hl'⟩

end Reasoning
