import Mathlib.Data.List.Infix
import Mathlib.Algebra.GroupWithZero.Nat

/-!
# Pages of a log that grows

A reader takes pages of a log from an offset on and goes on behind each full page, while entries
are appended between its reads.  What it has read is a prefix of the log, and once a page is not
full it has read all that the log held at first.
-/

namespace Reasoning

variable {α : Type}

/-- Entries that are all found are found alike on a page. -/
theorem take_filterMap {β : Type} {f : α → Option β} :
    ∀ (l : List α) (n : Nat), (∀ a ∈ l, (f a).isSome) →
      (l.filterMap f).take n = (l.take n).filterMap f
  | [], n, _ => by simp
  | a :: l, 0, _ => by simp
  | a :: l, n + 1, hsome => by
    obtain ⟨b, hb⟩ := Option.isSome_iff_exists.mp (hsome a List.mem_cons_self)
    have ih := take_filterMap l n fun a ha => hsome a (List.mem_cons_of_mem _ ha)
    simp only [List.filterMap_cons, hb, List.take_succ_cons, ih]

def page (log : List α) (start limit : Nat) : List α := (log.drop start).take limit

theorem length_page (log : List α) (start limit : Nat) :
    (page log start limit).length = min limit (log.length - start) := by
  rw [page, List.length_take, List.length_drop]

/-- The pages of a reader from the log's versions at its reads, each with the size of the page, and
whether the last page was not full. -/
def readPages (start : Nat) : List (List α × Nat) → List α × Bool
  | [] => ([], false)
  | (log, limit) :: reads =>
      if (page log start limit).length < limit then (page log start limit, true)
      else
        let rest := readPages (start + limit) reads
        (page log start limit ++ rest.1, rest.2)

theorem page_front {log last : List α} (h : log <+: last) (start limit : Nat) :
    page log start limit <+: last.drop start :=
  (List.take_prefix _ _).trans (h.drop start)

/-- A full page is the same in every later version. -/
theorem page_eq_of_full {log last : List α} (h : log <+: last) {start limit : Nat}
    (hfull : ¬ (page log start limit).length < limit) :
    page log start limit = (last.drop start).take limit := by
  have hlength : (page log start limit).length = limit := by
    have := length_page log start limit
    omega
  have htake := List.prefix_iff_eq_take.mp (page_front h start limit)
  rwa [hlength] at htake

/-- What is read is read from the log, in its order and without a gap. -/
theorem readPages_prefix {last : List α} {reads : List (List α × Nat)}
    (hreads : ∀ read ∈ reads, read.1 <+: last) (start : Nat) :
    (readPages start reads).1 <+: last.drop start := by
  induction reads generalizing start with
  | nil => exact List.nil_prefix
  | cons read reads ih =>
    obtain ⟨log, limit⟩ := read
    have hlog : log <+: last := hreads (log, limit) (by simp)
    have hrest := ih (fun other ho => hreads other (by simp [ho])) (start + limit)
    rw [readPages]
    by_cases hshort : (page log start limit).length < limit
    · rw [if_pos hshort]
      exact page_front hlog start limit
    · rw [if_neg hshort]
      show page log start limit ++ (readPages (start + limit) reads).1 <+: last.drop start
      have happend := (List.prefix_append_right_inj (page log start limit)).mpr hrest
      rwa [page_eq_of_full hlog hshort, ← List.drop_drop, List.take_append_drop,
        ← page_eq_of_full hlog hshort] at happend

/-- Once a page is not full, all that the log held at first is read. -/
theorem le_length_readPages {first : List α} {reads : List (List α × Nat)}
    (hreads : ∀ read ∈ reads, first <+: read.1) (start : Nat)
    (hdone : (readPages start reads).2 = true) :
    first.length - start ≤ (readPages start reads).1.length := by
  induction reads generalizing start with
  | nil => cases hdone
  | cons read reads ih =>
    obtain ⟨log, limit⟩ := read
    have hle : first.length ≤ log.length := (hreads (log, limit) (by simp)).length_le
    have hlength := length_page log start limit
    rw [readPages] at hdone ⊢
    by_cases hshort : (page log start limit).length < limit
    · rw [if_pos hshort]
      dsimp only
      omega
    · rw [if_neg hshort] at hdone ⊢
      have hrest := ih (fun other ho => hreads other (by simp [ho])) (start + limit) hdone
      rw [List.length_append]
      omega

/-- A reader whose pages are all full has read as many entries as it asked for. -/
theorem length_readPages {reads : List (List α × Nat)} (start : Nat)
    (hmore : (readPages start reads).2 = false) :
    (readPages start reads).1.length = (reads.map (·.2)).sum := by
  induction reads generalizing start with
  | nil => rfl
  | cons read reads ih =>
    obtain ⟨log, limit⟩ := read
    have hlength := length_page log start limit
    rw [readPages] at hmore ⊢
    by_cases hshort : (page log start limit).length < limit
    · rw [if_pos hshort] at hmore
      cases hmore
    · rw [if_neg hshort] at hmore ⊢
      rw [List.length_append, ih (start + limit) hmore, List.map_cons, List.sum_cons]
      omega

/-- A reader from the start of the log. -/
theorem prefix_readPages {first last : List α} {reads : List (List α × Nat)}
    (hfirst : ∀ read ∈ reads, first <+: read.1) (hlast : ∀ read ∈ reads, read.1 <+: last)
    (hgrown : first <+: last) (hdone : (readPages 0 reads).2 = true) :
    first <+: (readPages 0 reads).1 := by
  have hread := readPages_prefix hlast 0
  rw [List.drop_zero] at hread
  exact List.prefix_of_prefix_length_le hgrown hread (le_length_readPages hfirst 0 hdone)

end Reasoning
