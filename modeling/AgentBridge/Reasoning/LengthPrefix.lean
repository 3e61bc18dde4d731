import AgentBridge.Reasoning.JsonText
import Std.Data.String.ToNat

/-!
# Strings with their length in front

The UTF-8 length in decimal, a colon, and the string.  What follows such a string can be told from it,
whatever the string contains.
-/

namespace Reasoning

open JsonTree

def lengthPrefixed (s : String) : String := toString s.utf8ByteSize ++ ":" ++ s

/-- Lists that first contain an element at their split have the same parts. -/
theorem append_cons_inj {α : Type} {c : α} {l l' r r' : List α} (hl : c ∉ l) (hl' : c ∉ l')
    (h : l ++ c :: r = l' ++ c :: r') : l = l' ∧ r = r' := by
  induction l generalizing l' with
  | nil =>
    cases l' with
    | nil => exact ⟨rfl, (List.cons.inj h).2⟩
    | cons d l' =>
      obtain ⟨rfl, -⟩ := List.cons.inj h
      exact absurd List.mem_cons_self hl'
  | cons d l ih =>
    cases l' with
    | nil =>
      obtain ⟨rfl, -⟩ := List.cons.inj h
      exact absurd List.mem_cons_self hl
    | cons d' l' =>
      obtain ⟨rfl, hrest⟩ := List.cons.inj h
      obtain ⟨rfl, rfl⟩ := ih (fun hc => hl (List.mem_cons_of_mem _ hc))
        (fun hc => hl' (List.mem_cons_of_mem _ hc)) hrest
      exact ⟨rfl, rfl⟩

/-- Texts with fronts of the same length in bytes have the same parts. -/
theorem append_inj_of_utf8Bytes {l l' r r' : List Char} (hbytes : utf8Bytes l = utf8Bytes l')
    (h : l ++ r = l' ++ r') : l = l' ∧ r = r' := by
  have hnil : ∀ m : List Char, utf8Bytes m = 0 → m = [] := by
    intro m hm
    cases m with
    | nil => rfl
    | cons c m =>
      have hpos := c.utf8Size_pos
      rw [utf8Bytes_cons] at hm
      omega
  rcases List.append_eq_append_iff.mp h with ⟨m, rfl, rfl⟩ | ⟨m, rfl, rfl⟩
  · rw [utf8Bytes_append] at hbytes
    obtain rfl := hnil m (by omega)
    simp
  · rw [utf8Bytes_append] at hbytes
    obtain rfl := hnil m (by omega)
    simp

theorem colon_notMem_toString (n : Nat) : ':' ∉ (toString n).toList := by
  intro hmem
  have hdigits : ':' ∈ Nat.toDigits 10 n := by
    rwa [← Nat.toList_repr]
  exact absurd (Nat.isDigit_of_mem_toDigits (by decide) (by decide) hdigits) (by decide)

theorem lengthPrefixed_append_inj {s s' t t' : String} :
    lengthPrefixed s ++ t = lengthPrefixed s' ++ t' ↔ s = s' ∧ t = t' := by
  constructor
  · intro h
    have hlists := congrArg String.toList h
    simp only [lengthPrefixed, String.toList_append, List.append_assoc] at hlists
    obtain ⟨hlength, hrest⟩ := append_cons_inj (colon_notMem_toString _) (colon_notMem_toString _)
      hlists
    have hbytes : s.utf8ByteSize = s'.utf8ByteSize := Nat.repr_injective (String.ext hlength)
    rw [← utf8Bytes_toList, ← utf8Bytes_toList] at hbytes
    obtain ⟨hs, ht⟩ := append_inj_of_utf8Bytes hbytes hrest
    exact ⟨String.ext hs, String.ext ht⟩
  · rintro ⟨rfl, rfl⟩
    rfl

end Reasoning
