import AgentBridge.Reasoning.Except

/-!
# Decoding a UTF-8 stream

The characters that are complete in the bytes received so far, and the bytes that wait for more.
However the encoding of a text is cut into chunks, and wherever it breaks off, decoding them one
after the other gives the characters that are complete.
-/

namespace Reasoning

namespace Utf8Stream

def encode (text : List Char) : List UInt8 := text.flatMap String.utf8EncodeChar

/-- The character that the bytes start with. -/
def first (bytes : List UInt8) : Option Char := bytes.toByteArray.utf8DecodeChar? 0

theorem first_encode (c : Char) (bytes : List UInt8) :
    first (String.utf8EncodeChar c ++ bytes) = some c := by
  unfold first
  rw [List.toByteArray_append]
  exact ByteArray.utf8DecodeChar?_utf8EncodeChar_append

/-- Bytes that start with a character start with its encoding. -/
theorem eq_append_of_first {bytes : List UInt8} {c : Char} (h : first bytes = some c) :
    ∃ more, bytes = String.utf8EncodeChar c ++ more := by
  obtain ⟨more, hmore⟩ := ByteArray.exists_of_utf8DecodeChar?_eq_some h
  refine ⟨more.data.toList, ?_⟩
  have hlist := congrArg (fun b : ByteArray => b.data.toList) hmore
  simpa using hlist

theorem length_first {bytes : List UInt8} {c : Char} (h : first bytes = some c) :
    (bytes.drop c.utf8Size).length < bytes.length := by
  obtain ⟨more, rfl⟩ := eq_append_of_first h
  have hpos := Char.utf8Size_pos c
  have hlen := String.length_utf8EncodeChar c
  simp only [List.length_drop, List.length_append]
  omega

/-! ## What waits -/

/-- The bounds of the byte after a first byte: no character is longer than it needs to be, a
surrogate, or above the last code point. -/
def followsFirst (b c : UInt8) : Bool :=
  (if b.toNat = 0xE0 then 0xA0 else if b.toNat = 0xF0 then 0x90 else 0x80) ≤ c.toNat &&
    c.toNat ≤ (if b.toNat = 0xED then 0x9F else if b.toNat = 0xF4 then 0x8F else 0xBF)

/-- Whether a character begins with these bytes, and has more. -/
def waits : List UInt8 → Bool
  | [] => true
  | [b] => 0xC2 ≤ b.toNat && b.toNat ≤ 0xF4
  | [b, c] => 0xE0 ≤ b.toNat && b.toNat ≤ 0xF4 && followsFirst b c
  | [b, c, d] =>
      0xF0 ≤ b.toNat && b.toNat ≤ 0xF4 && followsFirst b c && 0x80 ≤ d.toNat && d.toNat ≤ 0xBF
  | _ => false

theorem toNat_byte {n : Nat} (h : n < 256) : (UInt8.ofNat n).toNat = n := by
  rw [UInt8.toNat_ofNat']
  omega

/-- The bounds of the second of three bytes. -/
theorem followsFirst_three {v : Nat} (hlow : 0x800 ≤ v) (hhigh : v ≤ 0xFFFF)
    (hvalid : v < 0xD800 ∨ 0xDFFF < v) :
    followsFirst (UInt8.ofNat (v / 4096 % 16 + 224)) (UInt8.ofNat (v / 64 % 64 + 128)) = true := by
  rw [followsFirst, toNat_byte (by omega), toNat_byte (by omega), Bool.and_eq_true,
    decide_eq_true_eq, decide_eq_true_eq]
  constructor
  · split
    · omega
    · rw [if_neg (by omega)]
      omega
  · split
    · omega
    · rw [if_neg (by omega)]
      omega

theorem followsFirst_four {v : Nat} (hlow : 0xFFFF < v) (hhigh : v < 0x110000) :
    followsFirst (UInt8.ofNat (v / 262144 % 8 + 240)) (UInt8.ofNat (v / 4096 % 64 + 128)) = true := by
  rw [followsFirst, toNat_byte (by omega), toNat_byte (by omega), Bool.and_eq_true,
    decide_eq_true_eq, decide_eq_true_eq]
  constructor
  · rw [if_neg (by omega)]
    split <;> omega
  · rw [if_neg (by omega)]
    split <;> omega

/-- What is a part of an encoding waits. -/
theorem waits_take (c : Char) {n : Nat} (h : n < c.utf8Size) :
    waits ((String.utf8EncodeChar c).take n) = true := by
  have hvalid : c.val.toNat < 0xD800 ∨ 0xDFFF < c.val.toNat ∧ c.val.toNat < 0x110000 := c.valid
  rw [← String.length_utf8EncodeChar] at h
  unfold String.utf8EncodeChar at h ⊢
  dsimp only at h ⊢
  generalize c.val.toNat = v at *
  by_cases h1 : v ≤ 0x7f
  · rw [if_pos h1] at h ⊢
    obtain rfl : n = 0 := Nat.lt_one_iff.mp h
    rfl
  by_cases h2 : v ≤ 0x7ff
  · rw [if_neg h1, if_pos h2] at h ⊢
    have h : n < 2 := h
    match n with
    | 0 => rfl
    | 1 =>
      have hfirst := @toNat_byte (v / 64 % 32 + 192) (by omega)
      simp only [List.take, waits, hfirst, Bool.and_eq_true, decide_eq_true_eq]
      omega
  by_cases h3 : v ≤ 0xffff
  · rw [if_neg h1, if_neg h2, if_pos h3] at h ⊢
    have h : n < 3 := h
    have hfirst := @toNat_byte (v / 4096 % 16 + 224) (by omega)
    have hsecond := @followsFirst_three v (by omega) h3 (by omega)
    match n with
    | 0 => rfl
    | 1 =>
      simp only [List.take, waits, hfirst, Bool.and_eq_true, decide_eq_true_eq]
      omega
    | 2 =>
      simp only [List.take, waits, hfirst, hsecond, Bool.and_eq_true, decide_eq_true_eq, and_true]
      omega
  · rw [if_neg h1, if_neg h2, if_neg h3] at h ⊢
    have h : n < 4 := h
    have hfirst := @toNat_byte (v / 262144 % 8 + 240) (by omega)
    have hsecond := @followsFirst_four v (by omega) (by omega)
    have hthird := @toNat_byte (v / 64 % 64 + 128) (by omega)
    match n with
    | 0 => rfl
    | 1 =>
      simp only [List.take, waits, hfirst, Bool.and_eq_true, decide_eq_true_eq]
      omega
    | 2 =>
      simp only [List.take, waits, hfirst, hsecond, Bool.and_eq_true, decide_eq_true_eq, and_true]
      omega
    | 3 =>
      simp only [List.take, waits, hfirst, hsecond, hthird, Bool.and_eq_true, decide_eq_true_eq,
        and_true]
      omega
/-! ## Chunks -/

/-- The complete characters, and the bytes that wait. -/
def pull (bytes : List UInt8) : Except String (List Char × List UInt8) :=
  match _hfirst : first bytes with
  | some c =>
      match pull (bytes.drop c.utf8Size) with
      | .ok (cs, left) => .ok (c :: cs, left)
      | .error e => .error e
  | none => if waits bytes then .ok ([], bytes) else .error "The encoded data was not valid."
termination_by bytes.length
decreasing_by exact length_first _hfirst

theorem pull_encode (c : Char) (bytes : List UInt8) :
    pull (String.utf8EncodeChar c ++ bytes) = (pull bytes).map fun r => (c :: r.1, r.2) := by
  have hdrop : (String.utf8EncodeChar c ++ bytes).drop c.utf8Size = bytes := by
    rw [← String.length_utf8EncodeChar c]
    exact List.drop_left
  rw [pull]
  split
  · next d hd =>
    rw [first_encode, Option.some.injEq] at hd
    subst hd
    rw [hdrop]
    cases pull bytes <;> rfl
  · next hnone =>
    rw [first_encode] at hnone
    cases hnone

theorem pull_whole (text : List Char) : pull (encode text) = .ok (text, []) := by
  induction text with
  | nil =>
    rw [pull]
    rfl
  | cons c text ih =>
    show pull (String.utf8EncodeChar c ++ encode text) = _
    rw [pull_encode, ih]
    rfl

theorem encode_append (text more : List Char) : encode (text ++ more) = encode text ++ encode more :=
  List.flatMap_append

/-- These bytes are less than the first character of the text. -/
def Short (bytes : List UInt8) (text : List Char) : Prop :=
  ∀ c rest, text = c :: rest → bytes.length < c.utf8Size

theorem short_nil (text : List Char) : Short [] text := fun c _ _ => Char.utf8Size_pos c

/-- A text that is encoded before less than one more character. -/
theorem prefix_of_encode {a b rest rest' : List Char} {cut left : List UInt8}
    (htext : a ++ rest = b ++ rest') (hbytes : encode a ++ cut = encode b ++ left)
    (hshort : Short left rest') : a <+: b := by
  rcases List.append_eq_append_iff.mp htext with ⟨m, hb, -⟩ | ⟨m, rfl, rfl⟩
  · exact ⟨m, hb.symm⟩
  · cases m with
    | nil => exact ⟨[], by simp⟩
    | cons c m =>
      have hlen := hshort c (m ++ rest) rfl
      rw [encode_append, List.append_assoc] at hbytes
      rw [← List.append_cancel_left hbytes] at hlen
      simp only [encode, List.flatMap_cons, List.length_append, String.length_utf8EncodeChar] at hlen
      omega

/-- A part of an encoding waits. -/
theorem pull_partial {bytes more : List UInt8} {text : List Char}
    (h : bytes ++ more = encode text) (hshort : Short bytes text) :
    pull bytes = .ok ([], bytes) := by
  have hnone : first bytes = none := by
    cases hd : first bytes with
    | none => rfl
    | some d =>
      obtain ⟨after, rfl⟩ := eq_append_of_first hd
      cases text with
      | nil =>
        have hempty := congrArg List.length h
        have hpos := Char.utf8Size_pos d
        simp only [List.length_append, String.length_utf8EncodeChar, encode, List.flatMap_nil,
          List.length_nil] at hempty
        omega
      | cons c text =>
        have hlen := hshort c text rfl
        have hwhole : first (encode (c :: text)) = some c := first_encode c _
        rw [← h, List.append_assoc, first_encode, Option.some.injEq] at hwhole
        subst hwhole
        rw [List.length_append, String.length_utf8EncodeChar] at hlen
        omega
  have hwaits : waits bytes = true := by
    cases text with
    | nil =>
      rw [(List.append_eq_nil_iff.mp h).1]
      rfl
    | cons c text =>
      have hlen := hshort c text rfl
      have hfront : bytes <+: String.utf8EncodeChar c := by
        have hall : String.utf8EncodeChar c <+: bytes ++ more := by
          rw [h]
          exact List.prefix_append _ _
        have hsize := String.length_utf8EncodeChar c
        exact List.prefix_of_prefix_length_le (List.prefix_append bytes more) hall (by omega)
      rw [List.prefix_iff_eq_take.mp hfront]
      exact waits_take c hlen
  rw [pull]
  split
  · next d hd =>
    rw [hnone] at hd
    cases hd
  · rw [if_pos hwaits]

/-- The beginning of an encoding yields the beginning of the text. -/
theorem pull_prefix (text : List Char) {bytes more : List UInt8}
    (h : bytes ++ more = encode text) :
    ∃ head tail left, text = head ++ tail ∧ pull bytes = .ok (head, left) ∧
      bytes = encode head ++ left ∧ left ++ more = encode tail ∧ Short left tail := by
  induction text generalizing bytes with
  | nil =>
    obtain ⟨rfl, rfl⟩ := List.append_eq_nil_iff.mp h
    exact ⟨[], [], [], rfl, by rw [pull]; rfl, rfl, rfl, fun _ _ h => by cases h⟩
  | cons c text ih =>
    have hlen := String.length_utf8EncodeChar c
    by_cases hshort : bytes.length < c.utf8Size
    · have hpart : Short bytes (c :: text) := by
        intro d rest heq
        rw [← (List.cons.inj heq).1]
        exact hshort
      exact ⟨[], c :: text, bytes, rfl, pull_partial h hpart, rfl, h, hpart⟩
    · have hfront : String.utf8EncodeChar c <+: bytes := by
        have hall : String.utf8EncodeChar c <+: bytes ++ more := by
          rw [h]
          exact List.prefix_append _ _
        exact List.prefix_of_prefix_length_le hall (List.prefix_append bytes more) (by omega)
      obtain ⟨after, rfl⟩ := hfront
      have hafter : after ++ more = encode text := by
        rw [List.append_assoc] at h
        exact List.append_cancel_left h
      obtain ⟨head, tail, left, htext, hpull, hbytes, hleft, hend⟩ := ih hafter
      refine ⟨c :: head, tail, left, by rw [htext]; rfl, ?_, ?_, hleft, hend⟩
      · rw [pull_encode, hpull]
        rfl
      · rw [hbytes]
        exact (List.append_assoc ..).symm

/-- The characters of the chunks, one chunk after the other. -/
def pullAll : List (List UInt8) → List UInt8 → Except String (List (List Char))
  | [], _ => .ok []
  | chunk :: chunks, waiting => do
      let (cs, left) ← pull (waiting ++ chunk)
      .ok (cs :: (← pullAll chunks left))

/-- Chunks of the beginning of an encoding yield the beginning of the text. -/
theorem pullAll_prefix (chunks : List (List UInt8)) {text : List Char} {waiting more : List UInt8}
    (h : waiting ++ chunks.flatten ++ more = encode text) (hwaiting : Short waiting text) :
    ∃ parts tail left, pullAll chunks waiting = .ok parts ∧ text = parts.flatten ++ tail ∧
      waiting ++ chunks.flatten = encode parts.flatten ++ left ∧ Short left tail := by
  induction chunks generalizing text waiting with
  | nil => exact ⟨[], text, waiting, rfl, rfl, List.append_nil _, hwaiting⟩
  | cons chunk chunks ih =>
    rw [List.flatten_cons, ← List.append_assoc, List.append_assoc] at h
    obtain ⟨head, tail, left, rfl, hpull, hbytes, hleft, hshort⟩ := pull_prefix text h
    rw [← List.append_assoc] at hleft
    obtain ⟨parts, rest, last, hparts, rfl, hflatten, hlast⟩ := ih hleft hshort
    refine ⟨head :: parts, rest, last, ?_, ?_, ?_, hlast⟩
    · simp only [pullAll, hpull, ok_bind, hparts]
    · rw [List.flatten_cons, List.append_assoc]
    · rw [List.flatten_cons, List.flatten_cons, encode_append, ← List.append_assoc, hbytes,
        List.append_assoc, List.append_assoc, hflatten]

end Utf8Stream

end Reasoning
