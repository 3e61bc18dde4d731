import AgentBridge.Reasoning.JsonTree

/-!
# Strings of UTF-16 code units

What a script engine holds as a string: code units, among them surrogates that need not come in
pairs.  A well-formed string decodes to characters, and its JSON text has the bytes that a UTF-8
library prints for those.
-/

namespace Reasoning

namespace Utf16

def isHigh (u : UInt16) : Bool := decide (0xD800 ≤ u.toNat ∧ u.toNat < 0xDC00)

def isLow (u : UInt16) : Bool := decide (0xDC00 ≤ u.toNat ∧ u.toNat < 0xE000)

/-- The character of a unit that is no surrogate. -/
def scalar (u : UInt16) : Char := Char.ofNat u.toNat

/-- The character of a surrogate pair. -/
def pair (u v : UInt16) : Char :=
  Char.ofNat (0x10000 + (u.toNat - 0xD800) * 0x400 + (v.toNat - 0xDC00))

/-- The characters, unless a surrogate is alone. -/
def decode : List UInt16 → Option (List Char)
  | [] => some []
  | [u] => if isHigh u || isLow u then none else some [scalar u]
  | u :: v :: rest =>
      if isHigh u && isLow v then (decode rest).map (pair u v :: ·)
      else if isHigh u || isLow u then none
      else (decode (v :: rest)).map (scalar u :: ·)

def encodeChar (c : Char) : List UInt16 :=
  if c.toNat < 0x10000 then [UInt16.ofNat c.toNat]
  else [UInt16.ofNat (0xD800 + (c.toNat - 0x10000) / 0x400),
    UInt16.ofNat (0xDC00 + (c.toNat - 0x10000) % 0x400)]

def encode (s : String) : List UInt16 := s.toList.flatMap encodeChar

/-- The string that a UTF-8 library reads. -/
def read (s : List UInt16) : Option String := (decode s).map String.ofList

/-! ## JSON text -/

/-- The bytes of a unit in JSON text; a lone surrogate is escaped. -/
def unitBytes (u : UInt16) : Nat :=
  if u.toNat = 34 ∨ u.toNat = 92 then 2
  else if u.toNat = 8 ∨ u.toNat = 12 ∨ u.toNat = 10 ∨ u.toNat = 13 ∨ u.toNat = 9 then 2
  else if u.toNat < 32 then 6
  else if isHigh u || isLow u then 6
  else if u.toNat < 0x80 then 1
  else if u.toNat < 0x800 then 2
  else 3

def unitsBytes : List UInt16 → Nat
  | [] => 0
  | [u] => unitBytes u
  | u :: v :: rest =>
      if isHigh u && isLow v then 4 + unitsBytes rest else unitBytes u + unitsBytes (v :: rest)

/-- The bytes of the JSON text of a string, with its quotes. -/
def stringBytes (s : List UInt16) : Nat := unitsBytes s + 2

theorem unitBytes_le (u : UInt16) : unitBytes u ≤ 6 := by
  unfold unitBytes
  repeat' split
  all_goals omega

theorem unitsBytes_le (s : List UInt16) : unitsBytes s ≤ 6 * s.length := by
  induction s using unitsBytes.induct with
  | case1 => exact Nat.le_refl 0
  | case2 u =>
    have hu := unitBytes_le u
    simp only [unitsBytes, List.length_singleton]
    omega
  | case3 u v rest hpair ih =>
    simp only [unitsBytes, hpair, if_true, List.length_cons]
    omega
  | case4 u v rest hpair ih =>
    have hu := unitBytes_le u
    simp only [unitsBytes, if_neg hpair, List.length_cons] at ih ⊢
    omega

/-! ## Characters -/

theorem toNat_ofNat {n : Nat} (h : n.isValidChar) : (Char.ofNat n).toNat = n := by
  rw [Char.ofNat, dif_pos h]
  rfl

theorem toNat_scalar {u : UInt16} (h : (isHigh u || isLow u) = false) : (scalar u).toNat = u.toNat := by
  have hu := u.toNat_lt
  simp only [isHigh, isLow, Bool.or_eq_false_iff, decide_eq_false_iff_not] at h
  apply toNat_ofNat
  unfold Nat.isValidChar
  omega

theorem toNat_pair {u v : UInt16} (h : (isHigh u && isLow v) = true) :
    (pair u v).toNat = 0x10000 + (u.toNat - 0xD800) * 0x400 + (v.toNat - 0xDC00) := by
  simp only [isHigh, isLow, Bool.and_eq_true, decide_eq_true_eq] at h
  apply toNat_ofNat
  unfold Nat.isValidChar
  omega

theorem utf8Size_eq (c : Char) : c.utf8Size =
    if c.toNat < 0x80 then 1 else if c.toNat < 0x800 then 2 else if c.toNat < 0x10000 then 3 else 4 := by
  unfold Char.utf8Size Char.toNat
  simp only [UInt32.le_iff_toNat_le]
  have h7 : (UInt32.ofNatLT 0x7F (by decide)).toNat = 0x7F := rfl
  have h11 : (UInt32.ofNatLT 0x7FF (by decide)).toNat = 0x7FF := rfl
  have h16 : (UInt32.ofNatLT 0xFFFF (by decide)).toNat = 0xFFFF := rfl
  rw [h7, h11, h16]
  repeat' split
  all_goals omega

theorem eq_iff_toNat {c d : Char} : c = d ↔ c.toNat = d.toNat := Char.toNat_inj.symm

theorem charBytes_eq (c : Char) : JsonTree.charBytes c =
    if c.toNat = 34 ∨ c.toNat = 92 then 2
    else if c.toNat = 8 ∨ c.toNat = 12 ∨ c.toNat = 10 ∨ c.toNat = 13 ∨ c.toNat = 9 then 2
    else if c.toNat < 32 then 6
    else if c.toNat < 0x80 then 1 else if c.toNat < 0x800 then 2 else if c.toNat < 0x10000 then 3
    else 4 := by
  unfold JsonTree.charBytes
  rw [utf8Size_eq]
  simp only [eq_iff_toNat]
  rfl

theorem charBytes_scalar {u : UInt16} (h : (isHigh u || isLow u) = false) :
    JsonTree.charBytes (scalar u) = unitBytes u := by
  have hu := u.toNat_lt
  rw [charBytes_eq, toNat_scalar h]
  unfold unitBytes
  rw [h]
  repeat' split
  all_goals first
    | rfl
    | omega
    | contradiction

theorem charBytes_pair {u v : UInt16} (h : (isHigh u && isLow v) = true) :
    JsonTree.charBytes (pair u v) = 4 := by
  rw [charBytes_eq, toNat_pair h]
  simp only [isHigh, isLow, Bool.and_eq_true, decide_eq_true_eq] at h
  repeat' split
  all_goals omega

/-- The two sides count the bytes of a well-formed string alike. -/
theorem unitsBytes_eq {s : List UInt16} {cs : List Char} (h : decode s = some cs) :
    unitsBytes s = (cs.map JsonTree.charBytes).sum := by
  induction s using decode.induct generalizing cs with
  | case1 =>
    obtain rfl := Option.some.inj h
    rfl
  | case2 u hlone =>
    simp only [decode, if_pos hlone] at h
    cases h
  | case3 u hscalar =>
    simp only [decode, if_neg hscalar] at h
    obtain rfl := Option.some.inj h
    simp [unitsBytes, charBytes_scalar (Bool.eq_false_iff.mpr hscalar)]
  | case4 u v rest hpair ih =>
    simp only [decode, if_pos hpair] at h
    obtain ⟨ds, hds, rfl⟩ := Option.map_eq_some_iff.mp h
    simp [unitsBytes, hpair, charBytes_pair hpair, ih hds]
  | case5 u v rest hpair hlone =>
    simp only [decode, if_neg hpair, if_pos hlone] at h
    cases h
  | case6 u v rest hpair hscalar ih =>
    simp only [decode, if_neg hpair, if_neg hscalar] at h
    obtain ⟨ds, hds, rfl⟩ := Option.map_eq_some_iff.mp h
    simp [unitsBytes, hpair, charBytes_scalar (Bool.eq_false_iff.mpr hscalar), ih hds]

theorem stringBytes_eq {s : List UInt16} {t : String} (h : read s = some t) :
    stringBytes s = JsonTree.stringBytes t := by
  obtain ⟨cs, hcs, rfl⟩ := Option.map_eq_some_iff.mp h
  unfold stringBytes JsonTree.stringBytes
  rw [unitsBytes_eq hcs, String.toList_ofList]

/-! ## Well-formed strings -/

theorem decode_scalar_cons {u : UInt16} (h : (isHigh u || isLow u) = false) (s : List UInt16) :
    decode (u :: s) = (decode s).map (scalar u :: ·) := by
  obtain ⟨hhigh, hlow⟩ := Bool.or_eq_false_iff.mp h
  cases s with
  | nil => simp [decode, hhigh, hlow]
  | cons v rest => simp [decode, hhigh, hlow]

theorem toNat_unit {n : Nat} (h : n < 0x10000) : (UInt16.ofNat n).toNat = n :=
  UInt16.toNat_ofNat_of_lt' h

theorem decode_encodeChar_append (c : Char) (s : List UInt16) :
    decode (encodeChar c ++ s) = (decode s).map (c :: ·) := by
  have hvalid : c.toNat < 0xD800 ∨ 0xDFFF < c.toNat ∧ c.toNat < 0x110000 := c.valid
  unfold encodeChar
  by_cases hsmall : c.toNat < 0x10000
  · rw [if_pos hsmall]
    have hunit := toNat_unit hsmall
    have hscalar : (isHigh (UInt16.ofNat c.toNat) || isLow (UInt16.ofNat c.toNat)) = false := by
      simp only [isHigh, isLow, Bool.or_eq_false_iff, decide_eq_false_iff_not, hunit]
      omega
    have hchar : scalar (UInt16.ofNat c.toNat) = c := by
      rw [eq_iff_toNat, toNat_scalar hscalar, hunit]
    rw [List.singleton_append, decode_scalar_cons hscalar, hchar]
  · rw [if_neg hsmall]
    have hmax : c.toNat < 0x110000 := by omega
    have hhigh := toNat_unit (n := 0xD800 + (c.toNat - 0x10000) / 0x400) (by omega)
    have hlow := toNat_unit (n := 0xDC00 + (c.toNat - 0x10000) % 0x400) (by omega)
    have hpair : (isHigh (UInt16.ofNat (0xD800 + (c.toNat - 0x10000) / 0x400)) &&
        isLow (UInt16.ofNat (0xDC00 + (c.toNat - 0x10000) % 0x400))) = true := by
      simp only [isHigh, isLow, Bool.and_eq_true, decide_eq_true_eq, hhigh, hlow]
      omega
    have hchar : pair (UInt16.ofNat (0xD800 + (c.toNat - 0x10000) / 0x400))
        (UInt16.ofNat (0xDC00 + (c.toNat - 0x10000) % 0x400)) = c := by
      rw [eq_iff_toNat, toNat_pair hpair, hhigh, hlow]
      omega
    simp only [List.cons_append, List.nil_append, decode, hpair, if_true, hchar]

/-- What a UTF-8 library made is read as it was. -/
theorem read_encode (s : String) : read (encode s) = some s := by
  have hdecode : ∀ cs : List Char, decode (cs.flatMap encodeChar) = some cs := by
    intro cs
    induction cs with
    | nil => rfl
    | cons c cs ih => rw [List.flatMap_cons, decode_encodeChar_append, ih, Option.map_some]
  unfold read encode
  rw [hdecode, Option.map_some, String.ofList_toList]

end Utf16

end Reasoning
