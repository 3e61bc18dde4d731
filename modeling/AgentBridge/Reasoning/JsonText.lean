import AgentBridge.Reasoning.JsonTree

/-!
# The compact text of a JSON value

The characters that a JSON library prints, and that they take as many bytes in UTF-8 as
`JsonTree.textBytes` counts.  What is nested in a value prints no longer than the value.
-/

namespace Reasoning

namespace JsonTree

variable {ν : Type}

/-! ## Printing -/

/-- A character of a string, escaped where JSON asks for it. -/
def charText (c : Char) : List Char :=
  if c = '"' ∨ c = '\\' then ['\\', c]
  else if c = '\x08' then ['\\', 'b']
  else if c = '\x0c' then ['\\', 'f']
  else if c = '\n' then ['\\', 'n']
  else if c = '\r' then ['\\', 'r']
  else if c = '\t' then ['\\', 't']
  else if c.toNat < 32 then
    ['\\', 'u', '0', '0', Nat.digitChar (c.toNat / 16), Nat.digitChar (c.toNat % 16)]
  else [c]

def stringText (s : String) : List Char := '"' :: s.toList.flatMap charText ++ ['"']

mutual

def text (numberText : ν → List Char) : JsonTree ν → List Char
  | .null => ['n', 'u', 'l', 'l']
  | .bool b => if b then ['t', 'r', 'u', 'e'] else ['f', 'a', 'l', 's', 'e']
  | .num n => numberText n
  | .str s => stringText s
  | .arr items => '[' :: itemsText numberText items ++ [']']
  | .obj members => '\x7b' :: membersText numberText members ++ ['\x7d']

def itemsText (numberText : ν → List Char) : List (JsonTree ν) → List Char
  | [] => []
  | [item] => item.text numberText
  | item :: items => item.text numberText ++ ',' :: itemsText numberText items

def membersText (numberText : ν → List Char) : List (String × JsonTree ν) → List Char
  | [] => []
  | [(key, item)] => stringText key ++ ':' :: item.text numberText
  | (key, item) :: members =>
      stringText key ++ ':' :: item.text numberText ++ ',' :: membersText numberText members

end

/-! ## Bytes of the text -/

def utf8Bytes (cs : List Char) : Nat := (cs.map Char.utf8Size).sum

@[simp] theorem utf8Bytes_nil : utf8Bytes [] = 0 := rfl

@[simp] theorem utf8Bytes_cons (c : Char) (cs : List Char) :
    utf8Bytes (c :: cs) = c.utf8Size + utf8Bytes cs := rfl

@[simp] theorem utf8Bytes_append (cs ds : List Char) :
    utf8Bytes (cs ++ ds) = utf8Bytes cs + utf8Bytes ds := by
  unfold utf8Bytes
  rw [List.map_append, List.sum_append]

theorem utf8ByteSize_ofList (cs : List Char) : (String.ofList cs).utf8ByteSize = utf8Bytes cs := by
  induction cs with
  | nil => rfl
  | cons c cs ih =>
    have hcons : String.ofList (c :: cs) = String.singleton c ++ String.ofList cs := by
      rw [String.singleton_eq_ofList, ← String.ofList_append]
      rfl
    rw [hcons, String.utf8ByteSize_append, String.utf8ByteSize_singleton, ih, utf8Bytes_cons]

theorem utf8Bytes_toList (s : String) : utf8Bytes s.toList = s.utf8ByteSize := by
  rw [← utf8ByteSize_ofList, String.ofList_toList]

theorem utf8Size_digitChar {n : Nat} (h : n < 16) : (Nat.digitChar n).utf8Size = 1 := by
  have hall : ∀ k : Fin 16, (Nat.digitChar k.val).utf8Size = 1 := by decide
  exact hall ⟨n, h⟩

theorem utf8Bytes_charText (c : Char) : utf8Bytes (charText c) = charBytes c := by
  unfold charText charBytes
  by_cases hquote : c = '"' ∨ c = '\\'
  · rw [if_pos hquote, if_pos hquote]
    rcases hquote with rfl | rfl
    · rfl
    · rfl
  rw [if_neg hquote, if_neg hquote]
  by_cases hescape : c = '\x08' ∨ c = '\x0c' ∨ c = '\n' ∨ c = '\r' ∨ c = '\t'
  · rw [if_pos hescape]
    rcases hescape with rfl | rfl | rfl | rfl | rfl
    all_goals decide
  rw [if_neg hescape]
  simp only [not_or] at hescape
  obtain ⟨hb, hf, hn, hr, ht⟩ := hescape
  rw [if_neg hb, if_neg hf, if_neg hn, if_neg hr, if_neg ht]
  by_cases hcontrol : c.toNat < 32
  · rw [if_pos hcontrol, if_pos hcontrol]
    have hhigh := utf8Size_digitChar (n := c.toNat / 16) (by omega)
    have hlow := utf8Size_digitChar (n := c.toNat % 16) (by omega)
    have hescaped : utf8Bytes ['\\', 'u', '0', '0'] = 4 := rfl
    show utf8Bytes (['\\', 'u', '0', '0'] ++ [_, _]) = 6
    rw [utf8Bytes_append, hescaped, utf8Bytes_cons, utf8Bytes_cons, hhigh, hlow, utf8Bytes_nil]
  · rw [if_neg hcontrol, if_neg hcontrol, utf8Bytes_cons, utf8Bytes_nil, Nat.add_zero]

theorem utf8Bytes_stringText (s : String) : utf8Bytes (stringText s) = stringBytes s := by
  have hchars : ∀ cs : List Char, utf8Bytes (cs.flatMap charText) = (cs.map charBytes).sum := by
    intro cs
    induction cs with
    | nil => rfl
    | cons c cs ih =>
      rw [List.flatMap_cons, utf8Bytes_append, utf8Bytes_charText, ih, List.map_cons, List.sum_cons]
  have hquote : '"'.utf8Size = 1 := rfl
  unfold stringText stringBytes
  rw [utf8Bytes_append, utf8Bytes_cons, hchars, utf8Bytes_cons, utf8Bytes_nil, hquote]
  omega

section Numbers

variable {numberText : ν → List Char} {numberBytes : ν → Nat}

mutual

/-- The text takes the bytes counted. -/
theorem utf8Bytes_text (hnumbers : ∀ n, utf8Bytes (numberText n) = numberBytes n) :
    ∀ value : JsonTree ν,
    utf8Bytes (value.text numberText) = value.textBytes numberBytes
  | .null => rfl
  | .bool true => rfl
  | .bool false => rfl
  | .num n => hnumbers n
  | .str s => utf8Bytes_stringText s
  | .arr items => by
      have hopen : '['.utf8Size = 1 := rfl
      have hclose : ']'.utf8Size = 1 := rfl
      have hitems := utf8Bytes_itemsText hnumbers items
      rw [text, textBytes, utf8Bytes_append, utf8Bytes_cons, utf8Bytes_cons, utf8Bytes_nil, hitems]
      omega
  | .obj members => by
      have hopen : '\x7b'.utf8Size = 1 := rfl
      have hclose : '\x7d'.utf8Size = 1 := rfl
      have hmembers := utf8Bytes_membersText hnumbers members
      rw [text, textBytes, utf8Bytes_append, utf8Bytes_cons, utf8Bytes_cons, utf8Bytes_nil,
        hmembers]
      omega

theorem utf8Bytes_itemsText (hnumbers : ∀ n, utf8Bytes (numberText n) = numberBytes n) :
    ∀ items : List (JsonTree ν),
    utf8Bytes (itemsText numberText items) = itemsBytes numberBytes items
  | [] => rfl
  | [item] => utf8Bytes_text hnumbers item
  | item :: next :: items => by
      have hcomma : ','.utf8Size = 1 := rfl
      have hitem := utf8Bytes_text hnumbers item
      have hitems := utf8Bytes_itemsText hnumbers (next :: items)
      rw [itemsText, itemsBytes, utf8Bytes_append, utf8Bytes_cons, hitem, hitems]
      · omega
      · simp
      · simp

theorem utf8Bytes_membersText
    (hnumbers : ∀ n, utf8Bytes (numberText n) = numberBytes n) : ∀ members : List (String × JsonTree ν),
    utf8Bytes (membersText numberText members) = membersBytes numberBytes members
  | [] => rfl
  | [(key, item)] => by
      have hcolon : ':'.utf8Size = 1 := rfl
      have hitem := utf8Bytes_text hnumbers item
      rw [membersText, membersBytes, utf8Bytes_append, utf8Bytes_cons, utf8Bytes_stringText, hitem]
      omega
  | (key, item) :: next :: members => by
      have hcolon : ':'.utf8Size = 1 := rfl
      have hcomma : ','.utf8Size = 1 := rfl
      have hitem := utf8Bytes_text hnumbers item
      have hmembers := utf8Bytes_membersText hnumbers (next :: members)
      rw [membersText, membersBytes, utf8Bytes_append, utf8Bytes_append, utf8Bytes_cons,
        utf8Bytes_cons, utf8Bytes_stringText, hitem, hmembers]
      · omega
      · simp
      · simp

end

end Numbers

/-! ## What is nested prints no longer -/

theorem utf8Size_of_ascii {c : Char} (h : c.toNat < 128) : c.utf8Size = 1 := by
  have hval : c.val ≤ 0x7f := by
    rw [UInt32.le_iff_toNat_le]
    have : c.val.toNat < 128 := h
    show c.val.toNat ≤ 127
    omega
  unfold Char.utf8Size
  simp [hval]

theorem utf8Size_le_charBytes (c : Char) : c.utf8Size ≤ charBytes c := by
  unfold charBytes
  by_cases hquote : c = '"' ∨ c = '\\'
  · rw [if_pos hquote]
    rcases hquote with rfl | rfl
    all_goals decide
  rw [if_neg hquote]
  by_cases hescape : c = '\x08' ∨ c = '\x0c' ∨ c = '\n' ∨ c = '\r' ∨ c = '\t'
  · rw [if_pos hescape]
    rcases hescape with rfl | rfl | rfl | rfl | rfl
    all_goals decide
  rw [if_neg hescape]
  by_cases hcontrol : c.toNat < 32
  · rw [if_pos hcontrol, utf8Size_of_ascii (by omega)]
    omega
  · exact Nat.le_of_eq (if_neg hcontrol).symm

theorem utf8ByteSize_le_stringBytes (s : String) : s.utf8ByteSize + 2 ≤ stringBytes s := by
  have hchars : ∀ cs : List Char, utf8Bytes cs ≤ (cs.map charBytes).sum := by
    intro cs
    induction cs with
    | nil => exact Nat.le_refl 0
    | cons c cs ih =>
      have hc := utf8Size_le_charBytes c
      rw [utf8Bytes_cons, List.map_cons, List.sum_cons]
      omega
  have hs := hchars s.toList
  rw [utf8Bytes_toList] at hs
  unfold stringBytes
  omega

/-- All items together. -/
theorem sum_textBytes_le (numberBytes : ν → Nat) (items : List (JsonTree ν)) :
    (items.map (textBytes numberBytes)).sum ≤ itemsBytes numberBytes items := by
  induction items with
  | nil => exact Nat.le_refl 0
  | cons item items ih =>
    cases items with
    | nil => simp [itemsBytes]
    | cons next items =>
      rw [itemsBytes, List.map_cons, List.sum_cons]
      · omega
      · simp

theorem textBytes_le_of_mem_members {numberBytes : ν → Nat} {key : String} {item : JsonTree ν}
    {members : List (String × JsonTree ν)} (h : (key, item) ∈ members) :
    item.textBytes numberBytes ≤ membersBytes numberBytes members := by
  induction members with
  | nil => cases h
  | cons member members ih =>
    obtain ⟨k, v⟩ := member
    cases members with
    | nil =>
      obtain ⟨rfl, rfl⟩ := Prod.mk.inj (List.mem_singleton.mp h)
      simp only [membersBytes]
      omega
    | cons next members =>
      rw [membersBytes]
      · rcases List.mem_cons.mp h with heq | h
        · obtain ⟨rfl, rfl⟩ := Prod.mk.inj heq
          omega
        · have := ih h
          omega
      · simp

end JsonTree

end Reasoning
