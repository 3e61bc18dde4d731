import AgentBridge.Client.Reader
import AgentBridge.Reasoning.Utf8Stream

/-!
# The client reads frames, not chunks

However the stream of the host is cut, the client dispatches its frames one by one, unless a chunk
brings the text that waits for its newline above the limit of the buffer: the limit counts the
frames of the chunk that are complete, too.
-/

namespace AgentBridge

open Reasoning

namespace Client

namespace Reader

/-! ## The lines of the buffer -/

section Loop

variable {S : Type} (receive : List UInt16 → Prog String S Unit)

/-- The lines dispatched one after the other. -/
def dispatchAll (lines : List (List UInt16)) : Prog ReadError S Unit :=
  lines.forM fun line => asFrame (receive line)

variable {receive}

/-- The end of the loop, with what is left in the buffer. -/
def endOfStream (buffer : List UInt16) : Prog ReadError S Unit :=
  if buffer.all isSpace then pure () else throw .truncated

theorem dispatchAll_append (lines more : List (List UInt16)) :
    dispatchAll receive (lines ++ more) =
      dispatchAll receive lines >>= fun _ => dispatchAll receive more := by
  induction lines with
  | nil => rfl
  | cons line lines ih =>
    show (asFrame (receive line) >>= fun _ => dispatchAll receive (lines ++ more)) =
      (asFrame (receive line) >>= fun _ => dispatchAll receive lines) >>= _
    rw [ih, bind_assoc]

theorem drain_eq (buffer : List UInt16) : drain receive buffer =
    dispatchAll receive (Lines.complete newline buffer) >>= fun _ =>
      pure (Lines.rest newline buffer) := by
  induction h : buffer.length using Nat.strongRecOn generalizing buffer with
  | _ n ih =>
    rw [drain]
    split
    · next hnone =>
      have hsplit := Lines.split_of_not_mem (Lines.first_eq_none.mp hnone)
      unfold Lines.complete Lines.rest
      rw [hsplit]
      rfl
    · next line after hsome =>
      have hshorter := Lines.length_first hsome
      rw [ih after.length (h ▸ hshorter) after rfl, Lines.complete_first hsome,
        Lines.rest_first hsome]
      show _ = (asFrame (receive line) >>= fun _ => dispatchAll receive _) >>= _
      rw [bind_assoc]

/-- A dispatch fails only over its frame. -/
theorem asFrame_error {x : Prog String S Unit} {s t : S} {e : ReadError}
    (h : (asFrame x).exec s = (.error e, t)) : ∃ message, e = .frame message := by
  rcases hx : x.exec s with ⟨message | a, t'⟩
  · rw [asFrame, Prog.exec_call, hx] at h
    exact ⟨message, (Except.error.inj (congrArg Prod.fst h)).symm⟩
  · rw [asFrame, Prog.exec_call, hx] at h
    cases congrArg Prod.fst h

theorem dispatchAll_error {lines : List (List UInt16)} {s t : S} {e : ReadError}
    (h : (dispatchAll receive lines).exec s = (.error e, t)) : ∃ message, e = .frame message := by
  induction lines generalizing s with
  | nil => cases congrArg Prod.fst h
  | cons line lines ih =>
    have h : (asFrame (receive line) >>= fun _ => dispatchAll receive lines).exec s =
      (.error e, t) := h
    rcases hline : (asFrame (receive line)).exec s with ⟨e' | a, t'⟩
    · rw [Prog.exec_bind_error hline] at h
      obtain ⟨message, rfl⟩ := asFrame_error hline
      exact ⟨message, (Except.error.inj (congrArg Prod.fst h)).symm⟩
    · rw [Prog.exec_bind_ok hline] at h
      exact ih h

/-! ## The loop over decoded chunks -/

variable (receive)

/-- The loop of `read` on what the decoder makes of the chunks. -/
def readPieces : List (List UInt16) → List UInt16 → Prog ReadError S Unit
  | [], buffer => endOfStream buffer
  | piece :: pieces, buffer =>
      if (buffer ++ piece).length > bufferLimit then throw .oversized
      else do
        let buffer ← drain receive (buffer ++ piece)
        readPieces pieces buffer

def TextDecoder.pieces (decoder : TextDecoder) :
    List (List UInt8) → decoder.State → Except String (List (List UInt16))
  | [], _ => .ok []
  | chunk :: chunks, state => do
      let (piece, state) ← decoder.decode state chunk
      .ok (piece :: (← decoder.pieces chunks state))

/-- Every chunk that is reached fits: what waits for its newline and what the chunk adds to it. -/
def Fits (pieces : List (List UInt16)) (s : S) : Prop :=
  ∀ (k : Nat) piece, pieces[k]? = some piece →
    (∃ t, (dispatchAll receive (Lines.complete newline (pieces.take k).flatten)).exec s =
      (.ok (), t)) →
    (Lines.rest newline (pieces.take k).flatten ++ piece).length ≤ bufferLimit

/-- A stream within the limit fits however it is cut. -/
theorem fits_of_length {pieces : List (List UInt16)} (h : pieces.flatten.length ≤ bufferLimit)
    (s : S) : Fits receive pieces s := by
  intro k piece hpiece _
  obtain ⟨hlt, rfl⟩ := List.getElem?_eq_some_iff.mp hpiece
  have hsplit : pieces = pieces.take k ++ pieces[k] :: pieces.drop (k + 1) := by
    rw [← List.drop_eq_getElem_cons hlt, List.take_append_drop]
  have hlen := congrArg (fun l => l.flatten.length) hsplit
  have hrest : (Lines.rest newline (pieces.take k).flatten).length ≤
      (pieces.take k).flatten.length :=
    Lines.length_rest_le _
  simp only [List.flatten_append, List.flatten_cons, List.length_append] at hlen
  rw [List.length_append]
  omega

/-- The same from the middle of the stream, with the text that waits. -/
def FitsFrom (pieces : List (List UInt16)) (buffer : List UInt16) (s : S) : Prop :=
  ∀ (k : Nat) piece, pieces[k]? = some piece →
    (∃ t, (dispatchAll receive
      (Lines.complete newline (buffer ++ (pieces.take k).flatten))).exec s = (.ok (), t)) →
    (Lines.rest newline (buffer ++ (pieces.take k).flatten) ++ piece).length ≤ bufferLimit

variable {receive}

theorem readLoop_eq {decoder : TextDecoder} {chunks : List (List UInt8)} {state : decoder.State}
    {pieces : List (List UInt16)} (h : decoder.pieces chunks state = .ok pieces)
    (buffer : List UInt16) :
    readLoop receive decoder chunks buffer state = readPieces receive pieces buffer := by
  induction chunks generalizing state pieces buffer with
  | nil =>
    obtain rfl := Except.ok.inj h
    rfl
  | cons chunk chunks ih =>
    obtain ⟨⟨piece, state'⟩, hdecode, h⟩ := bind_eq_ok.mp h
    obtain ⟨more, hmore, h⟩ := bind_eq_ok.mp h
    obtain rfl := Except.ok.inj h
    simp only [readLoop, hdecode, readPieces]
    split
    · rfl
    · refine congrArg _ (funext fun buffer => ?_)
      exact ih hmore buffer

theorem fitsFrom_cons {piece : List UInt16} {pieces : List (List UInt16)} {buffer : List UInt16}
    {s : S} (hfits : (buffer ++ piece).length ≤ bufferLimit) (hbuffer : newline ∉ buffer) :
    FitsFrom receive (piece :: pieces) buffer s ↔
      ∀ t, (dispatchAll receive (Lines.complete newline (buffer ++ piece))).exec s = (.ok (), t) →
        FitsFrom receive pieces (Lines.rest newline (buffer ++ piece)) t := by
  have hcomplete : ∀ more, Lines.complete newline (buffer ++ (piece ++ more)) =
      Lines.complete newline (buffer ++ piece) ++
        Lines.complete newline (Lines.rest newline (buffer ++ piece) ++ more) := by
    intro more
    rw [← List.append_assoc, Lines.complete_append]
  have hrest : ∀ more, Lines.rest newline (buffer ++ (piece ++ more)) =
      Lines.rest newline (Lines.rest newline (buffer ++ piece) ++ more) := by
    intro more
    rw [← List.append_assoc, Lines.rest_append]
  constructor
  · intro h t ht k next hnext hreached
    have hk := h (k + 1) next (by simpa using hnext)
    simp only [List.take_succ_cons, List.flatten_cons, hcomplete, hrest, dispatchAll_append] at hk
    refine hk ?_
    rw [Prog.exec_bind_ok ht]
    exact hreached
  · intro h k next hnext hreached
    cases k with
    | zero =>
      obtain rfl : piece = next := by simpa using hnext
      have hwaiting : Lines.rest newline (buffer ++ ([] : List UInt16)) = buffer := by
        rw [List.append_nil]
        exact congrArg Prod.snd (Lines.split_of_not_mem hbuffer)
      simpa only [List.take_zero, List.flatten_nil, hwaiting] using hfits
    | succ k =>
      simp only [List.take_succ_cons, List.flatten_cons, hcomplete, hrest, dispatchAll_append]
        at hreached ⊢
      obtain ⟨u, hu⟩ := hreached
      rcases ht : (dispatchAll receive (Lines.complete newline (buffer ++ piece))).exec s with
        ⟨e | a, t⟩
      · rw [Prog.exec_bind_error ht] at hu
        cases congrArg Prod.fst hu
      · rw [Prog.exec_bind_ok ht] at hu
        exact h t ht k next (by simpa using hnext) ⟨u, hu⟩

/-- The lines that are complete, then the end of the stream, fail over a frame or over the end. -/
theorem error_ne_oversized {lines : List (List UInt16)} {left : List UInt16} {s t : S}
    {e : ReadError}
    (h : (dispatchAll receive lines >>= fun _ => endOfStream left).exec s = (.error e, t)) :
    e ≠ .oversized := by
  rcases hlines : (dispatchAll receive lines).exec s with ⟨e' | a, t'⟩
  · rw [Prog.exec_bind_error hlines] at h
    obtain ⟨message, rfl⟩ := dispatchAll_error hlines
    rw [← Except.error.inj (congrArg Prod.fst h)]
    exact nofun
  · rw [Prog.exec_bind_ok hlines] at h
    unfold endOfStream at h
    split at h
    · cases congrArg Prod.fst h
    · rw [← Except.error.inj (congrArg Prod.fst h)]
      exact nofun

/-- The loop dispatches the complete lines exactly when every chunk that is reached fits. -/
theorem readPieces_eq_iff (pieces : List (List UInt16)) {buffer : List UInt16} {s : S}
    (hbuffer : newline ∉ buffer) :
    (readPieces receive pieces buffer).exec s =
        (dispatchAll receive (Lines.complete newline (buffer ++ pieces.flatten)) >>= fun _ =>
          endOfStream (Lines.rest newline (buffer ++ pieces.flatten))).exec s ↔
      FitsFrom receive pieces buffer s := by
  have hsplit := Lines.split_of_not_mem hbuffer
  induction pieces generalizing buffer s with
  | nil =>
    have hcomplete : Lines.complete newline (buffer ++ []) = [] := by
      rw [List.append_nil]
      exact congrArg Prod.fst hsplit
    have hrest : Lines.rest newline (buffer ++ []) = buffer := by
      rw [List.append_nil]
      exact congrArg Prod.snd hsplit
    rw [List.flatten_nil, hcomplete, hrest]
    refine iff_of_true rfl ?_
    intro k piece hpiece
    cases hpiece
  | cons piece pieces ih =>
    by_cases hfits : (buffer ++ piece).length ≤ bufferLimit
    · have hall : (dispatchAll receive
          (Lines.complete newline (buffer ++ (piece :: pieces).flatten)) >>= fun _ =>
            endOfStream (Lines.rest newline (buffer ++ (piece :: pieces).flatten))) =
          dispatchAll receive (Lines.complete newline (buffer ++ piece)) >>= fun _ =>
            dispatchAll receive (Lines.complete newline
              (Lines.rest newline (buffer ++ piece) ++ pieces.flatten)) >>= fun _ =>
                endOfStream (Lines.rest newline
                  (Lines.rest newline (buffer ++ piece) ++ pieces.flatten)) := by
        rw [List.flatten_cons, ← List.append_assoc, Lines.complete_append (buffer ++ piece),
          Lines.rest_append (buffer ++ piece), dispatchAll_append, bind_assoc]
      rw [fitsFrom_cons hfits hbuffer, readPieces, if_neg (by omega), drain_eq, bind_assoc, hall]
      rcases ht : (dispatchAll receive (Lines.complete newline (buffer ++ piece))).exec s with
        ⟨e | a, t⟩
      · rw [Prog.exec_bind_error ht, Prog.exec_bind_error ht]
        refine iff_of_true rfl ?_
        intro t' ht'
        cases congrArg Prod.fst ht'
      · rw [Prog.exec_bind_ok ht, Prog.exec_bind_ok ht]
        have hnone : newline ∉ Lines.rest newline (buffer ++ piece) := Lines.not_mem_rest _
        show (readPieces receive pieces _).exec t = _ ↔ _
        refine (ih hnone (Lines.split_of_not_mem hnone)).trans ?_
        constructor
        · intro h t' ht'
          obtain rfl := congrArg Prod.snd ht'
          exact h
        · exact fun h => h t rfl
    · rw [readPieces, if_pos (by omega)]
      refine iff_of_false ?_ ?_
      · exact fun heq => error_ne_oversized heq.symm rfl
      · intro h
        have hzero := h 0 piece rfl
        simp only [List.take_zero, List.flatten_nil, List.append_nil] at hzero
        unfold Lines.complete Lines.rest at hzero
        rw [hsplit] at hzero
        exact hfits (hzero ⟨s, rfl⟩)

end Loop

/-! ## The decoder of the engine -/

def units (text : List Char) : List UInt16 := text.flatMap Utf16.encodeChar

def byteOrderMark : Char := Char.ofNat 0xFEFF

/-- The characters without the mark that a stream may start with. -/
def dropMark (started : Bool) : List Char → List Char
  | c :: cs => if !started && c = byteOrderMark then cs else c :: cs
  | [] => []

/-- `new TextDecoder("utf-8", { fatal: true })`, fed with `stream: true`; its state says whether a
character was decoded, and which bytes wait. -/
def textDecoder : TextDecoder where
  State := Bool × List UInt8
  start := (false, [])
  decode state chunk := do
    let (cs, left) ← Utf8Stream.pull (state.2 ++ chunk)
    .ok (units (dropMark state.1 cs), (state.1 || !cs.isEmpty, left))

theorem dropMark_eq {started : Bool} {cs : List Char}
    (h : started = false → cs.head? ≠ some byteOrderMark) : dropMark started cs = cs := by
  cases cs with
  | nil => rfl
  | cons c cs =>
    show (if _ then cs else c :: cs) = _
    rw [if_neg]
    simp only [Bool.and_eq_true, Bool.not_eq_true', decide_eq_true_eq, not_and]
    intro hstarted hc
    exact h hstarted (by rw [hc]; rfl)

theorem textDecoder_pieces {chunks : List (List UInt8)} {started : Bool} {waiting : List UInt8}
    {parts : List (List Char)} (h : Utf8Stream.pullAll chunks waiting = .ok parts)
    (hmark : started = false → parts.flatten.head? ≠ some byteOrderMark) :
    textDecoder.pieces chunks (started, waiting) = .ok (parts.map units) := by
  induction chunks generalizing started waiting parts with
  | nil =>
    obtain rfl := Except.ok.inj h
    rfl
  | cons chunk chunks ih =>
    obtain ⟨⟨cs, left⟩, hpull, h⟩ := bind_eq_ok.mp h
    obtain ⟨more, hmore, h⟩ := bind_eq_ok.mp h
    obtain rfl := Except.ok.inj h
    have hdrop : dropMark started cs = cs := by
      refine dropMark_eq fun hstarted hhead => hmark hstarted ?_
      cases cs with
      | nil => cases hhead
      | cons c cs => exact hhead
    have hlater : (started || !cs.isEmpty) = false → more.flatten.head? ≠ some byteOrderMark := by
      intro hstarted hhead
      obtain ⟨hfalse, hempty⟩ := Bool.or_eq_false_iff.mp hstarted
      obtain rfl : cs = [] := by simpa using hempty
      exact hmark hfalse hhead
    have hnext := ih hmore hlater
    have hdecode : textDecoder.decode (started, waiting) chunk =
        .ok (units cs, (started || !cs.isEmpty, left)) := by
      show (Utf8Stream.pull (waiting ++ chunk) >>= _) = _
      rw [hpull, ok_bind]
      simp only [hdrop]
      rfl
    show (textDecoder.decode (started, waiting) chunk >>= _) = _
    rw [hdecode, ok_bind]
    simp only [hnext, ok_bind, List.map_cons]

theorem units_append (text more : List Char) : units (text ++ more) = units text ++ units more :=
  List.flatMap_append

theorem units_flatten (parts : List (List Char)) :
    (parts.map units).flatten = units parts.flatten := by
  induction parts with
  | nil => rfl
  | cons part parts ih =>
    rw [List.map_cons, List.flatten_cons, ih, List.flatten_cons]
    exact List.flatMap_append.symm

theorem mem_encodeChar_newline {c : Char} (h : newline ∈ Utf16.encodeChar c) : c = '\n' := by
  have hvalid : c.toNat < 0xD800 ∨ 0xDFFF < c.toNat ∧ c.toNat < 0x110000 := c.valid
  rw [Utf16.eq_iff_toNat]
  unfold Utf16.encodeChar at h
  have hten : (10 : UInt16).toNat = 10 := rfl
  split at h
  · next hsmall =>
    have hc := congrArg UInt16.toNat (List.mem_singleton.mp h)
    rw [Utf16.toNat_unit hsmall] at hc
    exact hc.symm
  · next hlarge =>
    have hrange : c.toNat < 0x110000 := by omega
    rcases List.mem_cons.mp h with hhigh | hlow
    · have hc := congrArg UInt16.toNat hhigh
      rw [Utf16.toNat_unit (by omega)] at hc
      have : newline.toNat = 10 := rfl
      omega
    · have hc := congrArg UInt16.toNat (List.mem_singleton.mp hlow)
      rw [Utf16.toNat_unit (by omega)] at hc
      have : newline.toNat = 10 := rfl
      omega

theorem newline_not_mem_units {text : List Char} (h : '\n' ∉ text) : newline ∉ units text := by
  intro hmem
  obtain ⟨c, hc, hin⟩ := List.mem_flatMap.mp hmem
  rw [mem_encodeChar_newline hin] at hc
  exact h hc

/-! ## The stream of the host -/

variable {ν : Type}

/-- Numbers print as ASCII characters on one line. -/
def PlainNumbers (numberText : ν → List Char) : Prop :=
  ∀ n, ∀ c ∈ numberText n, c.toNat < 128 ∧ c ≠ '\n'

theorem frameLines_eq_ok {numberText : ν → List Char} {frames : List (JsonTree ν)}
    {text : List Char} (h : Host.frameLines numberText frames = .ok text) :
    text = (frames.map (JsonTree.text numberText)).flatMap (· ++ ['\n']) := by
  induction frames generalizing text with
  | nil => exact (Except.ok.inj h).symm
  | cons value frames ih =>
    simp only [Host.frameLines] at h
    split at h
    · cases h
    · obtain ⟨more, hmore, h⟩ := bind_eq_ok.mp h
      rw [← Except.ok.inj h, ih hmore, List.map_cons, List.flatMap_cons, List.append_assoc]
      rfl

theorem newline_not_mem_charText (c : Char) : '\n' ∉ JsonTree.charText c := by
  unfold JsonTree.charText
  have hdigits : ∀ k : Fin 16, Nat.digitChar k.val ≠ '\n' := by decide
  by_cases hquote : c = '"' ∨ c = '\\'
  · rw [if_pos hquote]
    rcases hquote with rfl | rfl
    · decide
    · decide
  rw [if_neg hquote]
  split
  · decide
  split
  · decide
  split
  · decide
  split
  · decide
  split
  · decide
  next hnewline _ _ =>
  split
  · next hcontrol =>
    have hhigh := hdigits ⟨c.toNat / 16, by omega⟩
    have hlow := hdigits ⟨c.toNat % 16, by omega⟩
    simp only [List.mem_cons, List.not_mem_nil, or_false, not_or]
    exact ⟨by decide, by decide, by decide, by decide, hhigh.symm, hlow.symm⟩
  · exact fun h => hnewline (List.mem_singleton.mp h).symm

theorem newline_not_mem_stringText (t : String) : '\n' ∉ JsonTree.stringText t := by
  intro h
  unfold JsonTree.stringText at h
  rcases List.mem_cons.mp h with h | h
  · exact absurd h (by decide)
  · rcases List.mem_append.mp h with h | h
    · obtain ⟨c, -, hc⟩ := List.mem_flatMap.mp h
      exact newline_not_mem_charText c hc
    · exact absurd (List.mem_singleton.mp h) (by decide)

mutual

/-- The text of a value is one line. -/
theorem newline_not_mem_text {numberText : ν → List Char} (h : PlainNumbers numberText) :
    ∀ value : JsonTree ν, '\n' ∉ value.text numberText
  | .null => show '\n' ∉ ['n', 'u', 'l', 'l'] by decide
  | .bool true => show '\n' ∉ ['t', 'r', 'u', 'e'] by decide
  | .bool false => show '\n' ∉ ['f', 'a', 'l', 's', 'e'] by decide
  | .num n => fun hmem => (h n _ hmem).2 rfl
  | .str t => newline_not_mem_stringText t
  | .arr items => by
      have hitems := newline_not_mem_itemsText h items
      simp only [JsonTree.text, List.mem_append, List.mem_cons, List.not_mem_nil, or_false, not_or]
      exact ⟨⟨by decide, hitems⟩, by decide⟩
  | .obj members => by
      have hmembers := newline_not_mem_membersText h members
      simp only [JsonTree.text, List.mem_append, List.mem_cons, List.not_mem_nil, or_false, not_or]
      exact ⟨⟨by decide, hmembers⟩, by decide⟩

theorem newline_not_mem_itemsText {numberText : ν → List Char} (h : PlainNumbers numberText) :
    ∀ items : List (JsonTree ν), '\n' ∉ JsonTree.itemsText numberText items
  | [] => by simp [JsonTree.itemsText]
  | [item] => newline_not_mem_text h item
  | item :: next :: items => by
      have hitem := newline_not_mem_text h item
      have hitems := newline_not_mem_itemsText h (next :: items)
      rw [JsonTree.itemsText]
      · simp only [List.mem_append, List.mem_cons, not_or]
        exact ⟨hitem, by decide, hitems⟩
      · simp

theorem newline_not_mem_membersText {numberText : ν → List Char} (h : PlainNumbers numberText) :
    ∀ members : List (String × JsonTree ν), '\n' ∉ JsonTree.membersText numberText members
  | [] => by simp [JsonTree.membersText]
  | [(key, item)] => by
      have hkey := newline_not_mem_stringText key
      have hitem := newline_not_mem_text h item
      simp only [JsonTree.membersText, List.mem_append, List.mem_cons, not_or]
      exact ⟨hkey, by decide, hitem⟩
  | (key, item) :: next :: members => by
      have hkey := newline_not_mem_stringText key
      have hitem := newline_not_mem_text h item
      have hmembers := newline_not_mem_membersText h (next :: members)
      rw [JsonTree.membersText]
      · simp only [List.mem_append, List.mem_cons, not_or]
        exact ⟨⟨hkey, by decide, hitem⟩, by decide, hmembers⟩
      · simp

end

/-- The text of a value starts with an ASCII character. -/
theorem first_text {numberText : ν → List Char} (h : PlainNumbers numberText)
    {value : JsonTree ν} {c : Char} {rest : List Char}
    (htext : value.text numberText = c :: rest) : c.toNat < 128 := by
  have hhead : (value.text numberText).head? = some c := by rw [htext, List.head?_cons]
  cases value with
  | bool b =>
    cases b with
    | true => exact Option.some.inj hhead ▸ (by decide)
    | false => exact Option.some.inj hhead ▸ (by decide)
  | num n => exact (h n c (List.mem_of_head? hhead)).1
  | null => exact Option.some.inj hhead ▸ (by decide)
  | str t => exact Option.some.inj hhead ▸ (by decide)
  | arr items => exact Option.some.inj hhead ▸ (by decide)
  | obj members => exact Option.some.inj hhead ▸ (by decide)

theorem head_text {numberText : ν → List Char} (h : PlainNumbers numberText)
    (value : JsonTree ν) : (value.text numberText).head? ≠ some byteOrderMark := by
  intro hhead
  obtain ⟨rest, htext⟩ := List.head?_eq_some_iff.mp hhead
  exact absurd (first_text h htext) (by decide)

/-- No stream of frames starts with the mark that a decoder drops. -/
theorem head_stream {numberText : ν → List Char} (h : PlainNumbers numberText)
    (frames : List (JsonTree ν)) {last : JsonTree ν} {tail : List Char}
    (htail : tail <+: last.text numberText) :
    ((frames.map (JsonTree.text numberText)).flatMap (· ++ ['\n']) ++ tail).head? ≠
      some byteOrderMark := by
  cases frames with
  | nil =>
    intro hhead
    obtain ⟨more, hmore⟩ := htail
    refine head_text h last ?_
    rw [← hmore, List.head?_append]
    have hhead : tail.head? = some byteOrderMark := hhead
    rw [hhead]
    rfl
  | cons value frames =>
    have hvalue := head_text h value
    rw [List.map_cons, List.flatMap_cons]
    cases htext : value.text numberText with
    | nil => exact fun h => absurd (Option.some.inj h) (by decide)
    | cons c cs =>
      rw [htext] at hvalue
      exact hvalue

/-- The line of a frame, as the decoder yields it. -/
def line (numberText : ν → List Char) (frame : JsonTree ν) : List UInt16 :=
  units (frame.text numberText)

theorem units_lines (texts : List (List Char)) :
    units (texts.flatMap (· ++ ['\n'])) = (texts.map units).flatMap (· ++ [newline]) := by
  induction texts with
  | nil => rfl
  | cons text texts ih =>
    rw [List.flatMap_cons, List.map_cons, List.flatMap_cons, ← ih]
    unfold units
    rw [List.flatMap_append, List.flatMap_append]
    rfl

/-- What the client makes of the chunks of a stream: each frame dispatched once and in order, and at
the end an error exactly when the stream breaks off in the middle of a frame, be it inside a
character.  It does so exactly when every chunk that it reaches fits the buffer. -/
theorem frames_are_read_iff_chunks_fit {S : Type} {numberText : ν → List Char}
    (hnumbers : PlainNumbers numberText) (receive : List UInt16 → Prog String S Unit)
    {frames : List (JsonTree ν)} {text : List Char}
    (hframes : Host.frameLines numberText frames = .ok text) {last : JsonTree ν}
    {cut : List UInt8} (hcut : cut <+: Utf8Stream.encode (last.text numberText))
    {chunks : List (List UInt8)} (hchunks : chunks.flatten = Utf8Stream.encode text ++ cut) :
    ∃ tail rest left pieces, last.text numberText = tail ++ rest ∧
      cut = Utf8Stream.encode tail ++ left ∧ Utf8Stream.Short left rest ∧ (cut ≠ [] → tail ≠ []) ∧
      textDecoder.pieces chunks textDecoder.start = .ok pieces ∧
      pieces.flatten = units (text ++ tail) ∧
      ∀ s, (read receive textDecoder chunks).exec s =
          (dispatchAll receive (frames.map (line numberText)) >>= fun _ =>
            endOfStream (units tail)).exec s ↔
        Fits receive pieces s := by
  obtain ⟨more, hmore⟩ := hcut
  have hwhole : [] ++ chunks.flatten ++ more = Utf8Stream.encode (text ++ last.text numberText) := by
    rw [List.nil_append, hchunks, List.append_assoc, hmore, Utf8Stream.encode_append]
  obtain ⟨parts, rest, left, hparts, hsplits, hbytes, hshort⟩ :=
    Utf8Stream.pullAll_prefix chunks hwhole (Utf8Stream.short_nil _)
  rw [List.nil_append, hchunks] at hbytes
  obtain ⟨tail, hflatten⟩ := Utf8Stream.prefix_of_encode hsplits hbytes hshort
  have hlast : last.text numberText = tail ++ rest := by
    rw [← hflatten, List.append_assoc] at hsplits
    exact List.append_cancel_left hsplits
  have hcut : cut = Utf8Stream.encode tail ++ left := by
    rw [← hflatten, Utf8Stream.encode_append, List.append_assoc] at hbytes
    exact List.append_cancel_left hbytes
  have htail : tail <+: last.text numberText := ⟨rest, hlast.symm⟩
  have hsome : cut ≠ [] → tail ≠ [] := by
    rintro hne rfl
    rw [List.nil_append] at hlast
    cases rest with
    | nil =>
      rw [hlast] at hmore
      exact hne (List.append_eq_nil_iff.mp hmore).1
    | cons c rest =>
      have hfirst : c.utf8Size = 1 :=
        Char.utf8Size_eq_one_iff.mpr (UInt32.le_iff_toNat_le.mpr (by
          have hascii : c.val.toNat < 128 := first_text hnumbers hlast
          have hmax : (127 : UInt32).toNat = 127 := rfl
          omega))
      have hlen := hshort c rest rfl
      rw [hfirst, Nat.lt_one_iff] at hlen
      rw [hcut, List.length_eq_zero_iff.mp hlen] at hne
      exact hne rfl
  refine ⟨tail, rest, left, parts.map units, hlast, hcut, hshort, hsome, ?_⟩
  have hflatten := hflatten.symm
  have htext := frameLines_eq_ok hframes
  have hmark : parts.flatten.head? ≠ some byteOrderMark := by
    rw [hflatten, htext]
    exact head_stream hnumbers frames htail
  have hpieces := textDecoder_pieces hparts fun (_ : false = false) => hmark
  have hunits : (parts.map units).flatten = units (text ++ tail) := by
    rw [units_flatten, hflatten]
  refine ⟨hpieces, hunits, fun s => ?_⟩
  have hlines : ∀ l ∈ frames.map (line numberText), newline ∉ l := by
    intro l hl
    obtain ⟨frame, -, rfl⟩ := List.mem_map.mp hl
    exact newline_not_mem_units (newline_not_mem_text hnumbers frame)
  have htailUnits : newline ∉ units tail := by
    refine newline_not_mem_units fun hmem => ?_
    exact newline_not_mem_text hnumbers last (htail.subset hmem)
  have hsplit : Lines.split newline (units (text ++ tail)) =
      (frames.map (line numberText), units tail) := by
    have hstream : units (text ++ tail) =
        (frames.map (line numberText)).flatMap (· ++ [newline]) ++ units tail := by
      rw [units_append, htext, units_lines, List.map_map]
      rfl
    have hend := Lines.split_of_not_mem htailUnits
    rw [hstream, Lines.split_append]
    unfold Lines.complete Lines.rest
    rw [Lines.split_flatMap hlines]
    show (_ ++ (Lines.split newline (units tail)).1, (Lines.split newline (units tail)).2) = _
    rw [hend, List.append_nil]
  have hiff : (readPieces receive (parts.map units) []).exec s = _ ↔ _ :=
    readPieces_eq_iff (parts.map units) List.not_mem_nil
  rw [List.nil_append, hunits] at hiff
  unfold Lines.complete Lines.rest at hiff
  rw [hsplit] at hiff
  have hloop : readLoop receive textDecoder chunks [] textDecoder.start = _ :=
    readLoop_eq hpieces []
  unfold read
  rw [hloop]
  exact hiff

namespace Sample

/-- The only number of these frames is the version, 1. -/
def engine : Engine Unit := ⟨fun _ => true, fun _ => false⟩

def numberText (_ : Unit) : List Char := ['1']

theorem plainNumbers : PlainNumbers numberText := by
  intro n c hc
  obtain rfl := List.mem_singleton.mp hc
  decide

/-- An event that the client takes without doing anything. -/
def frame : JsonTree Unit := .obj [("version", .num ()), ("event", .str "session_error")]

def receivers : Receivers Unit Unit where
  parse _ := .ok frame
  respond _ _ := pure ()
  ready := pure ()
  toolCall _ := pure ()
  toolCancel _ := pure ()
  questionOpened _ := pure ()
  questionClosed _ := pure ()
  runEvent _ := pure ()

def receive (line : List UInt16) : Prog String Unit Unit := Reader.receive engine receivers line

def stream (n : Nat) : List Char :=
  (List.replicate n (frame.text numberText)).flatMap (· ++ ['\n'])

theorem frameLines_replicate (n : Nat) :
    Host.frameLines numberText (List.replicate n frame) = .ok (stream n) := by
  have hfits : ¬ JsonTree.utf8Bytes (frame.text numberText) > Host.maxLine := by decide
  induction n with
  | zero => rfl
  | succ n ih =>
    rw [List.replicate_succ]
    simp only [Host.frameLines, if_neg hfits, ih, ok_bind]
    show _ = Except.ok ((List.replicate (n + 1) (frame.text numberText)).flatMap (· ++ ['\n']))
    rw [List.replicate_succ, List.flatMap_cons, List.append_assoc]
    rfl

theorem length_units_stream (n : Nat) : (units (stream n)).length = 38 * n := by
  have hframe : (units (frame.text numberText ++ ['\n'])).length = 38 := by decide
  induction n with
  | zero => rfl
  | succ n ih =>
    have hsucc : stream (n + 1) = (frame.text numberText ++ ['\n']) ++ stream n := by
      unfold stream
      rw [List.replicate_succ, List.flatMap_cons]
    have happend : units (stream (n + 1)) =
        units (frame.text numberText ++ ['\n']) ++ units (stream n) := by
      rw [hsucc]
      exact List.flatMap_append
    rw [happend, List.length_append, hframe, ih]
    omega

theorem head_stream (n : Nat) : (stream n).head? ≠ some byteOrderMark := by
  have hhead := Reader.head_stream plainNumbers (List.replicate n frame)
    (List.nil_prefix : [] <+: frame.text numberText)
  rw [List.append_nil, List.map_replicate] at hhead
  exact hhead

theorem dispatchAll_replicate (n : Nat) (l : List UInt16) :
    (dispatchAll receive (List.replicate n l)).exec () = (.ok (), ()) := by
  induction n with
  | zero => rfl
  | succ n ih =>
    show (asFrame (receive l) >>= fun _ => dispatchAll receive (List.replicate n l)).exec () = _
    have hline : (asFrame (receive l)).exec () = (.ok (), ()) := by rfl
    rw [Prog.exec_bind_ok hline, ih]

def named : JsonTree Unit := .obj [("event", .str "\u00e9")]

/-- The stream is cut inside its first frame, and breaks off inside the last character of the name
in its second. -/
def brokenChunks : List (List UInt8) :=
  [(Utf8Stream.encode (stream 1)).take 12,
    (Utf8Stream.encode (stream 1)).drop 12 ++ (Utf8Stream.encode (named.text numberText)).take 11]

theorem brokenChunks_flatten : brokenChunks.flatten =
    Utf8Stream.encode (stream 1) ++ (Utf8Stream.encode (named.text numberText)).take 11 := by
  unfold brokenChunks
  rw [List.flatten_cons, List.flatten_cons, List.flatten_nil, List.append_nil, ← List.append_assoc,
    List.take_append_drop]

end Sample

theorem broken_stream_is_read :
    ∃ pieces, textDecoder.pieces Sample.brokenChunks textDecoder.start = .ok pieces ∧
      Fits Sample.receive pieces () ∧
      (read Sample.receive textDecoder Sample.brokenChunks).exec () = (.error .truncated, ()) := by
  obtain ⟨tail, rest, left, pieces, hlast, hcut, -, hsome, hpieces, hflatten, hread⟩ :=
    frames_are_read_iff_chunks_fit Sample.plainNumbers Sample.receive (Sample.frameLines_replicate 1)
      (List.take_prefix 11 (Utf8Stream.encode (Sample.named.text Sample.numberText)))
      Sample.brokenChunks_flatten
  have hfits : Fits Sample.receive pieces () := by
    apply fits_of_length
    have hall : (units (Sample.stream 1 ++ Sample.named.text Sample.numberText)).length ≤
        bufferLimit := by decide
    rw [hlast, ← List.append_assoc, units_append, List.length_append] at hall
    rw [hflatten]
    omega
  refine ⟨pieces, hpieces, hfits, ?_⟩
  rw [(hread ()).mpr hfits, List.map_replicate, Prog.exec_bind_ok (Sample.dispatchAll_replicate 1 _)]
  -- the frame starts with its brace, so that what is left is not blank
  obtain ⟨c, tail, rfl⟩ := List.exists_cons_of_ne_nil (hsome (by decide))
  have hbrace : c = '\x7b' := (List.cons.inj hlast).1.symm
  have hblank : (units (c :: tail)).all isSpace = false := by
    rw [hbrace]
    rfl
  unfold endOfStream
  rw [if_neg (by rw [hblank]; decide)]
  rfl

/-- A text in one chunk. -/
theorem decode_whole {text : List Char} (hmark : text.head? ≠ some byteOrderMark) :
    ∃ state, textDecoder.decode textDecoder.start (Utf8Stream.encode text) =
      .ok (units text, state) := by
  refine ⟨(!text.isEmpty, []), ?_⟩
  show (Utf8Stream.pull ([] ++ Utf8Stream.encode text) >>= _) = _
  rw [List.nil_append, Utf8Stream.pull_whole, ok_bind]
  show Except.ok (units (dropMark false text), (false || !text.isEmpty, [])) = _
  rw [dropMark_eq fun _ => hmark]
  rfl

theorem read_large {S : Type} (receive : List UInt16 → Prog String S Unit) {text : List Char}
    (hmark : text.head? ≠ some byteOrderMark) (hlarge : bufferLimit < (units text).length) (s : S) :
    (read receive textDecoder [Utf8Stream.encode text]).exec s = (.error .oversized, s) := by
  obtain ⟨state, hdecode⟩ := decode_whole hmark
  unfold read
  simp only [readLoop, hdecode, List.nil_append, if_pos hlarge]
  rfl

/-- Sixty thousand frames in one chunk: each is within the limit of the host and taken by the
client, and yet the client gives up. -/
theorem large_chunk_is_refused :
    Host.frameLines Sample.numberText (List.replicate 60000 Sample.frame) =
        .ok (Sample.stream 60000) ∧
      (dispatchAll Sample.receive
        ((List.replicate 60000 Sample.frame).map (line Sample.numberText))).exec () =
          (.ok (), ()) ∧
      (read Sample.receive textDecoder [Utf8Stream.encode (Sample.stream 60000)]).exec () =
        (.error .oversized, ()) := by
  have hlarge : bufferLimit < (units (Sample.stream 60000)).length := by
    rw [Sample.length_units_stream]
    decide
  refine ⟨Sample.frameLines_replicate 60000, ?_, ?_⟩
  · rw [List.map_replicate]
    exact Sample.dispatchAll_replicate 60000 _
  · exact read_large Sample.receive (Sample.head_stream 60000) hlarge ()

end Reader

end Client

end AgentBridge
