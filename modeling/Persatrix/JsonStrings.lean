import Persatrix.JsonSyntax

/-!
# String literals

A string is written with its characters, some of them escaped, and every byte that belongs to
no character as `\ufffd`. What it is read back as has U+FFFD in the place of such a byte.
-/
namespace Persatrix.Json

def hexDigit (n : ℕ) : UInt8 := if n < 10 then UInt8.ofNat (48 + n) else UInt8.ofNat (87 + n)

/-- How a byte of ASCII is written. -/
def escapeByte (b : UInt8) : GoString :=
  if b = quote ∨ b = backslash then [backslash, b]
  else if b = 8 then ascii "\\b"
  else if b = 12 then ascii "\\f"
  else if b = 10 then ascii "\\n"
  else if b = 13 then ascii "\\r"
  else if b = 9 then ascii "\\t"
  else if b.toNat < 0x20 ∨ b = 60 ∨ b = 62 ∨ b = 38 then
    ascii "\\u00" ++ [hexDigit (b.toNat / 16), hexDigit (b.toNat % 16)]
  else [b]

/-- How a character is written. -/
def escapeChar : GoString → GoString
  | [b] => escapeByte b
  | c =>
    if c = [0xE2, 0x80, 0xA8] then ascii "\\u2028"
    else if c = [0xE2, 0x80, 0xA9] then ascii "\\u2029"
    else c

def escapePiece : Piece → GoString
  | .char c => escapeChar c
  | .invalid _ => ascii "\\ufffd"

/-- What is written, read one byte after the other, ends between characters. -/
def Passes (lit : GoString) : Prop :=
  ∀ rest, scanString .plain (lit ++ rest) =
    (scanString .plain rest).map fun p => (lit ++ p.1, p.2)

theorem passes_nil : Passes [] := by
  intro rest
  cases h : scanString .plain rest with
  | none => simp [h]
  | some p => simp [h]

theorem Passes.append {a b : GoString} (ha : Passes a) (hb : Passes b) : Passes (a ++ b) := by
  intro rest
  rw [List.append_assoc, ha, hb]
  cases scanString .plain rest with
  | none => rfl
  | some p => simp

theorem scanString_go {state next : StringState} {b : UInt8} (h : state.step b = .go next)
    (s : GoString) :
    scanString state (b :: s) = (scanString next s).map fun p => (b :: p.1, p.2) := by
  rw [scanString, h]

theorem passes_byte {b : UInt8} (h : StringState.plain.step b = .go .plain) : Passes [b] := by
  intro rest
  rw [List.singleton_append, scanString, h]
  rfl

theorem passes_escape {c : UInt8} (h : isEscape c = true) : Passes [backslash, c] := by
  intro rest
  have hu : c ≠ 117 := by
    intro hc
    rw [hc] at h
    cases h
  have hback : StringState.plain.step backslash = .go .escape := rfl
  have hescape : StringState.escape.step c = .go .plain := by
    rw [StringState.step, if_neg hu, if_pos h]
  rw [List.cons_append, List.singleton_append, scanString_go hback, scanString_go hescape,
    Option.map_map]
  rfl

theorem hex_step {b : UInt8} (h : isHex b = true) (more : ℕ) :
    (StringState.hex (more + 1)).step b = .go (.hex more) := by
  rw [StringState.step, if_pos h]

theorem passes_unicode {h1 h2 h3 h4 : UInt8} (hhex : ∀ h ∈ [h1, h2, h3, h4], isHex h = true) :
    Passes [backslash, 117, h1, h2, h3, h4] := by
  intro rest
  simp only [List.forall_mem_cons] at hhex
  obtain ⟨hh1, hh2, hh3, hh4, -⟩ := hhex
  have hback : StringState.plain.step backslash = .go .escape := rfl
  have hu : StringState.escape.step 117 = .go (.hex 3) := rfl
  have hlast : (StringState.hex 0).step h4 = .go .plain := by
    rw [StringState.step, if_pos hh4]
  simp only [List.cons_append, List.nil_append]
  rw [scanString_go hback, scanString_go hu, scanString_go (hex_step hh1 2),
    scanString_go (hex_step hh2 1), scanString_go (hex_step hh3 0), scanString_go hlast]
  simp only [Option.map_map]
  rfl

theorem isHex_hexDigit {n : ℕ} (h : n < 16) : isHex (hexDigit n) = true := by
  unfold hexDigit isHex isDigit
  split_ifs
  · simp only [UInt8.toNat_ofNat', Bool.or_eq_true, Bool.and_eq_true, decide_eq_true_eq]
    omega
  · simp only [UInt8.toNat_ofNat', Bool.or_eq_true, Bool.and_eq_true, decide_eq_true_eq]
    omega

theorem passes_escapeByte {b : UInt8} (h : b.toNat < 0x80) : Passes (escapeByte b) := by
  unfold escapeByte
  split_ifs with hquote h8 h12 h10 h13 h9 hcode
  · apply passes_escape
    rcases hquote with rfl | rfl
    · rfl
    · rfl
  · exact passes_escape rfl
  · exact passes_escape rfl
  · exact passes_escape rfl
  · exact passes_escape rfl
  · exact passes_escape rfl
  · apply passes_unicode
    simp only [List.forall_mem_cons]
    exact ⟨rfl, rfl, isHex_hexDigit (by omega), isHex_hexDigit (by omega), by simp⟩
  · rw [not_or] at hquote hcode
    apply passes_byte
    rw [StringState.step, if_neg hquote.1, if_neg hquote.2, if_neg hcode.1]

theorem passes_high {c : GoString} (h : ∀ b ∈ c, 0x80 ≤ b.toNat) : Passes c := by
  induction c with
  | nil => exact passes_nil
  | cons b c ih =>
    rw [List.forall_mem_cons] at h
    have hb : StringState.plain.step b = .go .plain := by
      have hquote : b ≠ quote := by
        intro hb
        rw [hb] at h
        exact absurd h.1 (by decide)
      have hback : b ≠ backslash := by
        intro hb
        rw [hb] at h
        exact absurd h.1 (by decide)
      rw [StringState.step, if_neg hquote, if_neg hback, if_neg (by omega)]
    exact (passes_byte hb).append (ih h.2)

theorem passes_escapeChar {c : GoString} (h : isChar c = true) : Passes (escapeChar c) := by
  match c with
  | [] => cases h
  | [b] =>
    apply passes_escapeByte
    simpa [isChar] using h
  | a :: b :: c =>
    simp only [escapeChar]
    split_ifs
    · exact passes_unicode (List.all_eq_true.mp (by decide))
    · exact passes_unicode (List.all_eq_true.mp (by decide))
    · exact passes_high (isChar_bytes h)

theorem passes_escaped (s : GoString) : Passes ((pieces s).flatMap escapePiece) := by
  induction s using pieces_induction with
  | nil => exact passes_nil
  | char c s hc ih =>
    rw [pieces_char hc]
    exact (passes_escapeChar hc).append ih
  | invalid b s hb ih =>
    rw [pieces_invalid hb]
    exact (passes_unicode (List.all_eq_true.mp (by decide))).append ih

def encodeString (s : GoString) : StringLit :=
  ⟨(pieces s).flatMap escapePiece, by
    rw [passes_escaped s [quote]]
    simp [scanString, StringState.step]⟩

/-! ### Reading a literal -/

def hexValue (b : UInt8) : ℕ :=
  if isDigit b then digitValue b else if 97 ≤ b.toNat then b.toNat - 87 else b.toNat - 55

/-- The number the first four hexadecimal digits stand for. -/
def hexNumber (s : GoString) : ℕ := (s.take 4).foldl (fun n b => 16 * n + hexValue b) 0

/-- The code point after `\u`, and the rest. A pair of surrogates stands for one. -/
def readUnicode (s : GoString) : ℕ × GoString :=
  let high := hexNumber s
  let low := hexNumber (s.drop 6)
  if 0xD800 ≤ high ∧ high < 0xDC00 ∧ (s.drop 4).take 2 = [backslash, 117] ∧
      0xDC00 ≤ low ∧ low < 0xE000 then
    (0x10000 + (high - 0xD800) * 0x400 + (low - 0xDC00), s.drop 10)
  else (high, s.drop 4)

def unescape (c : UInt8) : GoString :=
  if c = 98 then [8]
  else if c = 102 then [12]
  else if c = 110 then [10]
  else if c = 114 then [13]
  else if c = 116 then [9]
  else if isEscape c then [c]
  else []

def unquoteUpTo : ℕ → GoString → GoString
  | 0, _ => []
  | _ + 1, [] => []
  | turns + 1, b :: s =>
    if b = backslash then
      match s with
      | [] => []
      | c :: t =>
        if c = 117 then encodeRune (readUnicode t).1 ++ unquoteUpTo turns (readUnicode t).2
        else unescape c ++ unquoteUpTo turns t
    else if charWidth (b :: s) = 0 then replacementChar ++ unquoteUpTo turns s
    else (b :: s).take (charWidth (b :: s)) ++
      unquoteUpTo turns ((b :: s).drop (charWidth (b :: s)))

/-- The string a literal stands for. -/
def unquote (s : GoString) : GoString := unquoteUpTo s.length s

theorem readUnicode_length (s : GoString) : (readUnicode s).2.length ≤ s.length := by
  unfold readUnicode
  dsimp only
  split_ifs
  · simp
  · simp

theorem unquoteUpTo_eq {n : ℕ} {s : GoString} (h : s.length ≤ n) : unquoteUpTo n s = unquote s := by
  have hany : ∀ n m (s : GoString), s.length ≤ n → s.length ≤ m →
      unquoteUpTo n s = unquoteUpTo m s := by
    intro n
    induction n with
    | zero =>
      intro m s hn _
      rw [List.length_eq_zero_iff.mp (Nat.le_zero.mp hn)]
      cases m <;> rfl
    | succ n ih =>
      intro m s hn hm
      cases s with
      | nil => cases m <;> rfl
      | cons b s =>
        cases m with
        | zero => cases hm
        | succ m =>
          rw [List.length_cons] at hn hm
          unfold unquoteUpTo
          split_ifs with hback hwidth
          · cases s with
            | nil => rfl
            | cons c t =>
              rw [List.length_cons] at hn hm
              have hlength := readUnicode_length t
              dsimp only
              rw [ih m t (by omega) (by omega), ih m _ (by omega) (by omega)]
          · rw [ih m s (by omega) (by omega)]
          · rw [ih m _ (by simp; omega) (by simp; omega)]
  exact hany n s.length s h (Nat.le_refl _)

theorem unquote_char {c : GoString} (h : isChar c = true) (hback : c ≠ [backslash])
    (s : GoString) : unquote (c ++ s) = c ++ unquote s := by
  have hwidth := charWidth_append h s
  cases c with
  | nil => cases h
  | cons b c =>
    have hb : b ≠ backslash := by
      intro hb
      cases c with
      | nil => exact hback (by rw [hb])
      | cons d c =>
        have hhigh := isChar_bytes h b (List.mem_cons_self ..)
        rw [hb] at hhigh
        exact absurd hhigh (by decide)
    rw [List.cons_append] at hwidth ⊢
    have hpos : charWidth (b :: (c ++ s)) ≠ 0 := by
      rw [hwidth, List.length_cons]
      omega
    rw [unquote, List.length_cons]
    unfold unquoteUpTo
    rw [if_neg hb, if_neg hpos, hwidth, ← List.cons_append, List.take_left', List.drop_left']
    · rw [unquoteUpTo_eq (by simp)]
    · rfl
    · rfl

theorem unquote_escape {c : UInt8} (h : c ≠ 117) (s : GoString) :
    unquote (backslash :: c :: s) = unescape c ++ unquote s := by
  rw [unquote, List.length_cons, unquoteUpTo, if_pos rfl, if_neg h, unquoteUpTo_eq (by simp)]

theorem unquote_unicode (s : GoString) :
    unquote (backslash :: 117 :: s) = encodeRune (readUnicode s).1 ++ unquote (readUnicode s).2 := by
  have hlength := readUnicode_length s
  rw [unquote, List.length_cons, unquoteUpTo, if_pos rfl, if_pos rfl, unquoteUpTo_eq (by simp; omega)]

/-- A code point below the surrogates is read from its four digits. -/
theorem unquote_four {h1 h2 h3 h4 : UInt8} {n : ℕ} (h : hexNumber [h1, h2, h3, h4] = n)
    (hlow : n < 0xD800 ∨ 0xE000 ≤ n) (s : GoString) :
    unquote ([backslash, 117, h1, h2, h3, h4] ++ s) = encodeRune n ++ unquote s := by
  have hread : readUnicode (h1 :: h2 :: h3 :: h4 :: s) = (n, s) := by
    have hhigh : hexNumber (h1 :: h2 :: h3 :: h4 :: s) = n := h
    unfold readUnicode
    rw [hhigh]
    exact if_neg (by omega)
  simp only [List.cons_append, List.nil_append]
  rw [unquote_unicode, hread]

theorem hexValue_hexDigit {n : ℕ} (h : n < 16) : hexValue (hexDigit n) = n := by
  interval_cases n <;> rfl

theorem unquote_escapeByte {b : UInt8} (h : b.toNat < 0x80) (s : GoString) :
    unquote (escapeByte b ++ s) = b :: unquote s := by
  unfold escapeByte
  split_ifs with hquote h8 h12 h10 h13 h9 hcode
  · rw [List.cons_append, List.singleton_append]
    rcases hquote with rfl | rfl
    · exact unquote_escape (by decide) s
    · exact unquote_escape (by decide) s
  · rw [h8]
    exact unquote_escape (by decide) s
  · rw [h12]
    exact unquote_escape (by decide) s
  · rw [h10]
    exact unquote_escape (by decide) s
  · rw [h13]
    exact unquote_escape (by decide) s
  · rw [h9]
    exact unquote_escape (by decide) s
  · have hnumber : hexNumber [48, 48, hexDigit (b.toNat / 16), hexDigit (b.toNat % 16)] =
        b.toNat := by
      simp only [hexNumber, List.take, List.foldl, hexValue_hexDigit (show b.toNat / 16 < 16 by omega),
        hexValue_hexDigit (show b.toNat % 16 < 16 by omega)]
      have hzero : hexValue 48 = 0 := rfl
      rw [hzero]
      omega
    have hrune : encodeRune b.toNat = [b] := by
      rw [encodeRune, if_pos h, UInt8.ofNat_toNat]
    have hread := unquote_four hnumber (.inl (by omega)) s
    rw [hrune] at hread
    exact hread
  · rw [not_or] at hquote
    have hchar : isChar [b] = true := by simpa [isChar] using h
    apply unquote_char hchar
    intro hback
    cases hback
    exact hquote.2 rfl

theorem unquote_escapeChar {c : GoString} (h : isChar c = true) (s : GoString) :
    unquote (escapeChar c ++ s) = c ++ unquote s := by
  match c with
  | [] => cases h
  | [b] =>
    apply unquote_escapeByte
    simpa [isChar] using h
  | a :: b :: c =>
    simp only [escapeChar]
    split_ifs with h8 h9
    · rw [h8]
      exact unquote_four (n := 0x2028) rfl (.inl (by decide)) s
    · rw [h9]
      exact unquote_four (n := 0x2029) rfl (.inl (by decide)) s
    · apply unquote_char h
      intro hback
      cases hback

/-- A string is read back with U+FFFD for every byte that belongs to no character. -/
theorem unquote_encodeString (s : GoString) : unquote (encodeString s).1 = sanitize s := by
  have htext : ∀ s, unquote ((pieces s).flatMap escapePiece) = sanitize s := by
    intro s
    induction s using pieces_induction with
    | nil => rfl
    | char c s hc ih =>
      rw [pieces_char hc, sanitize_char hc, List.flatMap_cons, escapePiece,
        unquote_escapeChar hc, ih]
    | invalid b s hb ih =>
      rw [pieces_invalid hb, sanitize_invalid hb, List.flatMap_cons, ← ih]
      exact unquote_four (n := 0xFFFD) rfl (.inr (by decide)) _
  exact htext s

theorem unescape_valid (c : UInt8) (s : GoString) :
    validString (unescape c ++ s) = validString s := by
  unfold unescape
  split_ifs with hb hf hn hr ht hescape
  · exact validString_char (by decide) s
  · exact validString_char (by decide) s
  · exact validString_char (by decide) s
  · exact validString_char (by decide) s
  · exact validString_char (by decide) s
  · apply validString_char
    simp only [isEscape, List.elem_eq_mem, decide_eq_true_eq] at hescape
    have hascii : ∀ c ∈ ascii "bfnrt\\/\"", isChar [c] = true := List.all_eq_true.mp (by decide)
    exact hascii c hescape
  · rfl

/-- What a literal is read as is the encoding of a text. -/
theorem validString_unquote (s : GoString) : validString (unquote s) = true := by
  have hturns : ∀ turns s, validString (unquoteUpTo turns s) = true := by
    intro turns
    induction turns with
    | zero => intro s; rfl
    | succ turns ih =>
      intro s
      cases s with
      | nil => rfl
      | cons b s =>
        unfold unquoteUpTo
        split_ifs with hback hwidth
        · cases s with
          | nil => rfl
          | cons c t =>
            dsimp only
            split_ifs
            · rw [validString_char (isChar_encodeRune _), ih]
            · rw [unescape_valid, ih]
        · rw [validString_char isChar_replacementChar, ih]
        · rw [validString_char (isChar_take_charWidth hwidth), ih]
  exact hturns s.length s

/-- A string is written again as it was if and only if it is the encoding of a text. -/
theorem encodeString_sanitize_iff (s : GoString) :
    encodeString (sanitize s) = encodeString s ↔ validString s = true := by
  constructor
  · intro h
    have htext : ∀ s : GoString,
        (pieces (sanitize s)).flatMap escapePiece = (pieces s).flatMap escapePiece →
          validString s = true := by
      intro s
      induction s using pieces_induction with
      | nil => intro _; rfl
      | char c s hc ih =>
        intro h
        rw [sanitize_char hc, pieces_char hc, pieces_char hc, List.flatMap_cons,
          List.flatMap_cons] at h
        rw [validString_char hc]
        exact ih (List.append_cancel_left h)
      | invalid b s hb ih =>
        intro h
        rw [sanitize_invalid hb, pieces_char isChar_replacementChar, pieces_invalid hb] at h
        cases h
    exact htext s (Subtype.ext_iff.mp h)
  · intro h
    rw [sanitize_of_valid h]

theorem encodeString_injective {s t : GoString} (hs : validString s = true)
    (ht : validString t = true) (h : encodeString s = encodeString t) : s = t := by
  have hread := unquote_encodeString s
  rw [h, unquote_encodeString, sanitize_of_valid hs, sanitize_of_valid ht] at hread
  exact hread.symm

end Persatrix.Json
