import Persatrix.Bytes

/-!
# Characters in byte strings

A byte string is cut into the bytes of encoded characters and bytes that belong to none.
-/
namespace Persatrix

def isTail (b : UInt8) : Bool := 0x80 ≤ b.toNat && b.toNat ≤ 0xBF

/-- Whether these are the bytes of one character. -/
def isChar : GoString → Bool
  | [a] => a.toNat < 0x80
  | [a, b] => 0xC2 ≤ a.toNat && a.toNat ≤ 0xDF && isTail b
  | [a, b, c] =>
    (if a.toNat = 0xE0 then 0xA0 ≤ b.toNat && b.toNat ≤ 0xBF
      else if a.toNat = 0xED then 0x80 ≤ b.toNat && b.toNat ≤ 0x9F
      else 0xE1 ≤ a.toNat && a.toNat ≤ 0xEF && isTail b) && isTail c
  | [a, b, c, d] =>
    (if a.toNat = 0xF0 then 0x90 ≤ b.toNat && b.toNat ≤ 0xBF
      else if a.toNat = 0xF4 then 0x80 ≤ b.toNat && b.toNat ≤ 0x8F
      else 0xF1 ≤ a.toNat && a.toNat ≤ 0xF3 && isTail b) && isTail c && isTail d
  | _ => false

/-- The number of bytes of the character at the beginning, or 0 if there is none. -/
def charWidth (s : GoString) : ℕ :=
  if isChar (s.take 1) then 1
  else if isChar (s.take 2) then 2
  else if isChar (s.take 3) then 3
  else if isChar (s.take 4) then 4
  else 0

theorem isChar_lead_two {a b : UInt8} (h : isChar [a, b] = true) :
    0xC2 ≤ a.toNat ∧ a.toNat ≤ 0xDF := by
  have hpair : (0xC2 ≤ a.toNat && a.toNat ≤ 0xDF && isTail b) = true := h
  simp only [Bool.and_eq_true, decide_eq_true_eq] at hpair
  exact hpair.1

theorem isChar_lead_three {a b c : UInt8} (h : isChar [a, b, c] = true) :
    0xE0 ≤ a.toNat ∧ a.toNat ≤ 0xEF := by
  simp only [isChar, Bool.and_eq_true] at h
  have hlead := h.1
  split_ifs at hlead
  · omega
  · omega
  · simp only [Bool.and_eq_true, decide_eq_true_eq] at hlead
    omega

theorem isChar_lead_four {a b c d : UInt8} (h : isChar [a, b, c, d] = true) :
    0xF0 ≤ a.toNat ∧ a.toNat ≤ 0xF4 := by
  simp only [isChar, Bool.and_eq_true] at h
  have hlead := h.1.1
  split_ifs at hlead
  · omega
  · omega
  · simp only [Bool.and_eq_true, decide_eq_true_eq] at hlead
    omega

theorem isChar_one_eq_false {a : UInt8} (h : 0x80 ≤ a.toNat) : isChar [a] = false := by
  show decide (a.toNat < 0x80) = false
  rw [decide_eq_false_iff_not]
  omega

theorem isChar_two_eq_false {a b : UInt8} (h : 0xE0 ≤ a.toNat) : isChar [a, b] = false := by
  by_contra hchar
  have hlead := isChar_lead_two (Bool.not_eq_false _ ▸ hchar)
  omega

theorem isChar_three_eq_false {a b c : UInt8} (h : 0xF0 ≤ a.toNat) :
    isChar [a, b, c] = false := by
  by_contra hchar
  have hlead := isChar_lead_three (Bool.not_eq_false _ ▸ hchar)
  omega

/-- A character of more than one byte has no ASCII byte. -/
theorem isChar_bytes {a b : UInt8} {c : GoString} (h : isChar (a :: b :: c) = true) :
    ∀ x ∈ a :: b :: c, 0x80 ≤ x.toNat := by
  have htail : ∀ x, isTail x = true → 0x80 ≤ x.toNat := by
    intro x hx
    simp only [isTail, Bool.and_eq_true, decide_eq_true_eq] at hx
    exact hx.1
  match c with
  | [] =>
    have hlead := isChar_lead_two h
    simp only [isChar, Bool.and_eq_true] at h
    have hb := htail b h.2
    simp only [List.forall_mem_cons]
    exact ⟨by omega, hb, by simp⟩
  | [c] =>
    have hlead := isChar_lead_three h
    simp only [isChar, Bool.and_eq_true] at h
    have hb : 0x80 ≤ b.toNat := by
      have hsecond := h.1
      split_ifs at hsecond
      · simp only [Bool.and_eq_true, decide_eq_true_eq] at hsecond
        omega
      · simp only [Bool.and_eq_true, decide_eq_true_eq] at hsecond
        omega
      · exact htail b (Bool.and_eq_true_iff.mp hsecond).2
    simp only [List.forall_mem_cons]
    exact ⟨by omega, hb, htail c h.2, by simp⟩
  | [c, d] =>
    have hlead := isChar_lead_four h
    simp only [isChar, Bool.and_eq_true] at h
    have hb : 0x80 ≤ b.toNat := by
      have hsecond := h.1.1
      split_ifs at hsecond
      · simp only [Bool.and_eq_true, decide_eq_true_eq] at hsecond
        omega
      · simp only [Bool.and_eq_true, decide_eq_true_eq] at hsecond
        omega
      · exact htail b (Bool.and_eq_true_iff.mp hsecond).2
    simp only [List.forall_mem_cons]
    exact ⟨by omega, hb, htail c h.1.2, htail d h.2, by simp⟩
  | _ :: _ :: _ :: _ => cases h

/-- The bytes of a character are found in front of any others. -/
theorem charWidth_append {c : GoString} (h : isChar c = true) (s : GoString) :
    charWidth (c ++ s) = c.length := by
  match c with
  | [] => cases h
  | [a] => simp [charWidth, h]
  | [a, b] =>
    have hlead := isChar_lead_two h
    have hone : isChar [a] = false := isChar_one_eq_false (by omega)
    simp [charWidth, h, hone]
  | [a, b, c] =>
    have hlead := isChar_lead_three h
    have hone : isChar [a] = false := isChar_one_eq_false (by omega)
    have htwo : isChar [a, b] = false := isChar_two_eq_false (by omega)
    simp [charWidth, h, hone, htwo]
  | [a, b, c, d] =>
    have hlead := isChar_lead_four h
    have hone : isChar [a] = false := isChar_one_eq_false (by omega)
    have htwo : isChar [a, b] = false := isChar_two_eq_false (by omega)
    have hthree : isChar [a, b, c] = false := isChar_three_eq_false (by omega)
    simp [charWidth, h, hone, htwo, hthree]
  | _ :: _ :: _ :: _ :: _ :: _ => cases h

theorem isChar_take_charWidth {s : GoString} (h : charWidth s ≠ 0) :
    isChar (s.take (charWidth s)) = true := by
  unfold charWidth at h ⊢
  split_ifs at h ⊢ with h1 h2 h3 h4
  · exact h1
  · exact h2
  · exact h3
  · exact h4
  · exact absurd rfl h

theorem isChar_ne_nil {c : GoString} (h : isChar c = true) : c ≠ [] := by
  intro hnil
  rw [hnil] at h
  cases h

/-- A character, or a byte that belongs to none. -/
inductive Piece where
  | char (c : GoString)
  | invalid (b : UInt8)
deriving DecidableEq

def piecesUpTo : ℕ → GoString → List Piece
  | 0, _ => []
  | _ + 1, [] => []
  | n + 1, b :: s =>
    if charWidth (b :: s) = 0 then .invalid b :: piecesUpTo n s
    else .char ((b :: s).take (charWidth (b :: s))) ::
      piecesUpTo n ((b :: s).drop (charWidth (b :: s)))

def pieces (s : GoString) : List Piece := piecesUpTo s.length s

theorem piecesUpTo_eq {n : ℕ} : ∀ {s : GoString}, s.length ≤ n → piecesUpTo n s = pieces s := by
  have hany : ∀ n m (s : GoString), s.length ≤ n → s.length ≤ m →
      piecesUpTo n s = piecesUpTo m s := by
    intro n
    induction n with
    | zero =>
      intro m s hn _
      rw [List.length_eq_zero_iff.mp (Nat.le_zero.mp hn)]
      cases m <;> rfl
    | succ n ih =>
      intro m s hn hm
      cases s with
      | nil => cases m <;> rfl
      | cons b s =>
        cases m with
        | zero => cases hm
        | succ m =>
          rw [List.length_cons] at hn hm
          rw [piecesUpTo, piecesUpTo]
          split_ifs with hwidth
          · rw [ih m s (by omega) (by omega)]
          · rw [ih m _ (by simp; omega) (by simp; omega)]
  intro s h
  exact hany n s.length s h (Nat.le_refl _)

@[simp] theorem pieces_nil : pieces [] = [] := rfl

theorem pieces_invalid {b : UInt8} {s : GoString} (h : charWidth (b :: s) = 0) :
    pieces (b :: s) = .invalid b :: pieces s := by
  rw [pieces, List.length_cons, piecesUpTo, if_pos h]
  rfl

theorem pieces_char {c : GoString} (h : isChar c = true) (s : GoString) :
    pieces (c ++ s) = .char c :: pieces s := by
  have hwidth := charWidth_append h s
  have hne := isChar_ne_nil h
  cases c with
  | nil => exact absurd rfl hne
  | cons b c =>
    rw [List.cons_append] at hwidth ⊢
    have hpos : charWidth (b :: (c ++ s)) ≠ 0 := by
      rw [hwidth, List.length_cons]
      omega
    rw [pieces, List.length_cons, piecesUpTo, if_neg hpos, hwidth, ← List.cons_append,
      List.take_left', List.drop_left']
    · rw [piecesUpTo_eq (by simp)]
    · rfl
    · rfl

/-- A byte string is built from characters and bytes that belong to none. -/
theorem pieces_induction {P : GoString → Prop} (nil : P [])
    (char : ∀ c s, isChar c = true → P s → P (c ++ s))
    (invalid : ∀ b s, charWidth (b :: s) = 0 → P s → P (b :: s)) (s : GoString) : P s := by
  have hlength : ∀ n (s : GoString), s.length ≤ n → P s := by
    intro n
    induction n with
    | zero =>
      intro s hs
      rw [List.length_eq_zero_iff.mp (Nat.le_zero.mp hs)]
      exact nil
    | succ n ih =>
      intro s hs
      cases s with
      | nil => exact nil
      | cons b s =>
        rw [List.length_cons] at hs
        by_cases hwidth : charWidth (b :: s) = 0
        · exact invalid b s hwidth (ih s (by omega))
        · rw [← List.take_append_drop (charWidth (b :: s)) (b :: s)]
          apply char _ _ (isChar_take_charWidth hwidth)
          apply ih
          simp only [List.length_drop, List.length_cons]
          omega
  exact hlength s.length s (Nat.le_refl _)

def Piece.isValid : Piece → Bool
  | .char _ => true
  | .invalid _ => false

/-- Whether a byte string is the encoding of a text. -/
def validString (s : GoString) : Bool := (pieces s).all Piece.isValid

@[simp] theorem validString_nil : validString [] = true := rfl

theorem validString_char {c : GoString} (h : isChar c = true) (s : GoString) :
    validString (c ++ s) = validString s := by
  rw [validString, pieces_char h]
  rfl

theorem validString_invalid {b : UInt8} {s : GoString} (h : charWidth (b :: s) = 0) :
    validString (b :: s) = false := by
  rw [validString, pieces_invalid h]
  rfl

/-- The bytes of U+FFFD. -/
def replacementChar : GoString := [0xEF, 0xBF, 0xBD]

theorem isChar_replacementChar : isChar replacementChar = true := by decide

def Piece.replaced : Piece → GoString
  | .char c => c
  | .invalid _ => replacementChar

/-- Every byte that belongs to no character is replaced by U+FFFD. -/
def sanitize (s : GoString) : GoString := (pieces s).flatMap Piece.replaced

@[simp] theorem sanitize_nil : sanitize [] = [] := rfl

theorem sanitize_char {c : GoString} (h : isChar c = true) (s : GoString) :
    sanitize (c ++ s) = c ++ sanitize s := by
  rw [sanitize, pieces_char h]
  rfl

theorem sanitize_invalid {b : UInt8} {s : GoString} (h : charWidth (b :: s) = 0) :
    sanitize (b :: s) = replacementChar ++ sanitize s := by
  rw [sanitize, pieces_invalid h]
  rfl

theorem sanitize_of_valid {s : GoString} (h : validString s = true) : sanitize s = s := by
  induction s using pieces_induction with
  | nil => rfl
  | char c s hc ih =>
    rw [validString_char hc] at h
    rw [sanitize_char hc, ih h]
  | invalid b s hb ih =>
    rw [validString_invalid hb] at h
    cases h

/-- The bytes of a code point; what is none is U+FFFD. -/
def encodeRune (n : ℕ) : GoString :=
  if n < 0x80 then [UInt8.ofNat n]
  else if n < 0x800 then [UInt8.ofNat (0xC0 + n / 64), UInt8.ofNat (0x80 + n % 64)]
  else if 0xD800 ≤ n ∧ n < 0xE000 then replacementChar
  else if n < 0x10000 then
    [UInt8.ofNat (0xE0 + n / 4096), UInt8.ofNat (0x80 + n / 64 % 64), UInt8.ofNat (0x80 + n % 64)]
  else if n < 0x110000 then
    [UInt8.ofNat (0xF0 + n / 262144), UInt8.ofNat (0x80 + n / 4096 % 64),
      UInt8.ofNat (0x80 + n / 64 % 64), UInt8.ofNat (0x80 + n % 64)]
  else replacementChar

theorem isTail_ofNat (n : ℕ) : isTail (UInt8.ofNat (0x80 + n % 64)) = true := by
  simp only [isTail, UInt8.toNat_ofNat', Bool.and_eq_true, decide_eq_true_eq]
  omega

theorem isChar_encodeRune (n : ℕ) : isChar (encodeRune n) = true := by
  unfold encodeRune
  split_ifs with h1 h2 h3 h4 h5
  · simp only [isChar, UInt8.toNat_ofNat', decide_eq_true_eq]
    omega
  · simp only [isChar, isTail_ofNat, UInt8.toNat_ofNat', Bool.and_true, Bool.and_eq_true,
      decide_eq_true_eq]
    omega
  · exact isChar_replacementChar
  · simp only [isChar, isTail_ofNat, UInt8.toNat_ofNat', Bool.and_true]
    split_ifs
    · simp only [Bool.and_eq_true, decide_eq_true_eq]
      omega
    · simp only [Bool.and_eq_true, decide_eq_true_eq]
      omega
    · simp only [Bool.and_eq_true, decide_eq_true_eq]
      omega
  · simp only [isChar, isTail_ofNat, UInt8.toNat_ofNat', Bool.and_true]
    split_ifs
    · simp only [Bool.and_eq_true, decide_eq_true_eq]
      omega
    · simp only [Bool.and_eq_true, decide_eq_true_eq]
      omega
    · simp only [Bool.and_eq_true, decide_eq_true_eq]
      omega
  · exact isChar_replacementChar

end Persatrix
