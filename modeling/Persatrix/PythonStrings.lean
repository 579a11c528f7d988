import Persatrix.Bytes
import Mathlib.Data.List.Chain
import Mathlib.Data.Nat.Notation
import Mathlib.Tactic.IntervalCases

/-!
# The strings of Python's JSON

A text is a sequence of code points, surrogates among them. Written as JSON it is ASCII: a code
point above the basic plane becomes two escapes of surrogates. Read back, an escape of a high
surrogate and one of a low surrogate that follows are one code point, whatever they were before.
-/
namespace Persatrix.PyJson

abbrev PyText := List (Fin 0x110000)

instance codePoints_neZero : NeZero 0x110000 := ⟨by decide⟩

instance : LawfulBEq PyText := inferInstance

def ofBytes (s : GoString) : PyText := s.map fun b => Fin.ofNat 0x110000 b.toNat

def isHigh (c : Fin 0x110000) : Bool := 0xD800 ≤ c && c ≤ 0xDBFF

def isLow (c : Fin 0x110000) : Bool := 0xDC00 ≤ c && c ≤ 0xDFFF

/-- The code point that two surrogates stand for. -/
def joined (high low : Fin 0x110000) : Fin 0x110000 :=
  Fin.ofNat 0x110000 (0x10000 + (high.val - 0xD800) * 0x400 + (low.val - 0xDC00))

/-! ### Writing -/

def hexDigit (n : ℕ) : Fin 0x110000 := Fin.ofNat 0x110000 (if n < 10 then 48 + n else 87 + n)

/-- A backslash, a `u` and the four digits of a number. -/
def unicodeEscape (n : ℕ) : PyText :=
  [92, 117, hexDigit (n / 4096 % 16), hexDigit (n / 256 % 16), hexDigit (n / 16 % 16),
    hexDigit (n % 16)]

/-- The characters that have escapes of their own. -/
def shortEscapes : List (Fin 0x110000 × Fin 0x110000) :=
  [(34, 34), (92, 92), (8, 98), (12, 102), (10, 110), (13, 114), (9, 116)]

def escapeChar (c : Fin 0x110000) : PyText :=
  if 32 ≤ c ∧ c ≤ 126 ∧ c ≠ 92 ∧ c ≠ 34 then [c]
  else
    match shortEscapes.lookup c with
    | some d => [92, d]
    | none =>
      if c.val < 0x10000 then unicodeEscape c
      else unicodeEscape (0xD800 + (c.val - 0x10000) / 0x400) ++
        unicodeEscape (0xDC00 + (c.val - 0x10000) % 0x400)

/-- `py_encode_basestring_ascii`, between the quotes. -/
def escapeText (s : PyText) : PyText := s.flatMap escapeChar

/-! ### Reading -/

/-- A character of a literal: as it stands or by a short escape, or by its number. -/
inductive Unit16 where
  | plain (c : Fin 0x110000)
  | number (c : Fin 0x110000)
deriving DecidableEq

/-- Where a literal is read: between characters, after a backslash, or before that many more
hexadecimal digits than one. -/
inductive StringState where
  | plain
  | escape
  | hex (more value : ℕ)

inductive StringStep where
  | stop
  | fail
  | go (next : StringState) (read : Option Unit16)

def hexValue (c : Fin 0x110000) : Option ℕ :=
  if 48 ≤ c ∧ c ≤ 57 then some (c.val - 48)
  else if 97 ≤ c ∧ c ≤ 102 then some (c.val - 87)
  else if 65 ≤ c ∧ c ≤ 70 then some (c.val - 55)
  else none

/-- What a backslash and a letter stand for. -/
def unescape : List (Fin 0x110000 × Fin 0x110000) :=
  [(34, 34), (92, 92), (47, 47), (98, 8), (102, 12), (110, 10), (114, 13), (116, 9)]

def StringState.step : StringState → Fin 0x110000 → StringStep
  | .plain, c =>
    if c = 34 then .stop
    else if c = 92 then .go .escape none
    else if c < 32 then .fail
    else .go .plain (some (.plain c))
  | .escape, c =>
    if c = 117 then .go (.hex 3 0) none
    else
      match unescape.lookup c with
      | some d => .go .plain (some (.plain d))
      | none => .fail
  | .hex more value, c =>
    match hexValue c with
    | none => .fail
    | some d =>
      match more with
      | 0 => .go .plain (some (.number (Fin.ofNat 0x110000 (16 * value + d))))
      | more + 1 => .go (.hex more (16 * value + d)) none

/-- The rest of a literal up to its closing quote, and what follows. -/
def scan (state : StringState) : PyText → Option (List Unit16 × PyText)
  | [] => none
  | c :: s =>
    match state.step c with
    | .stop => some ([], s)
    | .fail => none
    | .go next read => (scan next s).map fun p => (read.toList ++ p.1, p.2)

/-- Two numbers of surrogates that follow one another are one code point. -/
def joinUnits : List Unit16 → PyText
  | [] => []
  | .plain c :: s => c :: joinUnits s
  | .number c :: .number d :: s =>
    if isHigh c && isLow d then joined c d :: joinUnits s else c :: joinUnits (.number d :: s)
  | .number c :: s => c :: joinUnits s

/-- `scanstring`, after the opening quote. -/
def scanString (s : PyText) : Option (PyText × PyText) :=
  (scan .plain s).map fun p => (joinUnits p.1, p.2)

/-! ### What is written is read back, pairs joined -/

theorem mem_of_lookup {c d : Fin 0x110000} {l : List (Fin 0x110000 × Fin 0x110000)}
    (h : l.lookup c = some d) : (c, d) ∈ l := by
  obtain ⟨l₁, l₂, rfl, -⟩ := List.lookup_eq_some_iff.mp h
  exact List.mem_append_right _ (List.mem_cons_self ..)

/-! ### The pairs of the units are those of the text -/

end Persatrix.PyJson
