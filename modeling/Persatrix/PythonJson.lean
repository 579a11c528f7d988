import Persatrix.Float64
import Persatrix.PythonStrings
import Mathlib.Data.List.Sort

/-!
# Python's JSON

The values that `json` reads: any text of the grammar, a repeated key with its last value, and the
constants for what is no finite number. A text is read without a bound on how deep it is nested.
-/
namespace Persatrix.PyJson

/-- A `float`. -/
inductive PyFloat where
  | finite (x : Float64)
  | inf (neg : Bool)
  | nan
deriving DecidableEq

/-- The items of a `dict` are in its order. -/
inductive Value where
  | null
  | bool (b : Bool)
  | int (n : ℤ)
  | float (x : PyFloat)
  | str (s : PyText)
  | array (items : List Value)
  | object (items : List (PyText × Value))

def word (s : String) : PyText := ofBytes (ascii s)

theorem word_append (s t : String) : word (s ++ t) = word s ++ word t := by
  rw [word, ascii_append, ofBytes, List.map_append]
  rfl

theorem word_ofList (l : List Char) :
    word (String.ofList l) = l.map fun c => Fin.ofNat 0x110000 (UInt8.ofNat c.toNat).toNat := by
  rw [word, ascii_ofList, ofBytes, List.map_map]
  rfl

def intText (n : ℤ) : PyText :=
  ofBytes ((if n < 0 then [minus] else []) ++ decimal n.natAbs)

/-! ### Reading -/

def isSpace (c : Fin 0x110000) : Bool := c = 32 || c = 9 || c = 10 || c = 13

def skip (s : PyText) : PyText := s.dropWhile isSpace

def isDecimal (c : Fin 0x110000) : Bool := 48 ≤ c && c ≤ 57

def spanDigits (s : PyText) : GoString × PyText :=
  ((s.takeWhile isDecimal).map fun c => UInt8.ofNat c.val, s.dropWhile isDecimal)

/-- The parts of a number: a sign, digits, digits behind a point, an exponent. -/
structure NumberToken where
  neg : Bool
  whole : GoString
  fraction : Option GoString
  exponent : Option ℤ

def matchWhole : PyText → Option (GoString × PyText)
  | [] => none
  | c :: s =>
    if c = 48 then some ([digit 0], s)
    else if isDecimal c then some (spanDigits (c :: s))
    else none

def matchFraction : PyText → Option GoString × PyText
  | [] => (none, [])
  | c :: s =>
    if c = 46 ∧ (spanDigits s).1 ≠ [] then (some (spanDigits s).1, (spanDigits s).2)
    else (none, c :: s)

/-- A sign, if there is one. -/
def matchSign : PyText → Bool × PyText
  | [] => (false, [])
  | c :: s => if c = 45 then (true, s) else if c = 43 then (false, s) else (false, c :: s)

def matchExponent : PyText → Option ℤ × PyText
  | [] => (none, [])
  | c :: s =>
    let (neg, t) := matchSign s
    if (c = 101 ∨ c = 69) ∧ (spanDigits t).1 ≠ [] then
      let n : ℤ := digitsValue (spanDigits t).1
      (some (if neg then -n else n), (spanDigits t).2)
    else (none, c :: s)

/-- `_match_number_unicode`, up to the number that the parts stand for. -/
def matchNumber (s : PyText) : Option (NumberToken × PyText) :=
  let (neg, t) := if s.head? = some 45 then (true, s.tail) else (false, s)
  (matchWhole t).map fun (whole, u) =>
    let (fraction, v) := matchFraction u
    let (exponent, w) := matchExponent v
    (⟨neg, whole, fraction, exponent⟩, w)

/-- The most digits that `int` reads. -/
def maxStrDigits : ℕ := 4300

/-- The nearest `float`, which is infinite from some number on. -/
def toFloat (neg : Bool) (q : ℚ) : PyFloat :=
  match (Float64.nearest q).bind (Float64.ofParts neg) with
  | some x => .finite x
  | none => .inf neg

/-- The errors of `loads`: a text that is not of the grammar, or an integer of too many digits. -/
inductive LoadError where
  | jsonDecodeError
  | valueError
deriving DecidableEq

/-- What a scanner finds, or that the text is not of the grammar. -/
def scanned {α : Type} : Option α → Except LoadError α
  | some a => .ok a
  | none => .error .jsonDecodeError

def NumberToken.value (t : NumberToken) : Except LoadError Value :=
  if t.fraction = none ∧ t.exponent = none then
    if maxStrDigits < t.whole.length then .error .valueError
    else
      let n : ℤ := digitsValue t.whole
      .ok (.int (if t.neg then -n else n))
  else
    let fraction := t.fraction.getD []
    .ok (.float (toFloat t.neg
      (digitsValue (t.whole ++ fraction) * 10 ^ (t.exponent.getD 0 - fraction.length))))

def readNumber (s : PyText) : Except LoadError (Value × PyText) :=
  (scanned (matchNumber s)).bind fun p => p.1.value.map fun v => (v, p.2)

def words : List (PyText × Value) :=
  [(word "null", .null), (word "true", .bool true), (word "false", .bool false),
    (word "NaN", .float .nan), (word "Infinity", .float (.inf false)),
    (word "-Infinity", .float (.inf true))]

def readWord (s : PyText) : Option (Value × PyText) :=
  words.findSome? fun p => if p.1.isPrefixOf s then some (p.2, s.drop p.1.length) else none

/-- `d[key] = v` -/
def setItem (items : List (PyText × Value)) (key : PyText) (v : Value) : List (PyText × Value) :=
  if key ∈ items.map Prod.fst then items.map fun p => if p.1 = key then (key, v) else p
  else items ++ [(key, v)]

/-- A `dict` that is filled in the order of the text. -/
def dictOf (items : List (PyText × Value)) : List (PyText × Value) :=
  items.foldl (fun d p => setItem d p.1 p.2) []

/-- The keys in their order. -/
def keys (items : List (PyText × Value)) : List PyText := items.map Prod.fst

mutual
/-- `scan_once`, in at most the given number of turns. -/
def parseValue : ℕ → PyText → Except LoadError (Value × PyText)
  | 0, _ => .error .jsonDecodeError
  | _ + 1, [] => .error .jsonDecodeError
  | turns + 1, c :: s =>
    if c = 34 then (scanned (scanString s)).map fun p => (.str p.1, p.2)
    else if c = 123 then
      if (skip s).head? = some 125 then .ok (.object [], (skip s).tail)
      else (parseMembers turns (skip s)).map fun p => (.object (dictOf p.1), p.2)
    else if c = 91 then
      if (skip s).head? = some 93 then .ok (.array [], (skip s).tail)
      else (parseItems turns (skip s)).map fun p => (.array p.1, p.2)
    else
      match readWord (c :: s) with
      | some p => .ok p
      | none => readNumber (c :: s)

def parseItems : ℕ → PyText → Except LoadError (List Value × PyText)
  | 0, _ => .error .jsonDecodeError
  | turns + 1, s =>
    (parseValue turns s).bind fun (v, t) =>
      match skip t with
      | [] => .error .jsonDecodeError
      | c :: u =>
        if c = 93 then .ok ([v], u)
        else if c = 44 then (parseItems turns (skip u)).map fun p => (v :: p.1, p.2)
        else .error .jsonDecodeError

def parseMembers : ℕ → PyText → Except LoadError (List (PyText × Value) × PyText)
  | 0, _ => .error .jsonDecodeError
  | _ + 1, [] => .error .jsonDecodeError
  | turns + 1, q :: s =>
    if q ≠ 34 then .error .jsonDecodeError
    else
      (scanned (scanString s)).bind fun (key, t) =>
        if (skip t).head? ≠ some 58 then .error .jsonDecodeError
        else
          (parseValue turns (skip (skip t).tail)).bind fun (v, u) =>
            match skip u with
            | [] => .error .jsonDecodeError
            | c :: w =>
              if c = 125 then .ok ([(key, v)], w)
              else if c = 44 then
                (parseMembers turns (skip w)).map fun p => ((key, v) :: p.1, p.2)
              else .error .jsonDecodeError
end

/-- `json.loads` -/
def loads (s : PyText) : Except LoadError Value :=
  if s.head? = some 0xFEFF then .error .jsonDecodeError
  else
    (parseValue (s.length + 1) (skip s)).bind fun p =>
      if skip p.2 = [] then .ok p.1 else .error .jsonDecodeError

end Persatrix.PyJson
