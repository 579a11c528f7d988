import Persatrix.PythonJson
import Mathlib.Data.List.DropRight

/-!
# Python's conversions of JSON values

`bool`, `str`, `repr`, `float`, `tuple` and `dict` of a value that `json` has read, with the exceptions
they raise. Which characters are printable and which are decimal digits depends on the Unicode database
of the interpreter.
-/
namespace Persatrix.PyJson

structure UnicodeData where
  printable : Fin 0x110000 → Bool
  decimal : Fin 0x110000 → Option (Fin 10)

inductive PyException where
  | typeError
  | valueError
  | overflowError
  | attributeError
deriving DecidableEq

/-! ### Characters and truth -/

/-- `str.isspace` of a character. -/
def isWhitespace (c : Fin 0x110000) : Bool :=
  9 ≤ c && c ≤ 13 || 28 ≤ c && c ≤ 32 || c = 0x85 || c = 0xA0 || c = 0x1680 ||
    0x2000 ≤ c && c ≤ 0x200A || c = 0x2028 || c = 0x2029 || c = 0x202F || c = 0x205F || c = 0x3000

/-- `not s or not s.strip()` -/
def isBlank (s : PyText) : Bool := s.all isWhitespace

def Value.truthy : Value → Bool
  | .null => false
  | .bool b => b
  | .int n => n ≠ 0
  | .float (.finite x) => x.mantissa ≠ 0
  | .float _ => true
  | .str s => s ≠ []
  | .array items => !items.isEmpty
  | .object items => !items.isEmpty

/-- `d.get(key)` -/
def get (items : List (PyText × Value)) (key : String) : Option Value := items.lookup (word key)

/-! ### `repr` and `str` -/

/-- The digits of a number in base 16, as many as given. -/
def hexDigits : ℕ → ℕ → PyText
  | 0, _ => []
  | k + 1, n => hexDigits k (n / 16) ++ [hexDigit (n % 16)]

/-- A character in a `repr` with these quotes. -/
def reprChar (u : UnicodeData) (quote c : Fin 0x110000) : PyText :=
  if c = quote ∨ c = 92 then [92, c]
  else if c = 9 then word "\\t"
  else if c = 10 then word "\\n"
  else if c = 13 then word "\\r"
  else if c < 32 ∨ c = 127 then word "\\x" ++ hexDigits 2 c
  else if c < 127 then [c]
  else if u.printable c then [c]
  else if c ≤ 0xFF then word "\\x" ++ hexDigits 2 c
  else if c ≤ 0xFFFF then word "\\u" ++ hexDigits 4 c
  else word "\\U" ++ hexDigits 8 c

def reprStr (u : UnicodeData) (s : PyText) : PyText :=
  let quote : Fin 0x110000 := if 39 ∈ s ∧ 34 ∉ s then 34 else 39
  quote :: (s.flatMap (reprChar u quote) ++ [quote])

def PyFloat.repr : PyFloat → PyText
  | .finite x => ofBytes x.repr
  | .inf false => word "inf"
  | .inf true => word "-inf"
  | .nan => word "nan"

mutual
/-- `repr(v)` -/
def reprText (u : UnicodeData) : Value → PyText
  | .null => word "None"
  | .bool true => word "True"
  | .bool false => word "False"
  | .int n => intText n
  | .float x => x.repr
  | .str s => reprStr u s
  | .array items => 91 :: (reprItems u items ++ [93])
  | .object items => 123 :: (reprMembers u items ++ [125])

def reprItems (u : UnicodeData) : List Value → PyText
  | [] => []
  | v :: vs => reprText u v ++ (if vs.isEmpty then [] else word ", " ++ reprItems u vs)

def reprMembers (u : UnicodeData) : List (PyText × Value) → PyText
  | [] => []
  | (key, v) :: ms => reprStr u key ++ word ": " ++ reprText u v ++
      (if ms.isEmpty then [] else word ", " ++ reprMembers u ms)
end

/-- `str(v)` -/
def strText (u : UnicodeData) : Value → PyText
  | .str s => s
  | v => reprText u v

/-! ### `float` -/

/-- A character as `float` reads it. -/
def asciiOf (u : UnicodeData) (c : Fin 0x110000) : Fin 0x110000 :=
  if c < 127 then c
  else if isWhitespace c then 32
  else
    match u.decimal c with
    | some d => Fin.ofNat 0x110000 (48 + d.val)
    | none => 63

/-- The white space of C. -/
def isSpaceC (c : Fin 0x110000) : Bool := 9 ≤ c && c ≤ 13 || c = 32

/-- A text without its underscores, each of which must be between two digits. -/
def dropUnderscores (prev : Fin 0x110000) : PyText → Option PyText
  | [] => if prev = 95 then none else some []
  | c :: s =>
    if c = 95 then if isDecimal prev then dropUnderscores c s else none
    else if prev = 95 && !isDecimal c then none
    else (dropUnderscores c s).map (c :: ·)

/-- A letter of ASCII in lower case. -/
def lowerChar (c : Fin 0x110000) : Fin 0x110000 := if 65 ≤ c ∧ c ≤ 90 then c + 32 else c

/-- The digits after the point, of which there may be none. -/
def matchPoint : PyText → GoString × PyText
  | [] => ([], [])
  | c :: s => if c = 46 then spanDigits s else ([], c :: s)

/-- `PyOS_string_to_double`, on the whole text. -/
def readDouble (s : PyText) : Option PyFloat :=
  let (neg, t) := matchSign s
  if t.map lowerChar = word "inf" ∨ t.map lowerChar = word "infinity" then some (.inf neg)
  else if t.map lowerChar = word "nan" then some .nan
  else
    let (whole, u) := spanDigits t
    let (fraction, v) := matchPoint u
    let (exponent, rest) := matchExponent v
    if whole ++ fraction = [] ∨ rest ≠ [] then none
    else some (toFloat neg
      (digitsValue (whole ++ fraction) * 10 ^ (exponent.getD 0 - fraction.length)))

/-- `float(s)` -/
def floatOfText (u : UnicodeData) (s : PyText) : Option PyFloat :=
  (dropUnderscores 0 (((s.map (asciiOf u)).dropWhile isSpaceC).rdropWhile isSpaceC)).bind readDouble

/-- `float(v)` -/
def floatOf (u : UnicodeData) : Value → Except PyException PyFloat
  | .bool b => .ok (toFloat false (if b then 1 else 0))
  | .int n =>
    match toFloat (decide (n < 0)) n.natAbs with
    | .finite x => .ok (.finite x)
    | _ => .error .overflowError
  | .float x => .ok x
  | .str s =>
    match floatOfText u s with
    | some x => .ok x
    | none => .error .valueError
  | _ => .error .typeError

def signed (x : Float64) : ℚ := if x.neg then -x.abs else x.abs

/-- `x <= y` -/
def PyFloat.le : PyFloat → PyFloat → Bool
  | .finite x, .finite y => signed x ≤ signed y
  | .inf true, y => y ≠ .nan
  | x, .inf false => x ≠ .nan
  | _, _ => false

/-- `x < y` -/
def PyFloat.lt (x y : PyFloat) : Bool := x.le y && !y.le x

/-! ### `tuple` and `dict` -/

/-- `tuple(v)` -/
def tupleOf : Value → Except PyException (List Value)
  | .str s => .ok (s.map fun c => .str [c])
  | .array items => .ok items
  | .object items => .ok (items.map fun p => .str p.1)
  | _ => .error .typeError

/-- `tuple(v or ())` -/
def tupleOrEmpty (v : Option Value) : Except PyException (List Value) :=
  match v with
  | none => .ok []
  | some v => if v.truthy then tupleOf v else .ok []

/-- What keys of a `dict` are compared by. -/
inductive DictKey where
  | none
  | number (q : ℚ)
  | inf (neg : Bool)
  | nan
  | str (s : PyText)
deriving DecidableEq

def dictKey : Value → Option DictKey
  | .null => some .none
  | .bool b => some (.number (if b then 1 else 0))
  | .int n => some (.number n)
  | .float (.finite x) => some (.number (signed x))
  | .float (.inf neg) => some (.inf neg)
  | .float .nan => some .nan
  | .str s => some (.str s)
  | _ => none

/-- `d[key] = v` of a `dict` with keys of any type. -/
def setKey (items : List (Value × Value)) (key v : Value) : List (Value × Value) :=
  if items.any fun p => dictKey p.1 = dictKey key then
    items.map fun p => if dictKey p.1 = dictKey key then (p.1, v) else p
  else items ++ [(key, v)]

/-- `dict` of a sequence of pairs. -/
def dictOfPairs (d : List (Value × Value)) :
    List Value → Except PyException (List (Value × Value))
  | [] => .ok d
  | pair :: pairs =>
    (tupleOf pair).bind fun items =>
      match items with
      | [key, v] => if (dictKey key).isSome then dictOfPairs (setKey d key v) pairs
          else .error .typeError
      | _ => .error .valueError

/-- `dict(v or {})` -/
def dictOrEmpty (v : Option Value) : Except PyException (List (Value × Value)) :=
  match v with
  | none => .ok []
  | some v =>
    if v.truthy then
      match v with
      | .object items => .ok (items.map fun p => (.str p.1, p.2))
      | v => (tupleOf v).bind (dictOfPairs [])
    else .ok []

end Persatrix.PyJson
