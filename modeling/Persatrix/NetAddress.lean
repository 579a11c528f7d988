import Persatrix.Decimal
import Persatrix.Utf8

/-!
# Addresses of the network

What package `net` reads as an address and how it writes one. An address is its sixteen bytes, an
IPv4 address with the twelve bytes that mark it in front.
-/
namespace Persatrix.Net

abbrev IP := List UInt8

def colon : UInt8 := 58
def comma : UInt8 := 44
def dot : UInt8 := 46
def percent : UInt8 := 37
def openBracket : UInt8 := 91
def closeBracket : UInt8 := 93

/-! ### Texts -/

def Piece.bytes : Piece → GoString
  | .char c => c
  | .invalid b => [b]

/-- The encodings of the characters that are white space in Unicode. -/
def isSpace : Piece → Bool
  | .char [b] => b = 32 || (9 ≤ b && b ≤ 13)
  | .char [a, b] => a = 0xC2 && (b = 0x85 || b = 0xA0)
  | .char [0xE1, b, c] => b = 0x9A && c = 0x80
  | .char [0xE2, b, c] =>
    (b = 0x80 && ((0x80 ≤ c && c ≤ 0x8A) || c = 0xA8 || c = 0xA9 || c = 0xAF)) ||
      (b = 0x81 && c = 0x9F)
  | .char [0xE3, b, c] => b = 0x80 && c = 0x80
  | _ => false

def trimSpace (s : GoString) : GoString :=
  ((((pieces s).dropWhile isSpace).reverse.dropWhile isSpace).reverse).flatMap Piece.bytes

/-- The host and the port of an address, nothing where they are not told apart. -/
def splitHostPort (hostport : GoString) : Option (GoString × GoString) :=
  match cutLast colon hostport, hostport with
  | some (before, port), b :: rest =>
    if b = openBracket then
      let host := rest.takeWhile (· ≠ closeBracket)
      if before ≠ openBracket :: host ++ [closeBracket] then none
      else if openBracket ∈ rest ∨ closeBracket ∈ port then none
      else some (host, port)
    else if colon ∈ before then none
    else if openBracket ∈ hostport ∨ closeBracket ∈ hostport then none
    else some (before, port)
  | _, _ => none

/-! ### Reading an address -/

def v4InV6Prefix : IP := List.replicate 10 0 ++ [0xFF, 0xFF]

def parseIPv4Field (s : GoString) : Option UInt8 :=
  if s = [] ∨ !s.all isDigit then none
  else if 1 < s.length ∧ s.head? = some (digit 0) then none
  else if 255 < digitsValue s then none
  else some (UInt8.ofNat (digitsValue s))

def parseIPv4Fields (s : GoString) : Option IP :=
  let fields := s.splitOn dot
  if fields.length = 4 then fields.mapM parseIPv4Field else none

def hexValue (b : UInt8) : Option ℕ :=
  if 48 ≤ b ∧ b ≤ 57 then some (b.toNat - 48)
  else if 97 ≤ b ∧ b ≤ 102 then some (b.toNat - 87)
  else if 65 ≤ b ∧ b ≤ 70 then some (b.toNat - 55)
  else none

def hexDigits (s : GoString) : GoString := s.takeWhile fun b => (hexValue b).isSome

def hexNumber (s : GoString) : ℕ := s.foldl (fun n b => n * 16 + (hexValue b).getD 0) 0

/-- The groups of an IPv6 address from the one at a position on, with what was read and the
position of the two colons; `turns` groups have room. -/
def parseGroups : ℕ → GoString → IP → Option ℕ → Option (IP × Option ℕ)
  | 0, s, ip, ellipsis => if s = [] then some (ip, ellipsis) else none
  | turns + 1, s, ip, ellipsis =>
    let group := hexDigits s
    let rest := s.drop group.length
    if group = [] ∨ 4 < group.length then none
    else if rest.head? = some dot then
      if (ellipsis = none ∧ ip.length ≠ 12) ∨ 12 < ip.length then none
      else (parseIPv4Fields s).map fun fields => (ip ++ fields, ellipsis)
    else
      let ip := ip ++ bigEndian 2 (hexNumber group)
      match rest with
      | [] => some (ip, ellipsis)
      | b :: rest =>
        if b ≠ colon ∨ rest = [] then none
        else if rest.head? = some colon then
          if ellipsis.isSome then none
          else if rest.tail = [] then some (ip, some ip.length)
          else parseGroups turns rest.tail ip (some ip.length)
        else parseGroups turns rest ip ellipsis

/-- Sixteen bytes, with zeros in the place of the two colons. -/
def expand : IP × Option ℕ → Option IP
  | (ip, none) => if ip.length = 16 then some ip else none
  | (ip, some position) =>
    if 16 ≤ ip.length then none
    else some (ip.take position ++ List.replicate (16 - ip.length) 0 ++ ip.drop position)

def parseIPv6 (s : GoString) : Option IP :=
  if s.take 2 = [colon, colon] then
    if s.drop 2 = [] then some (List.replicate 16 0)
    else (parseGroups 8 (s.drop 2) [] (some 0)).bind expand
  else (parseGroups 8 s [] none).bind expand

/-- An address with a zone is none. -/
def parseIP (s : GoString) : Option IP :=
  match s.find? fun b => b = dot ∨ b = colon ∨ b = percent with
  | none => none
  | some b =>
    if percent ∈ s then none
    else if b = dot then (parseIPv4Fields s).map (v4InV6Prefix ++ ·)
    else parseIPv6 s

/-! ### Writing an address -/

/-- The four bytes of an address of IPv4. -/
def to4 (ip : IP) : Option IP :=
  if ip.length = 4 then some ip
  else if ip.length = 16 ∧ ip.take 12 = v4InV6Prefix then some (ip.drop 12)
  else none

def group (ip : IP) (i : ℕ) : ℕ := bigEndianValue ((ip.drop (2 * i)).take 2)

/-- How many groups from the one at a position on are zero. -/
def zeros (ip : IP) (i : ℕ) : ℕ := ((List.range 8).drop i |>.takeWhile fun j => group ip j = 0).length

/-- The first longest run of two zero groups or more. -/
def zeroRun (ip : IP) : ℕ × ℕ :=
  (List.range 8).foldl (fun run i =>
    if 2 ≤ zeros ip i ∧ run.2 - run.1 < zeros ip i then (i, i + zeros ip i) else run) (255, 255)

def hexDigit (n : ℕ) : UInt8 := if n < 10 then UInt8.ofNat (48 + n) else UInt8.ofNat (87 + n)

def appendHex (n : ℕ) : GoString :=
  (if n = 0 then [0] else (Nat.digits 16 n).reverse).map hexDigit

def joinGroups (ip : IP) (positions : List ℕ) : GoString :=
  List.intercalate [colon] (positions.map fun i => appendHex (group ip i))

def string6 (ip : IP) : GoString :=
  let (first, past) := zeroRun ip
  if first = 255 then joinGroups ip (List.range 8)
  else joinGroups ip (List.range first) ++ [colon, colon] ++ joinGroups ip ((List.range 8).drop past)

def string4 (ip : IP) : GoString :=
  List.intercalate [dot] (ip.map fun b => decimal b.toNat)

/-- The canonical text of an address. -/
def ipString (ip : IP) : GoString := ((to4 ip).map string4).getD (string6 ip)

/-! ### Networks -/

structure IPNet where
  ip : IP
  mask : List UInt8

def networkNumberAndMask (n : IPNet) : Option (IP × List UInt8) :=
  match to4 n.ip with
  | some ip =>
    if n.mask.length = 4 then some (ip, n.mask)
    else if n.mask.length = 16 then some (ip, n.mask.drop 12)
    else none
  | none =>
    if n.ip.length = 16 ∧ n.mask.length = 16 then some (n.ip, n.mask) else none

def IPNet.contains (n : IPNet) (ip : IP) : Bool :=
  let ip := (to4 ip).getD ip
  match networkNumberAndMask n with
  | none => ip.length = 0
  | some (number, mask) =>
    ip.length = number.length && ((number.zip mask).zip ip).all fun p =>
      p.1.1 &&& p.1.2 = p.2 &&& p.1.2

/-! ### The canonical text of an address of IPv4 is read back -/

/-! ### The groups of a text -/

variable {s : GoString} {n turns : ℕ} {ip : IP} {ellipsis : Option ℕ}

/-! ### The canonical text of an address of IPv6 is read back -/

variable {a : IP} {positions : List ℕ}

end Persatrix.Net
