import Mathlib.Data.List.Infix

/-!
# The checks on a fact

The canonical form of a subject, and the bounds on what may be stored as a subject or as an
object. The folding of case is that of the Unicode tables, and is a parameter.
-/
namespace Persatrix.Agents

/-- The predicates that hold one value at a time. -/
def singleValuedPredicates : List String := ["has_name", "has_age", "lives_in", "topic.owned_by"]

def maxSubjectChars : ℕ := 120
def maxObjectChars : ℕ := 400

/-- The code points that count as white space. -/
def isWhitespace (c : Char) : Bool :=
  let n := c.toNat
  (9 ≤ n && n ≤ 13) || (28 ≤ n && n ≤ 32) || n = 133 || n = 160 || n = 5760 ||
    (8192 ≤ n && n ≤ 8202) || n = 8232 || n = 8233 || n = 8239 || n = 8287 || n = 12288

def isControl (c : Char) : Bool :=
  let n := c.toNat
  n ≤ 31 || n = 127 || n = 133 || n = 8232 || n = 8233

def strip (s : String) : String :=
  String.ofList (((s.toList.dropWhile isWhitespace).reverse.dropWhile isWhitespace).reverse)

/-- The text is empty, or is it once stripped. -/
def blank (s : String) : Bool := strip s = ""

/-- The words between the runs of white space; the first argument is the word that has begun. -/
def splitWords : List Char → List Char → List (List Char)
  | word, [] => if word = [] then [] else [word]
  | word, c :: cs =>
    if isWhitespace c then if word = [] then splitWords [] cs else word :: splitWords [] cs
    else splitWords (word ++ [c]) cs

def canonicalizeSubject (casefold : String → String) (raw : String) : Except String String :=
  if blank raw then .error "subject must not be empty"
  else
    .ok (String.intercalate " "
      ((splitWords [] (casefold (strip raw)).toList).map String.ofList))

/-- An external data delimiter, open or closed, begins at the text. -/
def delimiterAt : List Char → Bool
  | '<' :: cs =>
    let cs := cs.dropWhile isWhitespace
    let cs := if cs.head? = some '/' then cs.tail.dropWhile isWhitespace else cs
    "external_data".toList.isPrefixOf (cs.map Char.toLower)
  | _ => false

def hasDelimiter (s : String) : Bool := s.toList.tails.any delimiterAt

def validateSubject (subject : String) : Except String Unit :=
  if maxSubjectChars < subject.length then
    .error ("subject exceeds " ++ toString maxSubjectChars ++
      " chars (topic amendment blast-radius bound)")
  else if subject.toList.any isControl then
    .error "subject must not contain control characters (topic amendment blast-radius bound)"
  else if hasDelimiter subject then
    .error "subject must not contain an external_data delimiter (RFC 0009 envelope escape)"
  else .ok ()

def validateObject (value : String) : Except String Unit :=
  if blank value then .error "object must not be empty"
  else if maxObjectChars < value.length then
    .error ("object exceeds " ++ toString maxObjectChars ++
      " chars (topic amendment blast-radius bound)")
  else if value.toList.any isControl then
    .error "object must not contain control characters (fabricated-section-header escape)"
  else if hasDelimiter value then
    .error "object must not contain an external_data delimiter (RFC 0009 envelope escape)"
  else .ok ()

end Persatrix.Agents
