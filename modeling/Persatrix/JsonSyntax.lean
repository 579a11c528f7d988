import Persatrix.Float64
import Persatrix.Utf8
import Mathlib.Data.List.TakeWhile

/-!
# The syntax of JSON

A document keeps its string literals and number tokens as they are written; only blanks are
lost. What a compact document is written as is read back as it, in front of anything that does
not continue a number, and what is read stays so when more is appended.
-/
namespace Persatrix.Json

def quote : UInt8 := 34
def backslash : UInt8 := 92
def comma : UInt8 := 44
def colon : UInt8 := 58
def openBrace : UInt8 := 123
def closeBrace : UInt8 := 125
def openBracket : UInt8 := 91
def closeBracket : UInt8 := 93

def isSpace (b : UInt8) : Bool := b = 32 || b = 9 || b = 10 || b = 13

def isHex (b : UInt8) : Bool :=
  isDigit b || 65 ≤ b.toNat && b.toNat ≤ 70 || 97 ≤ b.toNat && b.toNat ≤ 102

def isEscape (b : UInt8) : Bool := (ascii "bfnrt\\/\"").elem b

def isNumberByte (b : UInt8) : Bool := isDigit b || (ascii "+-.eE").elem b

/-- Where a string literal is read: between characters, after a backslash, or before that many
more hexadecimal digits than one. -/
inductive StringState where
  | plain
  | escape
  | hex (more : ℕ)

inductive StringStep where
  | stop
  | fail
  | go (next : StringState)

def StringState.step : StringState → UInt8 → StringStep
  | .plain, b =>
    if b = quote then .stop
    else if b = backslash then .go .escape
    else if b.toNat < 0x20 then .fail
    else .go .plain
  | .escape, b => if b = 117 then .go (.hex 3) else if isEscape b then .go .plain else .fail
  | .hex 0, b => if isHex b then .go .plain else .fail
  | .hex (more + 1), b => if isHex b then .go (.hex more) else .fail

/-- The rest of a string literal up to its closing quote, and what follows. -/
def scanString (state : StringState) : GoString → Option (GoString × GoString)
  | [] => none
  | b :: s =>
    match state.step b with
    | .stop => some ([], s)
    | .fail => none
    | .go next => (scanString next s).map fun p => (b :: p.1, p.2)

theorem step_stop {state : StringState} {b : UInt8} (h : state.step b = .stop) : b = quote := by
  unfold StringState.step at h
  split at h
  · split_ifs at h with hquote
    exact hquote
  · split_ifs at h
  · split_ifs at h
  · split_ifs at h

/-- What is scanned as a literal is one in front of anything else. -/
theorem scanString_replace {state : StringState} {s lit rest : GoString}
    (h : scanString state s = some (lit, rest)) :
    s = lit ++ quote :: rest ∧ ∀ t, scanString state (lit ++ quote :: t) = some (lit, t) := by
  induction s generalizing state lit with
  | nil => cases h
  | cons b s ih =>
    rw [scanString] at h
    cases hstep : state.step b with
    | stop =>
      rw [hstep] at h
      cases h
      have hb := step_stop hstep
      subst hb
      refine ⟨rfl, ?_⟩
      intro t
      rw [List.nil_append, scanString, hstep]
    | fail =>
      rw [hstep] at h
      cases h
    | go next =>
      rw [hstep] at h
      obtain ⟨⟨lit', rest'⟩, hrest, hp⟩ := Option.map_eq_some_iff.mp h
      cases hp
      obtain ⟨hs, hreplace⟩ := ih hrest
      refine ⟨by rw [hs, List.cons_append], ?_⟩
      intro t
      rw [List.cons_append, scanString, hstep]
      dsimp only
      rw [hreplace t, Option.map_some]

/-- What stands between the quotes of a string literal. -/
def StringLit := {s : GoString // scanString .plain (s ++ [quote]) = some (s, [])}

/-- A token that is read as a number. -/
def NumberLit := {s : GoString // (readNumber s).isSome}

def scanLit (s : GoString) : Option (StringLit × GoString) :=
  match h : scanString .plain s with
  | none => none
  | some (lit, rest) => some (⟨lit, (scanString_replace h).2 []⟩, rest)

theorem scanLit_eq_some_iff {s : GoString} {lit : StringLit} {rest : GoString} :
    scanLit s = some (lit, rest) ↔ s = lit.1 ++ quote :: rest := by
  constructor
  · intro h
    unfold scanLit at h
    split at h
    · cases h
    · rename_i hscan
      cases h
      exact (scanString_replace hscan).1
  · intro h
    have hscan : scanString .plain s = some (lit.1, rest) := by
      rw [h]
      exact (scanString_replace lit.2).2 rest
    unfold scanLit
    split
    · rename_i hnone
      rw [hscan] at hnone
      cases hnone
    · rename_i hsome
      rw [hscan] at hsome
      cases hsome
      rfl

inductive Doc where
  | null
  | bool (b : Bool)
  | number (n : NumberLit)
  | string (s : StringLit)
  | array (elems : List Doc)
  | object (members : List (StringLit × Doc))

def stringText (s : StringLit) : GoString := quote :: (s.1 ++ [quote])

mutual
/-- The compact text of a document. -/
def render : Doc → GoString
  | .null => ascii "null"
  | .bool true => ascii "true"
  | .bool false => ascii "false"
  | .number n => n.1
  | .string s => stringText s
  | .array elems => openBracket :: (renderElems elems ++ [closeBracket])
  | .object members => openBrace :: (renderMembers members ++ [closeBrace])

def renderElems : List Doc → GoString
  | [] => []
  | d :: ds => render d ++ (if ds.isEmpty then [] else comma :: renderElems ds)

def renderMembers : List (StringLit × Doc) → GoString
  | [] => []
  | (key, d) :: ms =>
    stringText key ++ colon :: render d ++ (if ms.isEmpty then [] else comma :: renderMembers ms)
end

mutual
/-- How deep the containers of a document are nested. -/
def Doc.depth : Doc → ℕ
  | .array elems => elemsDepth elems + 1
  | .object members => membersDepth members + 1
  | _ => 0

def elemsDepth : List Doc → ℕ
  | [] => 0
  | d :: ds => max d.depth (elemsDepth ds)

def membersDepth : List (StringLit × Doc) → ℕ
  | [] => 0
  | (_, d) :: ms => max d.depth (membersDepth ms)
end

/-- The first byte that is no blank, and what follows it. -/
def next (s : GoString) : Option (UInt8 × GoString) :=
  match s.dropWhile isSpace with
  | [] => none
  | b :: t => some (b, t)

def expect (b : UInt8) (s : GoString) : Option GoString :=
  (next s).bind fun p => if p.1 = b then some p.2 else none

def readWord (word : GoString) (d : Doc) (s : GoString) : Option (Doc × GoString) :=
  if s.take word.length = word then some (d, s.drop word.length) else none

def readNumberLit (s : GoString) : Option (Doc × GoString) :=
  if h : (readNumber (s.takeWhile isNumberByte)).isSome then
    some (.number ⟨s.takeWhile isNumberByte, h⟩, s.dropWhile isNumberByte)
  else none

mutual
/-- Reads a value, in at most the given number of turns and with containers nested at most as
deep as given. -/
def parseValue : ℕ → ℕ → GoString → Option (Doc × GoString)
  | 0, _, _ => none
  | turns + 1, depth, s =>
    (next s).bind fun (b, t) =>
      if b = openBrace then
        if depth = 0 then none
        else
          (next t).bind fun (c, u) =>
            if c = closeBrace then some (.object [], u)
            else (parseMembers turns (depth - 1) t).map fun p => (.object p.1, p.2)
      else if b = openBracket then
        if depth = 0 then none
        else
          (next t).bind fun (c, u) =>
            if c = closeBracket then some (.array [], u)
            else (parseElems turns (depth - 1) t).map fun p => (.array p.1, p.2)
      else if b = quote then (scanLit t).map fun p => (.string p.1, p.2)
      else if b = 110 then readWord (ascii "ull") .null t
      else if b = 116 then readWord (ascii "rue") (.bool true) t
      else if b = 102 then readWord (ascii "alse") (.bool false) t
      else readNumberLit (b :: t)

def parseElems : ℕ → ℕ → GoString → Option (List Doc × GoString)
  | 0, _, _ => none
  | turns + 1, depth, s =>
    (parseValue turns depth s).bind fun (d, t) =>
      (next t).bind fun (b, u) =>
        if b = closeBracket then some ([d], u)
        else if b = comma then (parseElems turns depth u).map fun p => (d :: p.1, p.2)
        else none

def parseMembers : ℕ → ℕ → GoString → Option (List (StringLit × Doc) × GoString)
  | 0, _, _ => none
  | turns + 1, depth, s =>
    (expect quote s).bind fun t =>
      (scanLit t).bind fun (key, u) =>
        (expect colon u).bind fun v =>
          (parseValue turns depth v).bind fun (d, w) =>
            (next w).bind fun (b, x) =>
              if b = closeBrace then some ([(key, d)], x)
              else if b = comma then
                (parseMembers turns depth x).map fun p => ((key, d) :: p.1, p.2)
              else none
end

/-- The number of containers that may be open. -/
def maxNestingDepth : ℕ := 10000

/-- Reads the value at the beginning of a text. -/
def parse (s : GoString) : Option (Doc × GoString) := parseValue (s.length + 1) maxNestingDepth s

/-! ### What is written is read back -/

theorem next_cons {b : UInt8} (h : isSpace b = false) (s : GoString) :
    next (b :: s) = some (b, s) := by
  rw [next, List.dropWhile_cons_of_neg (by simp [h])]

theorem expect_cons {b : UInt8} (h : isSpace b = false) (s : GoString) :
    expect b (b :: s) = some s := by
  rw [expect, next_cons h, Option.bind_some, if_pos rfl]

theorem isNumberByte_of_isDigit {b : UInt8} (h : isDigit b = true) : isNumberByte b = true := by
  rw [isNumberByte, h, Bool.true_or]

theorem readDigits_bytes {s : GoString} {n : ℕ} (h : readDigits s = some n) :
    ∀ b ∈ s, isNumberByte b = true := by
  unfold readDigits at h
  split_ifs at h with hs
  intro b hb
  exact isNumberByte_of_isDigit (List.all_eq_true.mp hs.2 b hb)

theorem readExponent_bytes {s : GoString} {e : ℤ} (h : readExponent s = some e) :
    ∀ b ∈ s, isNumberByte b = true := by
  cases s with
  | nil => simp
  | cons b s =>
    unfold readExponent at h
    dsimp only at h
    split_ifs at h with hb
    have hexp : isNumberByte b = true := by
      rcases hb with rfl | rfl
      · rfl
      · rfl
    cases s with
    | nil => cases h
    | cons c t =>
      dsimp only at h
      have hrest : ∀ x ∈ c :: t, isNumberByte x = true := by
        split_ifs at h with hminus hplus
        · obtain ⟨n, hn, -⟩ := Option.map_eq_some_iff.mp h
          rw [List.forall_mem_cons, hminus]
          exact ⟨rfl, readDigits_bytes hn⟩
        · obtain ⟨n, hn, -⟩ := Option.map_eq_some_iff.mp h
          rw [List.forall_mem_cons, hplus]
          exact ⟨rfl, readDigits_bytes hn⟩
        · obtain ⟨n, hn, -⟩ := Option.map_eq_some_iff.mp h
          exact readDigits_bytes hn
      rw [List.forall_mem_cons]
      exact ⟨hexp, hrest⟩

theorem mem_takeWhile_digits {s : GoString} {b : UInt8} (h : b ∈ s.takeWhile isDigit) :
    isNumberByte b = true :=
  isNumberByte_of_isDigit (List.mem_takeWhile_imp h)

theorem readFraction_bytes {s f t : GoString} (h : readFraction s = some (f, t))
    (ht : ∀ b ∈ t, isNumberByte b = true) : ∀ b ∈ s, isNumberByte b = true := by
  cases s with
  | nil => simp
  | cons b s =>
    rw [readFraction] at h
    split_ifs at h with hpoint hnone
    · cases h
      rw [List.forall_mem_cons, hpoint]
      refine ⟨rfl, ?_⟩
      intro c hc
      rw [← List.takeWhile_append_dropWhile (p := isDigit) (l := s)] at hc
      rcases List.mem_append.mp hc with hc | hc
      · exact mem_takeWhile_digits hc
      · exact ht c hc
    · cases h
      exact ht

theorem readNumber_parts {s : GoString} (h : (readNumber s).isSome) :
    ∃ i t, s = (if (readSign s).1 then [minus] else []) ++ (i ++ t) ∧ i ≠ [] ∧
      (∀ b ∈ i, isDigit b = true) ∧ ∀ b ∈ t, isNumberByte b = true := by
  obtain ⟨n, hn⟩ := Option.isSome_iff_exists.mp h
  unfold readNumber at hn
  dsimp only at hn
  split_ifs at hn with hfirst
  rw [not_or] at hfirst
  refine ⟨(readSign s).2.takeWhile isDigit, (readSign s).2.dropWhile isDigit, ?_, hfirst.1, ?_, ?_⟩
  · rw [List.takeWhile_append_dropWhile]
    cases s with
    | nil => rfl
    | cons b s =>
      by_cases hb : b = minus
      · rw [readSign, if_pos hb, hb]
        rfl
      · rw [readSign, if_neg hb]
        rfl
  · intro b hb
    exact List.mem_takeWhile_imp hb
  · cases hfraction : readFraction ((readSign s).2.dropWhile isDigit) with
    | none =>
      rw [hfraction] at hn
      cases hn
    | some p =>
      rw [hfraction] at hn
      obtain ⟨e, he, -⟩ := Option.map_eq_some_iff.mp hn
      exact readFraction_bytes hfraction (readExponent_bytes he)

theorem numberLit_bytes (n : NumberLit) : ∀ b ∈ n.1, isNumberByte b = true := by
  obtain ⟨i, t, hs, -, hi, ht⟩ := readNumber_parts n.2
  intro b hb
  rw [hs] at hb
  rcases List.mem_append.mp hb with hb | hb
  · split_ifs at hb
    · rw [List.mem_singleton.mp hb]
      rfl
    · cases hb
  · rcases List.mem_append.mp hb with hb | hb
    · exact isNumberByte_of_isDigit (hi b hb)
    · exact ht b hb

theorem numberLit_head (n : NumberLit) :
    ∃ b s, n.1 = b :: s ∧ (b = minus ∨ isDigit b = true) := by
  obtain ⟨i, t, hs, hne, hi, -⟩ := readNumber_parts n.2
  cases i with
  | nil => exact absurd rfl hne
  | cons b i =>
    split_ifs at hs
    · exact ⟨minus, _, hs, .inl rfl⟩
    · exact ⟨b, _, hs, .inr (hi b (List.mem_cons_self ..))⟩

/-- Nothing that follows continues a number. -/
def Ends (rest : GoString) : Prop := ∀ b, rest.head? = some b → isNumberByte b = false

theorem ends_cons {b : UInt8} {s : GoString} (h : isNumberByte b = false) : Ends (b :: s) := by
  intro c hc
  cases hc
  exact h

theorem ends_nil : Ends [] := by
  intro b hb
  cases hb

theorem takeWhile_numberLit (n : NumberLit) {rest : GoString} (h : Ends rest) :
    (n.1 ++ rest).takeWhile isNumberByte = n.1 ∧ (n.1 ++ rest).dropWhile isNumberByte = rest := by
  have hrest : rest.takeWhile isNumberByte = [] ∧ rest.dropWhile isNumberByte = rest := by
    cases rest with
    | nil => exact ⟨rfl, rfl⟩
    | cons b rest =>
      have hb := h b rfl
      exact ⟨List.takeWhile_cons_of_neg (by simp [hb]), List.dropWhile_cons_of_neg (by simp [hb])⟩
  rw [List.takeWhile_append_of_pos (numberLit_bytes n), List.dropWhile_append_of_pos
    (numberLit_bytes n), hrest.1, hrest.2, List.append_nil]
  exact ⟨rfl, rfl⟩

theorem readNumberLit_append (n : NumberLit) {rest : GoString} (h : Ends rest) :
    readNumberLit (n.1 ++ rest) = some (.number n, rest) := by
  obtain ⟨htake, hdrop⟩ := takeWhile_numberLit n h
  unfold readNumberLit
  simp only [htake, hdrop, n.2, dif_pos]
  rfl

theorem readWord_append (word : GoString) (d : Doc) (rest : GoString) :
    readWord word d (word ++ rest) = some (d, rest) := by
  unfold readWord
  rw [List.take_left', List.drop_left', if_pos rfl]
  · rfl
  · rfl

theorem digit_or_minus_ne {b c : UInt8} (h : b = minus ∨ isDigit b = true)
    (hminus : c ≠ minus) (hdigit : isDigit c = false) : b ≠ c := by
  intro hbc
  rcases h with hb | hb
  · exact hminus (hbc.symm.trans hb)
  · rw [hbc, hdigit] at hb
    cases hb

/-- A value begins with no blank and no closing bracket. -/
theorem render_head (d : Doc) :
    ∃ b s, render d = b :: s ∧ isSpace b = false ∧ b ≠ closeBracket ∧ b ≠ closeBrace := by
  cases d with
  | null => exact ⟨110, ascii "ull", rfl, rfl, by decide, by decide⟩
  | bool b =>
    cases b with
    | true => exact ⟨116, ascii "rue", rfl, rfl, by decide, by decide⟩
    | false => exact ⟨102, ascii "alse", rfl, rfl, by decide, by decide⟩
  | number n =>
    obtain ⟨b, s, hs, hb⟩ := numberLit_head n
    have hspace : isSpace b = false := by
      rw [isSpace]
      simp only [Bool.or_eq_false_iff, decide_eq_false_iff_not]
      have hne := fun c => @digit_or_minus_ne b c hb
      exact ⟨⟨⟨hne 32 (by decide) rfl, hne 9 (by decide) rfl⟩, hne 10 (by decide) rfl⟩,
        hne 13 (by decide) rfl⟩
    exact ⟨b, s, by rw [render, hs], hspace, digit_or_minus_ne hb (by decide) rfl,
      digit_or_minus_ne hb (by decide) rfl⟩
  | string s => exact ⟨quote, _, rfl, rfl, by decide, by decide⟩
  | array elems => exact ⟨openBracket, _, rfl, rfl, by decide, by decide⟩
  | object members => exact ⟨openBrace, _, rfl, rfl, by decide, by decide⟩

theorem renderElems_cons (d : Doc) (ds : List Doc) (rest : GoString) :
    renderElems (d :: ds) ++ closeBracket :: rest =
      render d ++ (if ds.isEmpty then closeBracket :: rest
        else comma :: (renderElems ds ++ closeBracket :: rest)) := by
  rw [renderElems, List.append_assoc]
  split_ifs <;> rfl

theorem renderMembers_cons (key : StringLit) (d : Doc) (ms : List (StringLit × Doc))
    (rest : GoString) :
    renderMembers ((key, d) :: ms) ++ closeBrace :: rest =
      quote :: (key.1 ++ quote :: colon :: (render d ++ (if ms.isEmpty then closeBrace :: rest
        else comma :: (renderMembers ms ++ closeBrace :: rest)))) := by
  rw [renderMembers, stringText]
  split_ifs <;> simp

theorem scanLit_append (key : StringLit) (rest : GoString) :
    scanLit (key.1 ++ quote :: rest) = some (key, rest) :=
  scanLit_eq_some_iff.mpr rfl

mutual
/-- The text of a document is read back as the document. -/
theorem parse_render : ∀ (d : Doc) {turns depth : ℕ} {rest : GoString},
    (render d).length ≤ turns → d.depth ≤ depth → Ends rest →
      parseValue turns depth (render d ++ rest) = some (d, rest)
  | .null, turns, depth, rest, hturns, _, _ => by
    cases turns with
    | zero => cases hturns
    | succ turns => exact readWord_append (ascii "ull") .null rest
  | .bool true, turns, depth, rest, hturns, _, _ => by
    cases turns with
    | zero => cases hturns
    | succ turns => exact readWord_append (ascii "rue") (.bool true) rest
  | .bool false, turns, depth, rest, hturns, _, _ => by
    cases turns with
    | zero => cases hturns
    | succ turns => exact readWord_append (ascii "alse") (.bool false) rest
  | .number n, turns, depth, rest, hturns, _, hends => by
    obtain ⟨b, s, hs, hb⟩ := numberLit_head n
    have hread := readNumberLit_append n hends
    have hspace : isSpace b = false := by
      obtain ⟨c, t, hc, hspace, -⟩ := render_head (.number n)
      rw [render, hs] at hc
      cases hc
      exact hspace
    cases turns with
    | zero =>
      rw [render, hs] at hturns
      cases hturns
    | succ turns =>
      rw [render]
      rw [hs, List.cons_append] at hread ⊢
      have hne := fun c => @digit_or_minus_ne b c hb
      rw [parseValue, next_cons hspace, Option.bind_some]
      dsimp only
      rw [if_neg (hne openBrace (by decide) rfl), if_neg (hne openBracket (by decide) rfl),
        if_neg (hne quote (by decide) rfl), if_neg (hne 110 (by decide) rfl),
        if_neg (hne 116 (by decide) rfl), if_neg (hne 102 (by decide) rfl)]
      exact hread
  | .string s, turns, depth, rest, hturns, _, _ => by
    cases turns with
    | zero => cases hturns
    | succ turns =>
      have htext : render (.string s) ++ rest = quote :: (s.1 ++ quote :: rest) := by
        simp [render, stringText]
      rw [htext, parseValue, next_cons rfl, Option.bind_some]
      dsimp only
      rw [if_neg (by decide), if_neg (by decide), if_pos rfl, scanLit_append]
      rfl
  | .array elems, turns, depth, rest, hturns, hdepth, _ => by
    cases turns with
    | zero => cases hturns
    | succ turns =>
      rw [render, List.length_cons] at hturns
      rw [Doc.depth] at hdepth
      have htext : render (.array elems) ++ rest =
          openBracket :: (renderElems elems ++ closeBracket :: rest) := by
        simp [render]
      rw [htext, parseValue, next_cons rfl, Option.bind_some]
      dsimp only
      rw [if_neg (by decide), if_pos rfl, if_neg (by omega)]
      cases elems with
      | nil =>
        rw [renderElems, List.nil_append, next_cons rfl, Option.bind_some]
        exact if_pos rfl
      | cons d ds =>
        obtain ⟨b, s, hs, hspace, hbracket, -⟩ := render_head d
        have hnext : next (renderElems (d :: ds) ++ closeBracket :: rest) =
            some (b, s ++ (if ds.isEmpty then closeBracket :: rest
              else comma :: (renderElems ds ++ closeBracket :: rest))) := by
          rw [renderElems_cons, hs, List.cons_append, next_cons hspace]
        rw [hnext, Option.bind_some]
        dsimp only
        rw [if_neg hbracket, parseElems_render (d :: ds) (by simp) (by omega) (by omega)]
        rfl
  | .object members, turns, depth, rest, hturns, hdepth, _ => by
    cases turns with
    | zero => cases hturns
    | succ turns =>
      rw [render, List.length_cons] at hturns
      rw [Doc.depth] at hdepth
      have htext : render (.object members) ++ rest =
          openBrace :: (renderMembers members ++ closeBrace :: rest) := by
        simp [render]
      rw [htext, parseValue, next_cons rfl, Option.bind_some]
      dsimp only
      rw [if_pos rfl, if_neg (by omega)]
      cases members with
      | nil =>
        rw [renderMembers, List.nil_append, next_cons rfl, Option.bind_some]
        exact if_pos rfl
      | cons m ms =>
        obtain ⟨key, d⟩ := m
        have hread : parseMembers turns (depth - 1)
            (renderMembers ((key, d) :: ms) ++ closeBrace :: rest) =
              some ((key, d) :: ms, rest) :=
          parseMembers_render ((key, d) :: ms) (by simp) (by omega) (by omega)
        rw [renderMembers_cons] at hread ⊢
        rw [next_cons rfl, Option.bind_some]
        dsimp only
        rw [if_neg (by decide), hread]
        rfl

theorem parseElems_render : ∀ (elems : List Doc) (_ : elems ≠ []) {turns depth : ℕ}
    {rest : GoString}, (renderElems elems ++ [closeBracket]).length ≤ turns →
      elemsDepth elems ≤ depth →
      parseElems turns depth (renderElems elems ++ closeBracket :: rest) = some (elems, rest)
  | [], hne, _, _, _, _, _ => absurd rfl hne
  | d :: ds, _, turns, depth, rest, hturns, hdepth => by
    have hlength : (renderElems (d :: ds) ++ [closeBracket]).length = (render d).length +
        (if ds.isEmpty then [closeBracket]
          else comma :: (renderElems ds ++ [closeBracket])).length := by
      rw [renderElems_cons, List.length_append]
    rw [hlength] at hturns
    rw [elemsDepth, max_le_iff] at hdepth
    cases turns with
    | zero =>
      cases ds with
      | nil => simp at hturns
      | cons e es => simp at hturns
    | succ turns =>
      rw [renderElems_cons, parseElems]
      cases ds with
      | nil =>
        simp only [List.isEmpty_nil, if_true] at hturns ⊢
        rw [List.length_singleton] at hturns
        rw [parse_render d (by omega) hdepth.1 (ends_cons rfl), Option.bind_some]
        dsimp only
        rw [next_cons rfl, Option.bind_some]
        exact if_pos rfl
      | cons e es =>
        simp only [List.isEmpty_cons, Bool.false_eq_true, if_false] at hturns ⊢
        rw [List.length_cons] at hturns
        rw [parse_render d (by omega) hdepth.1 (ends_cons rfl), Option.bind_some]
        dsimp only
        rw [next_cons rfl, Option.bind_some]
        dsimp only
        rw [if_neg (by decide), if_pos rfl,
          parseElems_render (e :: es) (by simp) (by omega) hdepth.2]
        rfl

theorem parseMembers_render : ∀ (members : List (StringLit × Doc)) (_ : members ≠ [])
    {turns depth : ℕ} {rest : GoString}, (renderMembers members ++ [closeBrace]).length ≤ turns →
      membersDepth members ≤ depth →
      parseMembers turns depth (renderMembers members ++ closeBrace :: rest) =
        some (members, rest)
  | [], hne, _, _, _, _, _ => absurd rfl hne
  | (key, d) :: ms, _, turns, depth, rest, hturns, hdepth => by
    rw [renderMembers_cons] at hturns
    simp only [List.length_cons, List.length_append] at hturns
    rw [membersDepth, max_le_iff] at hdepth
    cases turns with
    | zero => omega
    | succ turns =>
      rw [renderMembers_cons, parseMembers, expect_cons rfl, Option.bind_some, scanLit_append,
        Option.bind_some]
      dsimp only
      rw [expect_cons rfl, Option.bind_some]
      cases ms with
      | nil =>
        simp only [List.isEmpty_nil, if_true] at hturns ⊢
        rw [parse_render d (by omega) hdepth.1 (ends_cons rfl), Option.bind_some]
        dsimp only
        rw [next_cons rfl, Option.bind_some]
        exact if_pos rfl
      | cons e es =>
        simp only [List.isEmpty_cons, Bool.false_eq_true, if_false] at hturns ⊢
        simp only [List.length_cons] at hturns
        rw [parse_render d (by omega) hdepth.1 (ends_cons rfl), Option.bind_some]
        dsimp only
        rw [next_cons rfl, Option.bind_some]
        dsimp only
        rw [if_neg (by decide), if_pos rfl,
          parseMembers_render (e :: es) (by simp) (by omega) hdepth.2]
        rfl
end

theorem parse_render_append {d : Doc} {rest : GoString} (hdepth : d.depth ≤ maxNestingDepth)
    (hends : Ends rest) : parse (render d ++ rest) = some (d, rest) := by
  unfold parse
  apply parse_render d _ hdepth hends
  rw [List.length_append]
  omega

/-! ### What is read stays so when more is appended -/

theorem next_append {s t : GoString} {p : UInt8 × GoString} (h : next s = some p) :
    next (s ++ t) = some (p.1, p.2 ++ t) := by
  unfold next at h ⊢
  cases hs : s.dropWhile isSpace with
  | nil =>
    rw [hs] at h
    cases h
  | cons b u =>
    rw [hs] at h
    cases h
    rw [List.dropWhile_append, hs]
    rfl

theorem expect_append {b : UInt8} {s t u : GoString} (h : expect b s = some u) :
    expect b (s ++ t) = some (u ++ t) := by
  obtain ⟨p, hp, hb⟩ := Option.bind_eq_some_iff.mp h
  rw [expect, next_append hp, Option.bind_some]
  split_ifs at hb ⊢ with heq
  cases hb
  rfl

theorem scanLit_append_right {s t : GoString} {p : StringLit × GoString}
    (h : scanLit s = some p) : scanLit (s ++ t) = some (p.1, p.2 ++ t) := by
  obtain ⟨lit, rest⟩ := p
  have hs := scanLit_eq_some_iff.mp h
  apply scanLit_eq_some_iff.mpr
  rw [hs, List.append_assoc, List.cons_append]

theorem readWord_append_right {word s t : GoString} {d : Doc} {p : Doc × GoString}
    (h : readWord word d s = some p) : readWord word d (s ++ t) = some (p.1, p.2 ++ t) := by
  unfold readWord at h
  split_ifs at h with hword
  cases h
  have hs : s = word ++ s.drop word.length := by
    conv_lhs => rw [← List.take_append_drop word.length s, hword]
  have happend : s ++ t = word ++ (s.drop word.length ++ t) := by
    rw [← List.append_assoc, ← hs]
  rw [happend]
  exact readWord_append word d _

theorem readNumberLit_append_right {s t : GoString} {p : Doc × GoString}
    (h : readNumberLit s = some p) (hrest : p.2 ≠ []) :
    readNumberLit (s ++ t) = some (p.1, p.2 ++ t) := by
  unfold readNumberLit at h
  split_ifs at h with hnumber
  cases h
  have hends : Ends (s.dropWhile isNumberByte ++ t) := by
    intro b hb
    rw [List.head?_append_of_ne_nil _ hrest] at hb
    have hfirst := List.head?_dropWhile_not isNumberByte s
    rw [hb] at hfirst
    simpa using hfirst
  have happend : s ++ t = s.takeWhile isNumberByte ++ (s.dropWhile isNumberByte ++ t) := by
    rw [← List.append_assoc, List.takeWhile_append_dropWhile]
  rw [happend]
  exact readNumberLit_append ⟨_, hnumber⟩ hends

theorem parse_append : ∀ turns : ℕ,
    (∀ {turns' depth depth' : ℕ} {s t : GoString} {p : Doc × GoString}, turns ≤ turns' →
      depth ≤ depth' → parseValue turns depth s = some p →
        (p.2 ≠ [] ∨ ∃ members, p.1 = .object members) →
          parseValue turns' depth' (s ++ t) = some (p.1, p.2 ++ t)) ∧
    (∀ {turns' depth depth' : ℕ} {s t : GoString} {p : List Doc × GoString}, turns ≤ turns' →
      depth ≤ depth' → parseElems turns depth s = some p →
        parseElems turns' depth' (s ++ t) = some (p.1, p.2 ++ t)) ∧
    (∀ {turns' depth depth' : ℕ} {s t : GoString} {p : List (StringLit × Doc) × GoString},
      turns ≤ turns' → depth ≤ depth' → parseMembers turns depth s = some p →
        parseMembers turns' depth' (s ++ t) = some (p.1, p.2 ++ t)) := by
  intro turns
  induction turns with
  | zero =>
    refine ⟨?_, ?_, ?_⟩
    · intro _ _ _ _ _ _ _ _ h
      cases h
    · intro _ _ _ _ _ _ _ _ h
      cases h
    · intro _ _ _ _ _ _ _ _ h
      cases h
  | succ turns ih =>
    obtain ⟨ihvalue, ihelems, ihmembers⟩ := ih
    refine ⟨?_, ?_, ?_⟩
    · intro turns' depth depth' s t p hturns hdepths h hrest
      cases turns' with
      | zero => omega
      | succ turns' =>
        have hle : turns ≤ turns' := by omega
        rw [parseValue] at h
        obtain ⟨⟨b, u⟩, hnext, h⟩ := Option.bind_eq_some_iff.mp h
        rw [parseValue, next_append hnext, Option.bind_some]
        dsimp only at h ⊢
        split_ifs at h ⊢ with hbrace hno hno' hbracket hno hno' hquote hnull htrue hfalse
        · omega
        · obtain ⟨⟨c, v⟩, hc, h⟩ := Option.bind_eq_some_iff.mp h
          rw [next_append hc, Option.bind_some]
          dsimp only at h ⊢
          split_ifs at h ⊢ with hclose
          · cases h
            rfl
          · obtain ⟨q, hq, hp⟩ := Option.map_eq_some_iff.mp h
            rw [ihmembers hle (by omega) hq, ← hp]
            rfl
        · omega
        · obtain ⟨⟨c, v⟩, hc, h⟩ := Option.bind_eq_some_iff.mp h
          rw [next_append hc, Option.bind_some]
          dsimp only at h ⊢
          split_ifs at h ⊢ with hclose
          · cases h
            rfl
          · obtain ⟨q, hq, hp⟩ := Option.map_eq_some_iff.mp h
            rw [ihelems hle (by omega) hq, ← hp]
            rfl
        · obtain ⟨q, hq, hp⟩ := Option.map_eq_some_iff.mp h
          rw [scanLit_append_right hq, ← hp]
          rfl
        · exact readWord_append_right h
        · exact readWord_append_right h
        · exact readWord_append_right h
        · rcases hrest with hne | ⟨members, hobject⟩
          · exact readNumberLit_append_right h hne
          · unfold readNumberLit at h
            split_ifs at h
            cases h
            cases hobject
    · intro turns' depth depth' s t p hturns hdepths h
      cases turns' with
      | zero => omega
      | succ turns' =>
        have hle : turns ≤ turns' := by omega
        rw [parseElems] at h
        obtain ⟨⟨d, u⟩, hvalue, h⟩ := Option.bind_eq_some_iff.mp h
        obtain ⟨⟨b, v⟩, hnext, h⟩ := Option.bind_eq_some_iff.mp h
        have hne : u ≠ [] := by
          intro hnil
          subst hnil
          cases hnext
        rw [parseElems, ihvalue hle hdepths hvalue (.inl hne), Option.bind_some]
        dsimp only
        rw [next_append hnext, Option.bind_some]
        dsimp only at h ⊢
        split_ifs at h ⊢ with hclose hcomma
        · cases h
          rfl
        · obtain ⟨q, hq, hp⟩ := Option.map_eq_some_iff.mp h
          rw [ihelems hle hdepths hq, ← hp]
          rfl
    · intro turns' depth depth' s t p hturns hdepths h
      cases turns' with
      | zero => omega
      | succ turns' =>
        have hle : turns ≤ turns' := by omega
        rw [parseMembers] at h
        obtain ⟨u, hquote, h⟩ := Option.bind_eq_some_iff.mp h
        obtain ⟨⟨key, v⟩, hkey, h⟩ := Option.bind_eq_some_iff.mp h
        obtain ⟨w, hcolon, h⟩ := Option.bind_eq_some_iff.mp h
        obtain ⟨⟨d, x⟩, hvalue, h⟩ := Option.bind_eq_some_iff.mp h
        obtain ⟨⟨b, y⟩, hnext, h⟩ := Option.bind_eq_some_iff.mp h
        have hne : x ≠ [] := by
          intro hnil
          subst hnil
          cases hnext
        rw [parseMembers, expect_append hquote, Option.bind_some, scanLit_append_right hkey,
          Option.bind_some]
        dsimp only
        rw [expect_append hcolon, Option.bind_some, ihvalue hle hdepths hvalue (.inl hne),
          Option.bind_some]
        dsimp only
        rw [next_append hnext, Option.bind_some]
        dsimp only at h ⊢
        split_ifs at h ⊢ with hclose hcomma
        · cases h
          rfl
        · obtain ⟨q, hq, hp⟩ := Option.map_eq_some_iff.mp h
          rw [ihmembers hle hdepths hq, ← hp]
          rfl

/-- An object that is read stays so whatever is appended. -/
theorem parse_object_append {s t rest : GoString} {members : List (StringLit × Doc)}
    (h : parse s = some (.object members, rest)) :
    parse (s ++ t) = some (.object members, rest ++ t) := by
  unfold parse at h ⊢
  apply (parse_append (s.length + 1)).1 _ (Nat.le_refl _) h (.inr ⟨members, rfl⟩)
  rw [List.length_append]
  omega

/-! ### Containers are not nested deeper than allowed -/

theorem parse_depth : ∀ turns : ℕ,
    (∀ {depth : ℕ} {s : GoString} {p : Doc × GoString},
      parseValue turns depth s = some p → p.1.depth ≤ depth) ∧
    (∀ {depth : ℕ} {s : GoString} {p : List Doc × GoString},
      parseElems turns depth s = some p → elemsDepth p.1 ≤ depth) ∧
    (∀ {depth : ℕ} {s : GoString} {p : List (StringLit × Doc) × GoString},
      parseMembers turns depth s = some p → membersDepth p.1 ≤ depth) := by
  intro turns
  induction turns with
  | zero =>
    refine ⟨?_, ?_, ?_⟩
    · intro _ _ _ h
      cases h
    · intro _ _ _ h
      cases h
    · intro _ _ _ h
      cases h
  | succ turns ih =>
    obtain ⟨ihvalue, ihelems, ihmembers⟩ := ih
    refine ⟨?_, ?_, ?_⟩
    · intro depth s p h
      rw [parseValue] at h
      obtain ⟨⟨b, u⟩, -, h⟩ := Option.bind_eq_some_iff.mp h
      dsimp only at h
      split_ifs at h with hbrace hno hbracket hno hquote hnull htrue hfalse
      · obtain ⟨⟨c, v⟩, -, h⟩ := Option.bind_eq_some_iff.mp h
        dsimp only at h
        split_ifs at h
        · cases h
          rw [Doc.depth, membersDepth]
          omega
        · obtain ⟨q, hq, rfl⟩ := Option.map_eq_some_iff.mp h
          have hle := ihmembers hq
          dsimp only
          rw [Doc.depth]
          omega
      · obtain ⟨⟨c, v⟩, -, h⟩ := Option.bind_eq_some_iff.mp h
        dsimp only at h
        split_ifs at h
        · cases h
          rw [Doc.depth, elemsDepth]
          omega
        · obtain ⟨q, hq, rfl⟩ := Option.map_eq_some_iff.mp h
          have hle := ihelems hq
          dsimp only
          rw [Doc.depth]
          omega
      · obtain ⟨q, -, rfl⟩ := Option.map_eq_some_iff.mp h
        exact Nat.zero_le _
      · unfold readWord at h
        split_ifs at h
        cases h
        exact Nat.zero_le _
      · unfold readWord at h
        split_ifs at h
        cases h
        exact Nat.zero_le _
      · unfold readWord at h
        split_ifs at h
        cases h
        exact Nat.zero_le _
      · unfold readNumberLit at h
        split_ifs at h
        cases h
        exact Nat.zero_le _
    · intro depth s p h
      rw [parseElems] at h
      obtain ⟨⟨d, u⟩, hvalue, h⟩ := Option.bind_eq_some_iff.mp h
      obtain ⟨⟨b, v⟩, -, h⟩ := Option.bind_eq_some_iff.mp h
      have hd := ihvalue hvalue
      dsimp only at h hd
      split_ifs at h
      · cases h
        simpa [elemsDepth] using hd
      · obtain ⟨q, hq, rfl⟩ := Option.map_eq_some_iff.mp h
        exact max_le hd (ihelems hq)
    · intro depth s p h
      rw [parseMembers] at h
      obtain ⟨u, -, h⟩ := Option.bind_eq_some_iff.mp h
      obtain ⟨⟨key, v⟩, -, h⟩ := Option.bind_eq_some_iff.mp h
      obtain ⟨w, -, h⟩ := Option.bind_eq_some_iff.mp h
      obtain ⟨⟨d, x⟩, hvalue, h⟩ := Option.bind_eq_some_iff.mp h
      obtain ⟨⟨b, y⟩, -, h⟩ := Option.bind_eq_some_iff.mp h
      have hd := ihvalue hvalue
      dsimp only at h hd
      split_ifs at h
      · cases h
        simpa [membersDepth] using hd
      · obtain ⟨q, hq, rfl⟩ := Option.map_eq_some_iff.mp h
        exact max_le hd (ihmembers hq)

/-- A value that begins with a brace is an object. -/
theorem parseValue_object {turns depth : ℕ} {s rest : GoString} {d : Doc}
    (h : parseValue turns depth (openBrace :: s) = some (d, rest)) :
    ∃ members, d = .object members := by
  cases turns with
  | zero => cases h
  | succ turns =>
    rw [parseValue, next_cons rfl, Option.bind_some] at h
    dsimp only at h
    rw [if_pos rfl] at h
    split_ifs at h
    obtain ⟨⟨c, v⟩, -, h⟩ := Option.bind_eq_some_iff.mp h
    dsimp only at h
    split_ifs at h
    · cases h
      exact ⟨[], rfl⟩
    · obtain ⟨q, -, hq⟩ := Option.map_eq_some_iff.mp h
      cases hq
      exact ⟨q.1, rfl⟩

/-- The text of an object is read as the object, if it is read. -/
theorem parse_render_object {turns depth : ℕ} {members : List (StringLit × Doc)}
    {rest rest' : GoString} {d : Doc} (hends : Ends rest)
    (h : parseValue turns depth (render (.object members) ++ rest) = some (d, rest')) :
    d = .object members ∧ rest' = rest ∧ (Doc.object members).depth ≤ depth := by
  have hstart : ∃ s, render (.object members) ++ rest = openBrace :: s := ⟨_, rfl⟩
  obtain ⟨s, hs⟩ := hstart
  have hobject : ∃ ms, d = .object ms := by
    rw [hs] at h
    exact parseValue_object h
  have hmore := (parse_append _).1 (t := [])
    (Nat.le_max_left turns (render (.object members)).length)
    (Nat.le_max_left depth (Doc.object members).depth) h (.inr hobject)
  rw [List.append_nil, parse_render (.object members) (Nat.le_max_right _ _)
    (Nat.le_max_right _ _) hends] at hmore
  have heq := Prod.mk.inj (Option.some.inj hmore)
  rw [List.append_nil] at heq
  have hd : d = .object members := heq.1.symm
  have hdepth := (parse_depth _).1 h
  rw [hd] at hdepth
  exact ⟨hd, heq.2.symm, hdepth⟩

/-! ### What is written has no control characters -/

theorem step_go {state next : StringState} {b : UInt8} (h : state.step b = .go next) :
    0x20 ≤ b.toNat := by
  have hhex : isHex b = true → 0x20 ≤ b.toNat := by
    intro hb
    simp only [isHex, isDigit, Bool.or_eq_true, Bool.and_eq_true, decide_eq_true_eq] at hb
    omega
  unfold StringState.step at h
  split at h
  · split_ifs at h with hquote hback hlow
    · rw [hback]
      decide
    · omega
  · split_ifs at h with hu hescape
    · rw [hu]
      decide
    · have hbytes : ∀ c ∈ ascii "bfnrt\\/\"", 0x20 ≤ c.toNat := by
        intro c hc
        have hall : (ascii "bfnrt\\/\"").all (fun c => 0x20 ≤ c.toNat) = true := by decide
        simpa using List.all_eq_true.mp hall c hc
      exact hbytes b (List.elem_iff.mp hescape)
  · split_ifs at h with hb
    exact hhex hb
  · split_ifs at h with hb
    exact hhex hb

theorem scanString_bytes {state : StringState} {s rest lit : GoString}
    (h : scanString state s = some (lit, rest)) : ∀ b ∈ lit, 0x20 ≤ b.toNat := by
  induction s generalizing state lit with
  | nil => cases h
  | cons b s ih =>
    rw [scanString] at h
    cases hstep : state.step b with
    | stop =>
      rw [hstep] at h
      cases h
      simp
    | fail =>
      rw [hstep] at h
      cases h
    | go next =>
      rw [hstep] at h
      obtain ⟨⟨lit', rest'⟩, hrest, hp⟩ := Option.map_eq_some_iff.mp h
      cases hp
      rw [List.forall_mem_cons]
      exact ⟨step_go hstep, ih hrest⟩

theorem stringText_bytes (s : StringLit) : ∀ b ∈ stringText s, 0x20 ≤ b.toNat := by
  rw [stringText, List.forall_mem_cons, List.forall_mem_append, List.forall_mem_singleton]
  exact ⟨by decide, scanString_bytes s.2, by decide⟩

theorem isNumberByte_low {b : UInt8} (h : isNumberByte b = true) : 0x20 ≤ b.toNat := by
  rw [isNumberByte, Bool.or_eq_true] at h
  rcases h with h | h
  · simp only [isDigit, Bool.and_eq_true, decide_eq_true_eq] at h
    omega
  · have hall : (ascii "+-.eE").all (fun c => 0x20 ≤ c.toNat) = true := by decide
    simpa using List.all_eq_true.mp hall b (List.elem_iff.mp h)

theorem all_low {s : GoString} (h : s.all (fun b => 0x20 ≤ b.toNat) = true) :
    ∀ b ∈ s, 0x20 ≤ b.toNat := by
  intro b hb
  simpa using List.all_eq_true.mp h b hb

mutual
theorem render_bytes : ∀ d : Doc, ∀ b ∈ render d, 0x20 ≤ b.toNat
  | .null => all_low (by decide)
  | .bool true => all_low (by decide)
  | .bool false => all_low (by decide)
  | .number n => fun b hb => isNumberByte_low (numberLit_bytes n b hb)
  | .string s => stringText_bytes s
  | .array elems => by
    rw [render, List.forall_mem_cons, List.forall_mem_append, List.forall_mem_singleton]
    exact ⟨by decide, renderElems_bytes elems, by decide⟩
  | .object members => by
    rw [render, List.forall_mem_cons, List.forall_mem_append, List.forall_mem_singleton]
    exact ⟨by decide, renderMembers_bytes members, by decide⟩

theorem renderElems_bytes : ∀ ds : List Doc, ∀ b ∈ renderElems ds, 0x20 ≤ b.toNat
  | [] => by simp [renderElems]
  | d :: ds => by
    rw [renderElems, List.forall_mem_append]
    refine ⟨render_bytes d, ?_⟩
    split_ifs
    · simp
    · rw [List.forall_mem_cons]
      exact ⟨by decide, renderElems_bytes ds⟩

theorem renderMembers_bytes : ∀ ms : List (StringLit × Doc), ∀ b ∈ renderMembers ms,
    0x20 ≤ b.toNat
  | [] => by simp [renderMembers]
  | (key, d) :: ms => by
    rw [renderMembers, List.forall_mem_append, List.forall_mem_append, List.forall_mem_cons]
    refine ⟨⟨stringText_bytes key, by decide, render_bytes d⟩, ?_⟩
    split_ifs
    · simp
    · rw [List.forall_mem_cons]
      exact ⟨by decide, renderMembers_bytes ms⟩
end

end Persatrix.Json
