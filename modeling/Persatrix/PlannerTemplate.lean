import Persatrix.Planner

/-!
# Template references in step inputs

The pattern of a reference is `\{\{\s*(steps\.(ID)\.output|([a-z_][a-z0-9_]*))\s*\}\}`
with `ID` the pattern of step identifiers. Every part of it is delimited by a
character the part itself cannot contain, so a match is read greedily from left to
right. An input is the sequence of its pieces: the matches found from the left, and
the characters between them. Warnings about text that merely looks like a reference
are left out.
-/
namespace Persatrix.Planner

inductive Reference where
  | step (id : String)
  | varName (name : String)
  deriving DecidableEq

inductive Piece where
  | literal (c : Char)
  | reference (r : Reference)
  deriving DecidableEq

/-- The class `\s`. -/
def isSpace (c : Char) : Bool :=
  c == ' ' || c == '\t' || c == '\n' || c == '\r' || c == Char.ofNat 12

def isVariableStart (c : Char) : Bool := ('a' ≤ c && c ≤ 'z') || c == '_'

def isVariableChar (c : Char) : Bool := isLowerAlnum c || c == '_'

def openBraces : List Char := ['{', '{']
def closeBraces : List Char := ['}', '}']
def stepsPrefix : List Char := ['s', 't', 'e', 'p', 's', '.']
def outputSuffix : List Char := ['.', 'o', 'u', 't', 'p', 'u', 't']

/-- What is left of the text after the given prefix. -/
def strip : List Char → List Char → Option (List Char)
  | [], cs => some cs
  | _ :: _, [] => none
  | p :: ps, c :: cs => if p = c then strip ps cs else none

def readStep (cs : List Char) : Option (Reference × List Char) :=
  (strip stepsPrefix cs).bind fun cs =>
    let id := cs.takeWhile isStepIDChar
    if matchesStepIDChars id then
      (strip outputSuffix (cs.dropWhile isStepIDChar)).map fun rest =>
        (.step (String.ofList id), rest)
    else none

def readVariable : List Char → Option (Reference × List Char)
  | [] => none
  | c :: cs =>
    if isVariableStart c then
      some (.varName (String.ofList (c :: cs.takeWhile isVariableChar)),
        cs.dropWhile isVariableChar)
    else none

def readClose (r : Reference × List Char) : Option (Reference × List Char) :=
  (strip closeBraces (r.2.dropWhile isSpace)).map fun rest => (r.1, rest)

/-- The reference the text starts with, and what follows it. -/
def matchTemplate (cs : List Char) : Option (Reference × List Char) :=
  (strip openBraces cs).bind fun cs =>
    let cs := cs.dropWhile isSpace
    match (readStep cs).bind readClose with
    | some found => some found
    | none => (readVariable cs).bind readClose

/-- The pieces of a text of which the first characters belong to a match already found. -/
def piecesFrom : ℕ → List Char → List Piece
  | _, [] => []
  | skip + 1, _ :: cs => piecesFrom skip cs
  | 0, c :: cs =>
    match matchTemplate (c :: cs) with
    | some (r, rest) => .reference r :: piecesFrom (cs.length - rest.length) cs
    | none => .literal c :: piecesFrom 0 cs

def pieces (cs : List Char) : List Piece := piecesFrom 0 cs

/-- The texts of which the pattern matches the whole. -/
inductive Template : List Char → Reference → Prop
  | step {before id after : List Char} : before.all isSpace = true →
      matchesStepIDChars id = true → after.all isSpace = true →
      Template (openBraces ++ before ++ stepsPrefix ++ id ++ outputSuffix ++ after ++ closeBraces)
        (.step (String.ofList id))
  | varName {before name after : List Char} {c : Char} : before.all isSpace = true →
      isVariableStart c = true → name.all isVariableChar = true → after.all isSpace = true →
      Template (openBraces ++ before ++ c :: name ++ after ++ closeBraces)
        (.varName (String.ofList (c :: name)))

theorem Template.step_ne_empty {text : List Char} {id : String} (h : Template text (.step id)) :
    id ≠ "" := by
  cases h with
  | @step _ chars _ _ hid _ =>
    intro hempty
    rw [String.ofList_eq_empty_iff.mp hempty] at hid
    cases hid

theorem strip_eq_some {p cs rest : List Char} : strip p cs = some rest ↔ cs = p ++ rest := by
  induction p generalizing cs with
  | nil => simp [strip]
  | cons a p ih =>
    cases cs with
    | nil => simp [strip]
    | cons c cs =>
      unfold strip
      split_ifs with h
      · rw [ih, h, List.cons_append, List.cons.injEq]
        simp
      · simp [Ne.symm h]

/-- A greedy run stops where the class ends. -/
theorem takeWhile_run {p : Char → Bool} {run rest : List Char} (hrun : run.all p = true)
    (hstop : ∀ c ∈ rest.head?, p c = false) :
    (run ++ rest).takeWhile p = run ∧ (run ++ rest).dropWhile p = rest := by
  induction run with
  | nil =>
    cases rest with
    | nil => simp
    | cons c rest =>
      have hc : p c = false := hstop c rfl
      simp [hc]
  | cons c run ih =>
    simp only [List.all_cons, Bool.and_eq_true] at hrun
    obtain ⟨htake, hdrop⟩ := ih hrun.2
    simp [hrun.1, htake, hdrop]

theorem all_takeWhile (p : Char → Bool) (cs : List Char) : (cs.takeWhile p).all p = true := by
  simp

/-- Closing is exact: spaces, then the braces. -/
theorem readClose_eq_some {r r' : Reference} {cs rest : List Char} :
    readClose (r, cs) = some (r', rest) ↔
      r = r' ∧ ∃ after, after.all isSpace = true ∧ cs = after ++ closeBraces ++ rest := by
  simp only [readClose, Option.map_eq_some_iff, Prod.mk.injEq, strip_eq_some]
  constructor
  · intro hfound
    obtain ⟨tail, hdrop, rfl, rfl⟩ := hfound
    refine ⟨rfl, cs.takeWhile isSpace, all_takeWhile isSpace cs, ?_⟩
    rw [List.append_assoc, ← hdrop, List.takeWhile_append_dropWhile]
  · intro hfound
    obtain ⟨rfl, after, hafter, rfl⟩ := hfound
    refine ⟨rest, ?_, rfl, rfl⟩
    rw [List.append_assoc]
    exact (takeWhile_run hafter (by intro c hc; cases hc; decide)).2

theorem matchesStepIDChars_all {id : List Char} (h : matchesStepIDChars id = true) :
    id.all isStepIDChar = true := by
  cases id with
  | nil => rfl
  | cons c tail =>
    simp only [matchesStepIDChars, matchesIDTail, Bool.and_eq_true, Bool.or_eq_true,
      List.isEmpty_iff] at h
    rw [List.all_cons, Bool.and_eq_true]
    refine ⟨by simp [isStepIDChar, h.1], ?_⟩
    rcases h.2 with rfl | htail
    · rfl
    · exact htail.1

theorem readStep_eq_some {r : Reference} {cs rest : List Char} :
    readStep cs = some (r, rest) ↔ ∃ id, matchesStepIDChars id = true ∧
      r = .step (String.ofList id) ∧ cs = stepsPrefix ++ id ++ outputSuffix ++ rest := by
  simp only [readStep, Option.bind_eq_some_iff, strip_eq_some]
  constructor
  · intro hfound
    obtain ⟨tail, rfl, hread⟩ := hfound
    split_ifs at hread with hid
    · obtain ⟨after, hafter, heq⟩ := Option.map_eq_some_iff.mp hread
      cases heq
      refine ⟨_, hid, rfl, ?_⟩
      rw [List.append_assoc, List.append_assoc, ← strip_eq_some.mp hafter,
        List.takeWhile_append_dropWhile]
  · intro hfound
    obtain ⟨id, hid, rfl, rfl⟩ := hfound
    have hrun : (id ++ (outputSuffix ++ rest)).takeWhile isStepIDChar = id ∧
        (id ++ (outputSuffix ++ rest)).dropWhile isStepIDChar = outputSuffix ++ rest :=
      takeWhile_run (matchesStepIDChars_all hid) (by intro c hc; cases hc; decide)
    refine ⟨id ++ (outputSuffix ++ rest), by simp, ?_⟩
    rw [hrun.1, hrun.2, if_pos hid]
    exact Option.map_eq_some_iff.mpr ⟨rest, strip_eq_some.mpr rfl, rfl⟩

theorem isVariableChar_of_start {c : Char} (h : isVariableStart c = true) :
    isVariableChar c = true := by
  simp only [isVariableStart, isVariableChar, isLowerAlnum, Bool.or_eq_true] at h ⊢
  tauto

/-- A reference is followed by a space or a brace, neither of which continues a name. -/
theorem close_head {after : List Char} (h : after.all isSpace = true) (rest : List Char) :
    ∀ c ∈ (after ++ closeBraces ++ rest).head?, isVariableChar c = false ∧ c ≠ '.' := by
  cases after with
  | nil =>
    intro c hc
    cases hc
    decide
  | cons a after =>
    intro c hc
    obtain rfl : a = c := by simpa using hc
    have hspace : isSpace a = true := by
      rw [List.all_cons, Bool.and_eq_true] at h
      exact h.1
    simp only [isSpace, Bool.or_eq_true, beq_iff_eq] at hspace
    rcases hspace with (((rfl | rfl) | rfl) | rfl) | rfl <;> decide

theorem readVariable_of_name {name rest : List Char} {c : Char} (hc : isVariableStart c = true)
    (hname : name.all isVariableChar = true) (hrest : ∀ d ∈ rest.head?, isVariableChar d = false) :
    readVariable (c :: name ++ rest) = some (.varName (String.ofList (c :: name)), rest) := by
  obtain ⟨htake, hdrop⟩ := takeWhile_run hname hrest
  rw [List.cons_append, readVariable, if_pos hc, htake, hdrop]

/-- A name that is not followed by a dot is not the start of a step reference. -/
theorem readStep_of_name {name rest : List Char} (hname : name.all isVariableChar = true)
    (hrest : ∀ d ∈ rest.head?, isVariableChar d = false ∧ d ≠ '.') :
    readStep (name ++ rest) = none := by
  refine Option.eq_none_iff_forall_ne_some.mpr fun ⟨r, tail⟩ hread => ?_
  obtain ⟨id, -, -, heq⟩ := readStep_eq_some.mp hread
  have hleft := (takeWhile_run hname fun d hd => (hrest d hd).1).2
  have hright : (['s', 't', 'e', 'p', 's'] ++ ('.' :: (id ++ outputSuffix ++ tail))).dropWhile
      isVariableChar = '.' :: (id ++ outputSuffix ++ tail) :=
    (takeWhile_run (by decide) (by intro d hd; cases hd; decide)).2
  have hsame : name ++ rest =
      ['s', 't', 'e', 'p', 's'] ++ ('.' :: (id ++ outputSuffix ++ tail)) := by
    rw [heq]
    simp [stepsPrefix]
  rw [hsame, hright] at hleft
  exact (hrest '.' (by rw [← hleft]; rfl)).2 rfl

theorem isSpace_of_start {c : Char} (h : isVariableStart c = true) : isSpace c = false := by
  cases hspace : isSpace c with
  | false => rfl
  | true =>
    simp only [isSpace, Bool.or_eq_true, beq_iff_eq] at hspace
    rcases hspace with (((rfl | rfl) | rfl) | rfl) | rfl <;> revert h <;> decide

theorem matchTemplate_skip {before : List Char} (hbefore : before.all isSpace = true)
    (body : List Char) (hbody : ∀ c ∈ body.head?, isSpace c = false) :
    matchTemplate (openBraces ++ (before ++ body)) =
      match (readStep body).bind readClose with
      | some found => some found
      | none => (readVariable body).bind readClose := by
  rw [matchTemplate, strip_eq_some.mpr rfl, Option.bind_some, (takeWhile_run hbefore hbody).2]

/-- The reader accepts exactly what the pattern matches. -/
theorem matchTemplate_eq_some {cs rest : List Char} {r : Reference} :
    matchTemplate cs = some (r, rest) ↔ ∃ text, Template text r ∧ cs = text ++ rest := by
  constructor
  · intro h
    simp only [matchTemplate, Option.bind_eq_some_iff, strip_eq_some] at h
    obtain ⟨inner, rfl, h⟩ := h
    have hinner := List.takeWhile_append_dropWhile (p := isSpace) (l := inner)
    have hbefore := all_takeWhile isSpace inner
    split at h
    next found hstep =>
      cases h
      obtain ⟨⟨r', tail⟩, hread, hclose⟩ := Option.bind_eq_some_iff.mp hstep
      obtain ⟨id, hid, rfl, hcs⟩ := readStep_eq_some.mp hread
      obtain ⟨rfl, after, hafter, rfl⟩ := readClose_eq_some.mp hclose
      refine ⟨_, .step hbefore hid hafter, ?_⟩
      calc openBraces ++ inner
          = openBraces ++ (inner.takeWhile isSpace ++ inner.dropWhile isSpace) := by rw [hinner]
        _ = _ := by rw [hcs]; simp only [List.append_assoc]
    next =>
      obtain ⟨⟨r', tail⟩, hread, hclose⟩ := Option.bind_eq_some_iff.mp h
      obtain ⟨rfl, after, hafter, rfl⟩ := readClose_eq_some.mp hclose
      cases hcs : inner.dropWhile isSpace with
      | nil => simp [hcs, readVariable] at hread
      | cons c name =>
        rw [hcs, readVariable] at hread
        split_ifs at hread with hstart
        obtain ⟨rfl, htail⟩ := Prod.mk.inj (Option.some.inj hread)
        refine ⟨_, .varName hbefore hstart (all_takeWhile isVariableChar name) hafter, ?_⟩
        have hname := List.takeWhile_append_dropWhile (p := isVariableChar) (l := name)
        calc openBraces ++ inner
            = openBraces ++ (inner.takeWhile isSpace ++ c :: (name.takeWhile isVariableChar ++
                name.dropWhile isVariableChar)) := by rw [hname, ← hcs, hinner]
          _ = _ := by rw [htail]; simp
  · intro hfound
    obtain ⟨text, htext, rfl⟩ := hfound
    cases htext with
    | @step before id after hbefore hid hafter =>
      have hread :
          readStep (stepsPrefix ++ id ++ outputSuffix ++ (after ++ closeBraces ++ rest)) =
            some (.step (String.ofList id), after ++ closeBraces ++ rest) :=
        readStep_eq_some.mpr ⟨id, hid, rfl, rfl⟩
      have hclose : readClose (.step (String.ofList id), after ++ closeBraces ++ rest) =
          some (.step (String.ofList id), rest) :=
        readClose_eq_some.mpr ⟨rfl, after, hafter, rfl⟩
      have hmatch := matchTemplate_skip hbefore
        (stepsPrefix ++ id ++ outputSuffix ++ (after ++ closeBraces ++ rest))
        (by intro c hc; cases hc; decide)
      rw [hread, Option.bind_some, hclose] at hmatch
      simpa only [List.append_assoc] using hmatch
    | @varName before name after c hbefore hstart hname hafter =>
      have hrest := close_head hafter rest
      have hstep : readStep (c :: name ++ (after ++ closeBraces ++ rest)) = none := by
        refine readStep_of_name ?_ hrest
        rw [List.all_cons, hname, isVariableChar_of_start hstart, Bool.and_self]
      have hread := readVariable_of_name hstart hname fun d hd => (hrest d hd).1
      have hclose : readClose (.varName (String.ofList (c :: name)),
          after ++ closeBraces ++ rest) = some (.varName (String.ofList (c :: name)), rest) :=
        readClose_eq_some.mpr ⟨rfl, after, hafter, rfl⟩
      have hmatch := matchTemplate_skip hbefore (c :: name ++ (after ++ closeBraces ++ rest))
        (by intro d hd; cases hd; exact isSpace_of_start hstart)
      rw [hstep, hread, Option.bind_none, Option.bind_some, hclose] at hmatch
      simpa only [List.append_assoc, List.cons_append] using hmatch

theorem not_brace_of_all {p : Char → Bool} (hp : p '{' = false) {cs : List Char}
    (h : cs.all p = true) : '{' ∉ cs := by
  intro hmem
  have htrue := List.all_eq_true.mp h '{' hmem
  rw [hp] at htrue
  cases htrue

/-- An opening brace stands in the first two places of a reference only. -/
theorem Template.shape {text : List Char} {r : Reference} (h : Template text r) :
    ∃ body, text = '{' :: '{' :: body ∧ body ≠ [] ∧ '{' ∉ body := by
  cases h with
  | @step before id after hbefore hid hafter =>
    refine ⟨before ++ stepsPrefix ++ id ++ outputSuffix ++ after ++ closeBraces,
      by simp [openBraces], by simp [closeBraces], ?_⟩
    have hb := not_brace_of_all (by decide) hbefore
    have hi := not_brace_of_all (by decide) (matchesStepIDChars_all hid)
    have ha := not_brace_of_all (by decide) hafter
    simp [hb, hi, ha, stepsPrefix, outputSuffix, closeBraces]
  | @varName before name after c hbefore hstart hname hafter =>
    refine ⟨before ++ c :: name ++ after ++ closeBraces, by simp [openBraces],
      by simp [closeBraces], ?_⟩
    have hb := not_brace_of_all (by decide) hbefore
    have hn := not_brace_of_all (by decide) hname
    have ha := not_brace_of_all (by decide) hafter
    have hc : '{' ≠ c := by
      intro hsame
      subst hsame
      revert hstart
      decide
    simp [hb, hn, ha, hc, closeBraces]

theorem piecesFrom_append (skipped cs : List Char) :
    piecesFrom skipped.length (skipped ++ cs) = pieces cs := by
  induction skipped with
  | nil => rfl
  | cons c skipped ih => exact ih

theorem pieces_template {text : List Char} {r : Reference} (h : Template text r)
    (rest : List Char) : pieces (text ++ rest) = .reference r :: pieces rest := by
  have hmatch : matchTemplate (text ++ rest) = some (r, rest) :=
    matchTemplate_eq_some.mpr ⟨text, h, rfl⟩
  obtain ⟨body, rfl, -, -⟩ := h.shape
  rw [List.cons_append] at hmatch ⊢
  unfold pieces
  rw [piecesFrom, hmatch]
  have hlength : ('{' :: body ++ rest).length - rest.length = ('{' :: body).length := by
    rw [List.length_append]
    omega
  simp only [hlength]
  rw [piecesFrom_append]
  rfl

theorem pieces_literal {c : Char} {cs : List Char} (h : matchTemplate (c :: cs) = none) :
    pieces (c :: cs) = .literal c :: pieces cs := by
  unfold pieces
  rw [piecesFrom, h]

/-- Two references do not overlap: one that starts inside the text before another ends there. -/
theorem template_before {text text' a b rest : List Char} {r r' : Reference}
    (h : Template text r) (h' : Template text' r') (hne : a ≠ [])
    (heq : a ++ text ++ b = text' ++ rest) : ∃ a', a = text' ++ a' := by
  rw [List.append_assoc] at heq
  rcases List.append_eq_append_iff.mp heq with ⟨later, hlater, hrest⟩ | ⟨a', ha', -⟩
  · obtain ⟨body, rfl, -, -⟩ := h.shape
    obtain ⟨body', rfl, hne', hbody'⟩ := h'.shape
    cases later with
    | nil => exact ⟨[], by simpa using hlater.symm⟩
    | cons l later =>
      exfalso
      obtain ⟨rfl, hrest⟩ : l = '{' ∧ '{' :: body ++ b = later ++ rest := by
        simpa [eq_comm] using hrest
      match a, hne, hlater with
      | [x], _, hlater =>
        obtain ⟨-, rfl⟩ : x = '{' ∧ body' = later := by simpa [eq_comm] using hlater
        cases body' with
        | nil => exact hne' rfl
        | cons y body' =>
          obtain ⟨rfl, -⟩ : y = '{' ∧ _ := by simpa [eq_comm] using hrest
          simp at hbody'
      | x :: y :: a, _, hlater =>
        obtain ⟨-, -, rfl⟩ : x = '{' ∧ y = '{' ∧ body' = a ++ '{' :: later := by
          simpa [eq_comm] using hlater
        simp at hbody'
  · exact ⟨a', ha'⟩

/-- Every occurrence of a reference is a piece, and the rest is taken apart on its own. -/
theorem pieces_append_template {text : List Char} {r : Reference} (h : Template text r)
    (a b : List Char) : pieces (a ++ text ++ b) = pieces a ++ .reference r :: pieces b := by
  induction hlength : a.length using Nat.strong_induction_on generalizing a with
  | h n ih =>
    subst hlength
    match a with
    | [] => exact pieces_template h b
    | c :: a =>
      cases hmatch : matchTemplate (c :: a) with
      | none =>
        have hwhole : matchTemplate (c :: a ++ text ++ b) = none := by
          refine Option.eq_none_iff_forall_ne_some.mpr fun ⟨r', rest⟩ hsome => ?_
          obtain ⟨text', h', heq⟩ := matchTemplate_eq_some.mp hsome
          obtain ⟨a', ha'⟩ := template_before h h' (List.cons_ne_nil c a) heq
          rw [matchTemplate_eq_some.mpr ⟨text', h', ha'⟩] at hmatch
          cases hmatch
        have hlater := ih a.length (by simp) a rfl
        calc pieces (c :: a ++ text ++ b)
            = .literal c :: pieces (a ++ text ++ b) := pieces_literal hwhole
          _ = pieces (c :: a) ++ .reference r :: pieces b := by
            rw [hlater, pieces_literal hmatch, List.cons_append]
      | some found =>
        obtain ⟨r', a'⟩ := found
        obtain ⟨text', h', heq⟩ := matchTemplate_eq_some.mp hmatch
        have hshorter : a'.length < (c :: a).length := by
          obtain ⟨body, rfl, -, -⟩ := h'.shape
          rw [heq, List.length_append, List.length_cons]
          omega
        have hlater := ih a'.length hshorter a' rfl
        rw [heq, List.append_assoc, List.append_assoc, pieces_template h',
          ← List.append_assoc, hlater, pieces_template h', List.cons_append]

end Persatrix.Planner

/-!
## Resolving the inputs of a step

The pieces of the input are written one after the other: a character as it is, a
reference as the value found for it. Values are not looked at again. The first
reference without a value fails the whole resolution.
-/
namespace Persatrix.Planner

/-- The values a reference can stand for: the outputs seen and the run's variables. -/
structure Values where
  outputs : String → Option String
  vars : String → Option String

/-- What the loop writes for a piece. -/
def Piece.text (v : Values) (stepID : String) : Piece → Except String String
  | .literal c => .ok (String.singleton c)
  | .reference (.step id) =>
    match v.outputs id with
    | some output => .ok output
    | none =>
      .error s!"unresolved step output reference: steps.{id}.output (step {id.quote} not in outputs map)"
  | .reference (.varName name) =>
    match v.vars name with
    | some value => .ok value
    | none =>
      .error s!"unresolved variable reference: {name} in step {stepID.quote} (not in vars map)"

/-- The loop over the matches, with the text between them, up to the first missing value. -/
def render (v : Values) (stepID : String) : List Piece → Except String String
  | [] => .ok ""
  | piece :: later => do
    let text ← piece.text v stepID
    let tail ← render v stepID later
    return text ++ tail

def resolveInputs (step : Step) (v : Values) : Except String String :=
  render v step.id (pieces step.input.toList)

/-- A sequence of pieces is rendered one part after the other. -/
theorem render_append (v : Values) (stepID : String) (first last : List Piece) :
    render v stepID (first ++ last) = do
      let head ← render v stepID first
      let tail ← render v stepID last
      return head ++ tail := by
  induction first with
  | nil =>
    simp only [List.nil_append, render, bind, Except.bind]
    cases render v stepID last with
    | error e => rfl
    | ok tail => simp [pure, Except.pure]
  | cons piece first ih =>
    simp only [List.cons_append, render, ih, bind, Except.bind]
    cases piece.text v stepID with
    | error e => rfl
    | ok own =>
      cases render v stepID first with
      | error e => rfl
      | ok head =>
        cases render v stepID last with
        | error e => rfl
        | ok tail => simp [pure, Except.pure, String.append_assoc]

/-- The resolution of what stands before a text, the text as it is, and the resolution of
what stands after it. -/
def renderAround (v : Values) (stepID : String) (a : List Char) (text : String)
    (b : List Char) : Except String String := do
  let before ← render v stepID (pieces a)
  let after ← render v stepID (pieces b)
  return before ++ text ++ after

theorem renderAround_eq_ok {v : Values} {stepID text payload : String} {a b : List Char}
    (h : renderAround v stepID a text b = .ok payload) :
    ∃ before after, payload = before ++ text ++ after := by
  unfold renderAround at h
  cases hbefore : render v stepID (pieces a) with
  | error e => simp [hbefore, bind, Except.bind] at h
  | ok before =>
    cases hafter : render v stepID (pieces b) with
    | error e => simp [hbefore, hafter, bind, Except.bind] at h
    | ok after =>
      simp only [hbefore, hafter, bind, Except.bind, pure, Except.pure, Except.ok.injEq] at h
      exact ⟨before, after, h.symm⟩

/-- No part of the text is a reference. -/
def NoReference (cs : List Char) : Prop :=
  ∀ a text b r, cs = a ++ text ++ b → ¬ Template text r

/-- Text without a reference in it is copied as it stands. -/
theorem render_literal {v : Values} {stepID : String} {cs : List Char} (h : NoReference cs) :
    render v stepID (pieces cs) = .ok (String.ofList cs) := by
  induction cs with
  | nil => rfl
  | cons c cs ih =>
    have hmatch : matchTemplate (c :: cs) = none := by
      apply Option.eq_none_iff_forall_ne_some.mpr
      intro found hfound
      obtain ⟨text, htext, heq⟩ := matchTemplate_eq_some.mp hfound
      exact h [] text found.2 found.1 heq htext
    have hlater : NoReference cs := by
      intro a text b r heq
      apply h (c :: a) text b r
      rw [heq]
      rfl
    rw [pieces_literal hmatch]
    simp only [render, Piece.text, ih hlater, bind, Except.bind, pure, Except.pure]
    rw [String.singleton_eq_ofList, ← String.ofList_append]
    rfl

def EndsReference (a : List Char) : Prop := a = [] ∨ ∃ a' text r, Template text r ∧ a = a' ++ text

def StartsReference (b : List Char) : Prop := b = [] ∨ ∃ text r b', Template text r ∧ b = text ++ b'

theorem EndsReference.pieces_append {a : List Char} (h : EndsReference a) (b : List Char) :
    pieces (a ++ b) = pieces a ++ pieces b := by
  rcases h with rfl | ⟨a, text, r, htext, rfl⟩
  · rfl
  · have hempty := pieces_append_template htext a []
    rw [List.append_nil] at hempty
    rw [pieces_append_template htext, hempty, List.append_assoc]
    rfl

theorem StartsReference.pieces_append {b : List Char} (h : StartsReference b) (a : List Char) :
    pieces (a ++ b) = pieces a ++ pieces b := by
  rcases h with rfl | ⟨text, r, b, htext, rfl⟩
  · rw [List.append_nil]
    exact (List.append_nil _).symm
  · rw [← List.append_assoc, pieces_append_template htext, pieces_template htext]

/-- A reference with a value is resolved to that value as it is, between the resolutions of
what stands before and after it. -/
theorem resolveInputs_template {step : Step} {v : Values} {value : String} {text : List Char}
    {r : Reference} (h : Template text r) {a b : List Char}
    (hinput : step.input.toList = a ++ text ++ b)
    (hvalue : Piece.text v step.id (.reference r) = .ok value) :
    resolveInputs step v = renderAround v step.id a value b := by
  rw [resolveInputs, hinput, pieces_append_template h, render_append]
  simp only [renderAround, render, hvalue, bind, Except.bind]
  cases render v step.id (pieces a) with
  | error e => rfl
  | ok before =>
    cases render v step.id (pieces b) with
    | error e => rfl
    | ok after => simp [pure, Except.pure, String.append_assoc]

/-- Text that lies between two references, or between one and an end of the input, stands
in the resolved input as it is. -/
theorem resolveInputs_literal {step : Step} {v : Values} {a literal b : List Char}
    (ha : EndsReference a) (hliteral : NoReference literal) (hb : StartsReference b)
    (hinput : step.input.toList = a ++ literal ++ b) :
    resolveInputs step v = renderAround v step.id a (String.ofList literal) b := by
  rw [resolveInputs, hinput, hb.pieces_append, ha.pieces_append, render_append, render_append,
    render_literal hliteral]
  simp only [renderAround, bind, Except.bind]
  cases render v step.id (pieces a) with
  | error e => rfl
  | ok before => rfl

end Persatrix.Planner
