import Persatrix.PythonStrings
import Mathlib.Data.List.Infix

/-!
# The tags of procedure rows

The tags of an episode are stored as the text that `json.dumps` writes for the list. Procedure rows
are told from ordinary episodes by a `LIKE` of that text, which ignores the case of ASCII letters,
for the quote that opens a tag and the prefix that the tags of procedures have.
-/
namespace Persatrix.Like

/-- The case that `LIKE` compares in. -/
def foldCase (c : Fin 0x110000) : Fin 0x110000 :=
  if 65 ≤ c ∧ c ≤ 90 then Fin.ofNat 0x110000 (c.val + 32) else c

/-- `text LIKE pattern` without an escape character: a `%` is any substring, a `_` any character. -/
def like : List (Fin 0x110000) → List (Fin 0x110000) → Bool
  | [], text => text.isEmpty
  | p :: pattern, text =>
    if p = 37 then text.tails.any (like pattern)
    else
      match text with
      | [] => false
      | c :: text => (p = 95 || foldCase p = foldCase c) && like pattern text

/-- The text begins with these characters, in any case. -/
def starts : List (Fin 0x110000) → List (Fin 0x110000) → Bool
  | [], _ => true
  | _ :: _, [] => false
  | k :: key, c :: text => foldCase k = foldCase c && starts key text

theorem like_all (text : List (Fin 0x110000)) : like [37] text = true := by
  simp only [like, if_pos, List.any_eq_true, List.isEmpty_iff]
  exact ⟨[], (List.mem_tails _ _).mpr (List.nil_suffix), rfl⟩

/-- A pattern of characters and a final `%` matches the texts that begin with the characters. -/
theorem like_starts {key : List (Fin 0x110000)} (hkey : ∀ k ∈ key, k ≠ 37 ∧ k ≠ 95)
    (text : List (Fin 0x110000)) : like (key ++ [37]) text = starts key text := by
  induction key generalizing text with
  | nil => exact like_all text
  | cons k key ih =>
    obtain ⟨hk, hkey⟩ := List.forall_mem_cons.mp hkey
    cases text with
    | nil => simp [like, starts, hk.1]
    | cons c text => simp [like, starts, hk.1, hk.2, ih hkey]

theorem like_contains {key : List (Fin 0x110000)} (hkey : ∀ k ∈ key, k ≠ 37 ∧ k ≠ 95)
    (text : List (Fin 0x110000)) : like (37 :: (key ++ [37])) text = text.tails.any (starts key) := by
  simp only [like, if_pos]
  exact congrArg text.tails.any (funext (like_starts hkey))

end Persatrix.Like

namespace Persatrix.Procedures
open Like PyJson

/-- `procedure:`. -/
def procedurePrefix : PyText := [112, 114, 111, 99, 101, 100, 117, 114, 101, 58]

/-- The elements of a list, as `json.dumps` separates them. -/
def dumpItems : List PyText → PyText
  | [] => []
  | [tag] => 34 :: (escapeText tag ++ [34])
  | tag :: tags => 34 :: (escapeText tag ++ 34 :: 44 :: 32 :: dumpItems tags)

/-- `json.dumps` of a list of strings. -/
def dumpTags (tags : List PyText) : PyText := 91 :: (dumpItems tags ++ [93])

/-- `%"procedure:%`. -/
def procedurePattern : PyText := 37 :: (34 :: procedurePrefix ++ [37])

/-- The rows that the decay of procedures reads. -/
def procedurePredicate (tagsJson : Option PyText) : Bool := tagsJson.any (like procedurePattern)

/-- The rows that the policies for ordinary episodes read. -/
def notProcedurePredicate (tagsJson : Option PyText) : Bool :=
  tagsJson.all fun text => !like procedurePattern text

/-- The list has a tag of a procedure. -/
def Tagged (tags : List PyText) : Prop := ∃ tag ∈ tags, procedurePrefix <+: tag

/-- The row is read as a procedure if and only if it is one, and as an ordinary episode otherwise. -/
def Recognised (tags : List PyText) : Prop :=
  (procedurePredicate (some (dumpTags tags)) = true ↔ Tagged tags) ∧
    (notProcedurePredicate (some (dumpTags tags)) = true ↔ ¬Tagged tags)

/-- The text has a quote with the prefix behind it, in any case. -/
def quotes : PyText → Bool
  | [] => false
  | c :: text => (c = 34 && starts procedurePrefix text) || quotes text

/-- No tag begins with the prefix in any case, and none quotes it. -/
def Unlike (tags : List PyText) : Prop :=
  ∀ tag ∈ tags, starts procedurePrefix tag = false ∧ quotes tag = false

instance (tags : List PyText) : Decidable (Tagged tags) :=
  inferInstanceAs (Decidable (∃ tag ∈ tags, procedurePrefix <+: tag))

/-- The tags that the two predicates tell apart. -/
def Distinct (tags : List PyText) : Prop := Tagged tags ∨ Unlike tags

/-! ### What the encoding keeps of a text -/

/-- The characters that are written as they stand. -/
def plain (c : Fin 0x110000) : Prop := 32 ≤ c ∧ c ≤ 126 ∧ c ≠ 92 ∧ c ≠ 34

instance (c : Fin 0x110000) : Decidable (plain c) :=
  inferInstanceAs (Decidable (32 ≤ c ∧ c ≤ 126 ∧ c ≠ 92 ∧ c ≠ 34))

theorem escapeChar_plain {c : Fin 0x110000} (h : plain c) : escapeChar c = [c] := if_pos h

/-- What is escaped begins with a backslash. -/
theorem escapeChar_escaped {c : Fin 0x110000} (h : ¬plain c) :
    ∃ rest, escapeChar c = 92 :: rest := by
  unfold escapeChar
  rw [if_neg (show ¬(32 ≤ c ∧ c ≤ 126 ∧ c ≠ 92 ∧ c ≠ 34) from h)]
  cases shortEscapes.lookup c with
  | some d => exact ⟨[d], rfl⟩
  | none =>
    dsimp only
    split_ifs
    · exact ⟨_, rfl⟩
    · exact ⟨_, rfl⟩

theorem foldCase_of_not_plain {c : Fin 0x110000} (h : ¬plain c) : foldCase c = c := by
  unfold foldCase
  unfold plain at h
  refine if_neg fun hupper => h ⟨?_, ?_, ?_, ?_⟩
  all_goals omega

/-- Characters that fold to themselves and are written as they stand. -/
def literal (k : Fin 0x110000) : Prop := plain k ∧ foldCase k = k

instance (k : Fin 0x110000) : Decidable (literal k) :=
  inferInstanceAs (Decidable (plain k ∧ foldCase k = k))

/-- A text begins as its encoding does, up to the quote that closes it. -/
theorem starts_escapeText {key : PyText} (hkey : ∀ k ∈ key, literal k) (s rest : PyText) :
    starts key (escapeText s ++ 34 :: rest) = starts key s := by
  induction key generalizing s with
  | nil => rfl
  | cons k key ih =>
    obtain ⟨hk, hkey⟩ := List.forall_mem_cons.mp hkey
    have hdiffers : ∀ c, ¬plain c → decide (foldCase k = foldCase c) = false := by
      intro c hc
      rw [hk.2, foldCase_of_not_plain hc]
      exact decide_eq_false fun h => hc (h ▸ hk.1)
    cases s with
    | nil =>
      have hquote : ¬plain 34 := fun h => h.2.2.2 rfl
      simp [escapeText, starts, hdiffers 34 hquote]
    | cons c s =>
      by_cases hc : plain c
      · rw [escapeText, List.flatMap_cons, escapeChar_plain hc]
        exact congrArg (decide (foldCase k = foldCase c) && ·) (ih hkey s)
      · obtain ⟨tail, htail⟩ := escapeChar_escaped hc
        have hbackslash : ¬plain 92 := fun h => h.2.2.1 rfl
        rw [escapeText, List.flatMap_cons, htail]
        simp [starts, hdiffers c hc, hdiffers 92 hbackslash]

theorem quotes_append {s : PyText} (h : 34 ∉ s) (t : PyText) : quotes (s ++ t) = quotes t := by
  induction s with
  | nil => rfl
  | cons c s ih =>
    rw [List.mem_cons, not_or] at h
    have hne : c ≠ 34 := fun heq => h.1 heq.symm
    simp [quotes, hne, ih h.2]

theorem hexDigit_ne_quote {n : ℕ} (h : n < 16) : hexDigit n ≠ 34 := by
  interval_cases n <;> decide

theorem not_mem_unicodeEscape (n : ℕ) : 34 ∉ unicodeEscape n := by
  have h : ∀ m : ℕ, (34 : Fin 0x110000) ≠ hexDigit (m % 16) := fun m =>
    (hexDigit_ne_quote (Nat.mod_lt _ (by decide))).symm
  simp [unicodeEscape, h]

theorem shortEscapes_quote : ∀ p ∈ shortEscapes, p.1 ≠ 34 → 34 ≠ p.2 := by
  have hall : (shortEscapes.all fun p => p.1 = 34 ∨ 34 ≠ p.2) = true := by decide
  exact fun p hp => (of_decide_eq_true (List.all_eq_true.mp hall p hp)).resolve_left

/-- Only the escape of a quote holds a quote. -/
theorem not_mem_escapeChar {c : Fin 0x110000} (h : c ≠ 34) : 34 ∉ escapeChar c := by
  by_cases hplain : plain c
  · rw [escapeChar_plain hplain]
    simpa using h.symm
  rw [escapeChar, if_neg (show ¬(32 ≤ c ∧ c ≤ 126 ∧ c ≠ 92 ∧ c ≠ 34) from hplain)]
  cases hlookup : shortEscapes.lookup c with
  | some d =>
    have hd : 34 ≠ d := shortEscapes_quote (c, d) (mem_of_lookup hlookup) h
    simp [hd]
  | none =>
    dsimp only
    split_ifs
    · exact not_mem_unicodeEscape _
    · rw [List.mem_append, not_or]
      exact ⟨not_mem_unicodeEscape _, not_mem_unicodeEscape _⟩

theorem prefix_literal : ∀ k ∈ procedurePrefix, literal k := by
  have hall : (procedurePrefix.all fun k => literal k) = true := by decide
  exact fun k hk => of_decide_eq_true (List.all_eq_true.mp hall k hk)

/-- A text quotes the prefix as its encoding does, up to the quote that closes it. -/
theorem quotes_escapeText (s rest : PyText) :
    quotes (escapeText s ++ 34 :: rest) = (quotes s || quotes (34 :: rest)) := by
  induction s with
  | nil => rfl
  | cons c s ih =>
    rw [escapeText, List.flatMap_cons, List.append_assoc]
    by_cases hc : c = 34
    · subst hc
      have hstarts := starts_escapeText prefix_literal s rest
      rw [← escapeText, show escapeChar 34 = [92, 34] from rfl]
      simp only [List.cons_append, List.nil_append, quotes, hstarts]
      rw [ih]
      simp [quotes, Bool.or_assoc]
    · rw [quotes_append (not_mem_escapeChar hc), ← escapeText, ih]
      simp [quotes, hc]

/-- The text of a tag, with its quotes, in front of what does not begin with the prefix. -/
theorem quotes_item {tag rest : PyText} (hrest : starts procedurePrefix rest = false) :
    quotes (34 :: (escapeText tag ++ 34 :: rest)) =
      ((starts procedurePrefix tag || quotes tag) || quotes rest) := by
  rw [quotes, quotes_escapeText, starts_escapeText prefix_literal]
  simp [quotes, hrest, Bool.or_assoc]

theorem quotes_dumpItems (tags : List PyText) :
    quotes (dumpItems tags ++ [93]) =
      tags.any fun tag => starts procedurePrefix tag || quotes tag := by
  induction tags with
  | nil => rfl
  | cons tag tags ih =>
    cases tags with
    | nil =>
      have hclose : quotes [93] = false := rfl
      rw [dumpItems, List.cons_append, List.append_assoc, List.singleton_append,
        @quotes_item tag [93] rfl, hclose]
      simp
    | cons next tags =>
      have hseparator : quotes (44 :: 32 :: (dumpItems (next :: tags) ++ [93])) =
          quotes (dumpItems (next :: tags) ++ [93]) := rfl
      have hitems : dumpItems (tag :: next :: tags) =
          34 :: (escapeText tag ++ 34 :: 44 :: 32 :: dumpItems (next :: tags)) := rfl
      rw [hitems, List.cons_append, List.append_assoc, List.cons_append, List.cons_append,
        List.cons_append, quotes_item rfl, hseparator, ih]
      rfl

theorem quotes_dumpTags (tags : List PyText) :
    quotes (dumpTags tags) = tags.any fun tag => starts procedurePrefix tag || quotes tag := by
  rw [← quotes_dumpItems]
  rfl

/-! ### What the pattern matches -/

theorem foldCase_eq_quote {c : Fin 0x110000} : foldCase 34 = foldCase c ↔ c = 34 := by
  have hquote : foldCase 34 = 34 := by decide
  rw [hquote]
  constructor
  · intro h
    unfold foldCase at h
    split_ifs at h with hupper
    · exfalso
      have hval := congrArg Fin.val h
      simp only [Fin.val_ofNat] at hval
      omega
    · exact h.symm
  · rintro rfl
    exact hquote.symm

theorem any_tails (text : PyText) :
    text.tails.any (starts (34 :: procedurePrefix)) = quotes text := by
  induction text with
  | nil => rfl
  | cons c text ih =>
    rw [List.tails_cons, List.any_cons, ih, starts, quotes, decide_eq_decide.mpr foldCase_eq_quote]

theorem like_procedurePattern (text : PyText) : like procedurePattern text = quotes text := by
  have hkey : ∀ k ∈ 34 :: procedurePrefix, k ≠ 37 ∧ k ≠ 95 := by
    have hall : ((34 :: procedurePrefix).all fun k => k ≠ 37 ∧ k ≠ 95) = true := by decide
    exact fun k hk => of_decide_eq_true (List.all_eq_true.mp hall k hk)
  rw [← any_tails]
  exact like_contains hkey text

/-- The stored text matches when a tag begins with the prefix in any case, or quotes it. -/
theorem procedurePredicate_dumpTags (tags : List PyText) :
    procedurePredicate (some (dumpTags tags)) = true ↔
      ∃ tag ∈ tags, starts procedurePrefix tag = true ∨ quotes tag = true := by
  rw [procedurePredicate, Option.any_some, like_procedurePattern, quotes_dumpTags]
  simp

theorem notProcedurePredicate_eq (tagsJson : Option PyText) :
    notProcedurePredicate tagsJson = !procedurePredicate tagsJson := by
  cases tagsJson <;> rfl

theorem starts_of_isPrefix {key text : PyText} (h : key <+: text) : starts key text = true := by
  induction key generalizing text with
  | nil => rfl
  | cons k key ih =>
    obtain ⟨rest, rfl⟩ := h
    simp [starts, ih (List.prefix_append key rest)]

/-- No procedure falls under the policies for ordinary episodes. -/
theorem procedurePredicate_of_tagged {tags : List PyText} (h : Tagged tags) :
    procedurePredicate (some (dumpTags tags)) = true := by
  obtain ⟨tag, htag, hprefix⟩ := h
  exact (procedurePredicate_dumpTags tags).mpr ⟨tag, htag, .inl (starts_of_isPrefix hprefix)⟩

theorem unlike_iff (tags : List PyText) :
    Unlike tags ↔ procedurePredicate (some (dumpTags tags)) = false := by
  rw [← Bool.not_eq_true, procedurePredicate_dumpTags]
  simp [Unlike]

/-- Rows are recognised exactly when their tags are told apart: some tag begins with the prefix, or
none begins with it in another case or quotes it. -/
theorem recognised_iff (tags : List PyText) : Recognised tags ↔ Distinct tags := by
  unfold Recognised Distinct
  rw [notProcedurePredicate_eq, Bool.not_eq_true', unlike_iff]
  constructor
  · intro h
    by_cases htagged : Tagged tags
    · exact .inl htagged
    · exact .inr (h.2.mpr htagged)
  · rintro (htagged | hunlike)
    · have hread := procedurePredicate_of_tagged htagged
      simp [hread, htagged]
    · have hnot : ¬Tagged tags := by
        intro htagged
        rw [procedurePredicate_of_tagged htagged] at hunlike
        cases hunlike
      simp [hunlike, hnot]

/-- `Procedure:x` is read as a procedure, and so is a tag that quotes the prefix. -/
theorem not_recognised :
    ¬Recognised [[80, 114, 111, 99, 101, 100, 117, 114, 101, 58, 120]] ∧
      ¬Recognised [120 :: 34 :: procedurePrefix] := by
  have hread : procedurePredicate
      (some (dumpTags [[80, 114, 111, 99, 101, 100, 117, 114, 101, 58, 120]])) = true ∧
      procedurePredicate (some (dumpTags [120 :: 34 :: procedurePrefix])) = true := by
    decide
  have htagged : ¬Tagged [[80, 114, 111, 99, 101, 100, 117, 114, 101, 58, 120]] ∧
      ¬Tagged [120 :: 34 :: procedurePrefix] := by
    simp [Tagged, procedurePrefix]
  exact ⟨fun h => htagged.1 (h.1.mp hread.1), fun h => htagged.2 (h.1.mp hread.2)⟩

end Persatrix.Procedures
