import Persatrix.RedactPatterns
import Persatrix.Utf8

/-!
# Redacting byte strings

The expressions step through the runes of a string, and what is between the matches is copied
byte by byte. The brackets of the markers keep the bytes before and after a match apart, so the
result is cut into the same runes again.
-/
namespace Persatrix

/-- The code point that the bytes of a character stand for. -/
def codeOf : GoString → ℕ
  | [a] => a.toNat
  | [a, b] => a.toNat % 32 * 64 + b.toNat % 64
  | [a, b, c] => (a.toNat % 16 * 64 + b.toNat % 64) * 64 + c.toNat % 64
  | [a, b, c, d] => ((a.toNat % 8 * 64 + b.toNat % 64) * 64 + c.toNat % 64) * 64 + d.toNat % 64
  | _ => 0

theorem ofNat_of_eq {a : UInt8} {n : ℕ} (h : n = a.toNat) : UInt8.ofNat n = a := by
  rw [h, UInt8.ofNat_toNat]

theorem isTail_iff {b : UInt8} : isTail b = true ↔ 0x80 ≤ b.toNat ∧ b.toNat ≤ 0xBF := by
  simp [isTail]

/-- What the bytes of a character of three or four may be. -/
theorem isChar_three {a b c : UInt8} (h : isChar [a, b, c] = true) :
    0xE0 ≤ a.toNat ∧ a.toNat ≤ 0xEF ∧ 0x80 ≤ b.toNat ∧ b.toNat ≤ 0xBF ∧
      (a.toNat = 0xE0 → 0xA0 ≤ b.toNat) ∧ (a.toNat = 0xED → b.toNat ≤ 0x9F) ∧
      0x80 ≤ c.toNat ∧ c.toNat ≤ 0xBF := by
  rw [isChar, Bool.and_eq_true, isTail_iff] at h
  obtain ⟨hlead, htail⟩ := h
  split_ifs at hlead
  · simp only [Bool.and_eq_true, decide_eq_true_eq] at hlead
    omega
  · simp only [Bool.and_eq_true, decide_eq_true_eq] at hlead
    omega
  · simp only [Bool.and_eq_true, decide_eq_true_eq, isTail_iff] at hlead
    omega

theorem isChar_four {a b c d : UInt8} (h : isChar [a, b, c, d] = true) :
    0xF0 ≤ a.toNat ∧ a.toNat ≤ 0xF4 ∧ 0x80 ≤ b.toNat ∧ b.toNat ≤ 0xBF ∧
      (a.toNat = 0xF0 → 0x90 ≤ b.toNat) ∧ (a.toNat = 0xF4 → b.toNat ≤ 0x8F) ∧
      0x80 ≤ c.toNat ∧ c.toNat ≤ 0xBF ∧ 0x80 ≤ d.toNat ∧ d.toNat ≤ 0xBF := by
  rw [isChar, Bool.and_eq_true, Bool.and_eq_true, isTail_iff, isTail_iff] at h
  obtain ⟨⟨hlead, htail⟩, hlast⟩ := h
  split_ifs at hlead
  · simp only [Bool.and_eq_true, decide_eq_true_eq] at hlead
    omega
  · simp only [Bool.and_eq_true, decide_eq_true_eq] at hlead
    omega
  · simp only [Bool.and_eq_true, decide_eq_true_eq, isTail_iff] at hlead
    omega

/-- The code point of a character is no surrogate. -/
theorem isValidChar_codeOf {c : GoString} (h : isChar c = true) : (codeOf c).isValidChar := by
  rw [Nat.isValidChar]
  match c with
  | [] => cases h
  | [a] =>
    rw [isChar, decide_eq_true_eq] at h
    rw [codeOf]
    omega
  | [a, b] =>
    simp only [isChar, Bool.and_eq_true, decide_eq_true_eq, isTail_iff] at h
    rw [codeOf]
    omega
  | [a, b, c] =>
    have hbytes := isChar_three h
    rw [codeOf]
    omega
  | [a, b, c, d] =>
    have hbytes := isChar_four h
    rw [codeOf]
    omega
  | _ :: _ :: _ :: _ :: _ :: _ => cases h

/-- The bytes of a character are those of its code point. -/
theorem encodeRune_codeOf {c : GoString} (h : isChar c = true) : encodeRune (codeOf c) = c := by
  match c with
  | [] => cases h
  | [a] =>
    rw [isChar, decide_eq_true_eq] at h
    rw [codeOf, encodeRune, if_pos h, UInt8.ofNat_toNat]
  | [a, b] =>
    simp only [isChar, Bool.and_eq_true, decide_eq_true_eq, isTail_iff] at h
    rw [codeOf, encodeRune, if_neg (by omega), if_pos (by omega),
      ofNat_of_eq (a := a) (by omega), ofNat_of_eq (a := b) (by omega)]
  | [a, b, c] =>
    have hbytes := isChar_three h
    rw [codeOf, encodeRune, if_neg (by omega), if_neg (by omega), if_neg (by omega),
      if_pos (by omega), ofNat_of_eq (a := a) (by omega), ofNat_of_eq (a := b) (by omega),
      ofNat_of_eq (a := c) (by omega)]
  | [a, b, c, d] =>
    have hbytes := isChar_four h
    rw [codeOf, encodeRune, if_neg (by omega), if_neg (by omega), if_neg (by omega),
      if_neg (by omega), if_pos (by omega), ofNat_of_eq (a := a) (by omega),
      ofNat_of_eq (a := b) (by omega), ofNat_of_eq (a := c) (by omega),
      ofNat_of_eq (a := d) (by omega)]
  | _ :: _ :: _ :: _ :: _ :: _ => cases h

theorem codeOf_encodeRune {n : ℕ} (h : n.isValidChar) : codeOf (encodeRune n) = n := by
  rw [Nat.isValidChar] at h
  unfold encodeRune
  split_ifs
  · simp only [codeOf, UInt8.toNat_ofNat']
    omega
  · simp only [codeOf, UInt8.toNat_ofNat']
    omega
  · omega
  · simp only [codeOf, UInt8.toNat_ofNat']
    omega
  · simp only [codeOf, UInt8.toNat_ofNat']
    omega
  · omega

end Persatrix

namespace Persatrix.Security

def toRune : Piece → Rune
  | .char c => .char (Char.ofNat (codeOf c))
  | .invalid b => .invalid b

/-- The runes that an expression steps through in a string. -/
def runes (s : GoString) : Text := (pieces s).map toRune

def Rune.bytes : Rune → GoString
  | .char c => encodeRune c.toNat
  | .invalid b => [b]

def bytesOf (t : Text) : GoString := t.flatMap Rune.bytes

/-- Replaces the matches in a string. -/
def replaceAllString (p : Pattern Rune) (s : GoString) : GoString :=
  bytesOf (p.replaceAll (runes s))

def SecretRedactor.redactString (r : SecretRedactor) (s : GoString) : GoString :=
  r.patterns.foldl (fun s p => replaceAllString p s) s

/-! ### Strings and their runes -/

theorem toNat_ofNat {n : ℕ} (h : n.isValidChar) : (Char.ofNat n).toNat = n := by
  rw [Char.ofNat, dif_pos h]
  rfl

theorem isValidChar_toNat (c : Char) : c.toNat.isValidChar := c.valid

theorem runes_char {c : GoString} (h : isChar c = true) (s : GoString) :
    runes (c ++ s) = .char (Char.ofNat (codeOf c)) :: runes s := by
  rw [runes, pieces_char h]
  rfl

theorem runes_invalid {b : UInt8} {s : GoString} (h : charWidth (b :: s) = 0) :
    runes (b :: s) = .invalid b :: runes s := by
  rw [runes, pieces_invalid h]
  rfl

theorem bytesOf_cons (r : Rune) (t : Text) : bytesOf (r :: t) = r.bytes ++ bytesOf t := rfl

theorem bytesOf_runes (s : GoString) : bytesOf (runes s) = s := by
  induction s using pieces_induction with
  | nil => rfl
  | char c s hc ih =>
    rw [runes_char hc, bytesOf_cons, ih, Rune.bytes, toNat_ofNat (isValidChar_codeOf hc),
      encodeRune_codeOf hc]
  | invalid b s hb ih =>
    rw [runes_invalid hb, bytesOf_cons, ih]
    rfl

/-- The bytes that belong to no character do not begin one with what follows them. -/
def Canonical : Text → Prop
  | [] => True
  | .char _ :: t => Canonical t
  | .invalid b :: t => charWidth (b :: bytesOf t) = 0 ∧ Canonical t

theorem canonical_runes (s : GoString) : Canonical (runes s) := by
  induction s using pieces_induction with
  | nil => trivial
  | char c s hc ih =>
    rw [runes_char hc]
    exact ih
  | invalid b s hb ih =>
    rw [runes_invalid hb]
    refine ⟨?_, ih⟩
    rwa [bytesOf_runes]

theorem Canonical.of_append {u t : Text} (h : Canonical (u ++ t)) : Canonical t := by
  induction u with
  | nil => exact h
  | cons r u ih =>
    cases r with
    | char c => exact ih h
    | invalid b => exact ih h.2

theorem runes_bytesOf {t : Text} (h : Canonical t) : runes (bytesOf t) = t := by
  induction t with
  | nil => rfl
  | cons r t ih =>
    cases r with
    | char c =>
      rw [bytesOf_cons, Rune.bytes, runes_char (isChar_encodeRune _), ih h,
        codeOf_encodeRune (isValidChar_toNat c), Char.ofNat_toNat]
    | invalid b => rw [bytesOf_cons, Rune.bytes, List.singleton_append, runes_invalid h.1, ih h.2]

/-! ### Replacement keeps the runes apart -/

/-- The marker is of characters, the first of which is a bracket. -/
def Bracketed (p : Pattern Rune) : Prop :=
  (∃ rest, p.marker = .char '[' :: rest) ∧ ∀ t : Text, Canonical t → Canonical (p.marker ++ t)

theorem canonical_text_append (s : List Char) {t : Text} (h : Canonical t) :
    Canonical (s.map Rune.char ++ t) := by
  induction s with
  | nil => exact h
  | cons c s ih => exact ih

/-- Bytes beyond ASCII at the beginning of the result were at the beginning of the text. -/
theorem prefix_of_replaced {p : Pattern Rune} (hp : Bracketed p) {s out : Text}
    (h : Pattern.Replaced p s out) {v : GoString} (hv : ∀ b ∈ v, 0x80 ≤ b.toNat)
    (hpre : v <+: bytesOf out) : v <+: bytesOf s := by
  induction h generalizing v with
  | done => exact hpre
  | found _ _ _ =>
    obtain ⟨⟨rest, hmarker⟩, -⟩ := hp
    rw [hmarker, List.cons_append, bytesOf_cons] at hpre
    cases v with
    | nil => exact List.nil_prefix
    | cons b v =>
      have hb : b = 91 := (List.cons_prefix_cons.mp hpre).1
      have hhigh := hv b List.mem_cons_self
      rw [hb] at hhigh
      exact absurd hhigh (by decide)
  | @kept c s out _ _ ih =>
    rw [bytesOf_cons] at hpre ⊢
    rcases List.prefix_or_prefix_of_prefix hpre (List.prefix_append c.bytes _) with hshort | hlong
    · exact hshort.trans (List.prefix_append _ _)
    · obtain ⟨w, rfl⟩ := hlong
      rw [List.prefix_append_right_inj] at hpre ⊢
      exact ih (fun b hb => hv b (List.mem_append_right _ hb)) hpre

/-- A byte begins no character in the result when it began none in the text. -/
theorem charWidth_of_replaced {p : Pattern Rune} (hp : Bracketed p) {s out : Text}
    (h : Pattern.Replaced p s out) {b : UInt8} (hb : charWidth (b :: bytesOf s) = 0) :
    charWidth (b :: bytesOf out) = 0 := by
  by_contra hwidth
  have hchar := isChar_take_charWidth hwidth
  have hpre : (b :: bytesOf out).take (charWidth (b :: bytesOf out)) <+: b :: bytesOf out :=
    List.take_prefix _ _
  generalize (b :: bytesOf out).take (charWidth (b :: bytesOf out)) = c at hchar hpre
  cases c with
  | nil => cases hchar
  | cons a c =>
    obtain ⟨rfl, htail⟩ := List.cons_prefix_cons.mp hpre
    have hkept : c <+: bytesOf s := by
      cases c with
      | nil => exact List.nil_prefix
      | cons d c =>
        have hhigh := isChar_bytes hchar
        exact prefix_of_replaced hp h (fun x hx => hhigh x (List.mem_cons_of_mem _ hx)) htail
    obtain ⟨rest, hrest⟩ := hkept
    have hfound := charWidth_append hchar rest
    rw [List.cons_append, hrest, hb] at hfound
    cases hfound

theorem canonical_of_replaced {p : Pattern Rune} (hp : Bracketed p) {s out : Text}
    (h : Pattern.Replaced p s out) (hs : Canonical s) : Canonical out := by
  induction h with
  | done => exact hs
  | found _ _ ih => exact hp.2 _ (ih hs.of_append)
  | @kept r s out _ hreplaced ih =>
    cases r with
    | char c => exact ih hs
    | invalid b => exact ⟨charWidth_of_replaced hp hreplaced hs.1, ih hs.2⟩

theorem runes_replaceAllString {p : Pattern Rune} (hp : Bracketed p) (s : GoString) :
    runes (replaceAllString p s) = p.replaceAll (runes s) :=
  runes_bytesOf (canonical_of_replaced hp (p.replaced_replaceAll _) (canonical_runes s))

theorem runes_foldl {patterns : List (Pattern Rune)} (hp : ∀ p ∈ patterns, Bracketed p)
    (s : GoString) :
    runes (patterns.foldl (fun s p => replaceAllString p s) s) = scrub patterns (runes s) := by
  induction patterns generalizing s with
  | nil => rfl
  | cons p patterns ih =>
    obtain ⟨hfirst, hrest⟩ := List.forall_mem_cons.mp hp
    rw [List.foldl_cons, ih hrest, runes_replaceAllString hfirst]
    rfl

theorem bracketed_secretPattern (name : String) {re : Regex Rune} (h : re.nullable = false) :
    Bracketed (secretPattern name re h) := by
  refine ⟨⟨_, rfl⟩, fun t ht => ?_⟩
  have hmarker : (secretPattern name re h).marker =
      ("[REDACTED:".toList ++ (name.toList ++ "]".toList)).map Rune.char := by
    rw [List.map_append, List.map_append]
    rfl
  rw [hmarker]
  exact canonical_text_append _ ht

theorem bracketed_default : ∀ p ∈ newSecretRedactor.patterns, Bracketed p := by
  simp only [newSecretRedactor, defaultPatterns, List.forall_mem_cons]
  refine ⟨?_, ?_, ?_, ?_, ?_, ?_, ?_, ?_, ?_, ?_, ?_, by simp⟩
  all_goals exact bracketed_secretPattern _ _

/-- A string is redacted as its runes are. -/
theorem runes_redactString (s : GoString) :
    runes (newSecretRedactor.redactString s) = newSecretRedactor.redact (runes s) :=
  runes_foldl bracketed_default s

/-- In a redacted string nothing is matched by a default pattern, and redacting it again changes
nothing. -/
theorem redact_complete (s : GoString) :
    (∀ p ∈ newSecretRedactor.patterns,
      ¬p.re.Contains (runes (newSecretRedactor.redactString s))) ∧
    newSecretRedactor.redactString (newSecretRedactor.redactString s) =
      newSecretRedactor.redactString s := by
  have hclean : ∀ p ∈ newSecretRedactor.patterns,
      ¬p.re.Contains (runes (newSecretRedactor.redactString s)) := by
    intro p hp hcontains
    rw [runes_redactString] at hcontains
    exact redact_clean (runes s) ⟨p, hp, hcontains⟩
  refine ⟨hclean, ?_⟩
  have hrunes : runes (newSecretRedactor.redactString (newSecretRedactor.redactString s)) =
      runes (newSecretRedactor.redactString s) :=
    (runes_redactString _).trans (scrub_of_not_contains hclean)
  rw [← bytesOf_runes (newSecretRedactor.redactString (newSecretRedactor.redactString s)), hrunes,
    bytesOf_runes]

end Persatrix.Security
