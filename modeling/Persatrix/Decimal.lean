import Persatrix.Bytes
import Mathlib.Data.Nat.Digits.Lemmas

/-!
# Numbers in decimal notation
-/
namespace Persatrix

def digit (n : ℕ) : UInt8 := UInt8.ofNat (48 + n)

def isDigit (b : UInt8) : Bool := 48 ≤ b.toNat && b.toNat ≤ 57

def digitValue (b : UInt8) : ℕ := b.toNat - 48

def digitsValue (s : GoString) : ℕ := s.foldl (fun n b => 10 * n + digitValue b) 0

def decimal (n : ℕ) : GoString :=
  if n = 0 then [digit 0] else (Nat.digits 10 n).reverse.map digit

/-- The last digits of a number. -/
def padded : ℕ → ℕ → GoString
  | 0, _ => []
  | k + 1, n => digit (n / 10 ^ k % 10) :: padded k n

@[simp] theorem padded_length (k n : ℕ) : (padded k n).length = k := by
  induction k with
  | zero => rfl
  | succ k ih => rw [padded, List.length_cons, ih]

theorem toNat_digit {n : ℕ} (h : n < 10) : (digit n).toNat = 48 + n := by
  rw [digit, UInt8.toNat_ofNat']
  omega

theorem isDigit_digit {n : ℕ} (h : n < 10) : isDigit (digit n) = true := by
  simp only [isDigit, toNat_digit h, Bool.and_eq_true, decide_eq_true_eq]
  omega

theorem digitValue_digit {n : ℕ} (h : n < 10) : digitValue (digit n) = n := by
  rw [digitValue, toNat_digit h]
  omega

theorem digit_digitValue {b : UInt8} (h : isDigit b = true) : digit (digitValue b) = b := by
  simp only [isDigit, Bool.and_eq_true, decide_eq_true_eq] at h
  apply UInt8.toNat_inj.mp
  rw [digit, digitValue, UInt8.toNat_ofNat']
  omega

@[simp] theorem digitsValue_nil : digitsValue [] = 0 := rfl

theorem digitsValue_append (s t : GoString) :
    digitsValue (s ++ t) = digitsValue s * 10 ^ t.length + digitsValue t := by
  induction t using List.reverseRecOn with
  | nil => simp
  | append_singleton t b ih =>
    have hlast : ∀ u : GoString, digitsValue (u ++ [b]) = 10 * digitsValue u + digitValue b := by
      intro u
      rw [digitsValue, List.foldl_append]
      rfl
    rw [← List.append_assoc, hlast, hlast, ih, List.length_append, List.length_singleton,
      Nat.pow_succ]
    ring

theorem digitsValue_singleton (b : UInt8) : digitsValue [b] = digitValue b := by
  rw [digitsValue, List.foldl_cons, List.foldl_nil, Nat.mul_zero, Nat.zero_add]

theorem digitsValue_replicate_zero (k : ℕ) : digitsValue (List.replicate k (digit 0)) = 0 := by
  induction k with
  | zero => rfl
  | succ k ih => rw [List.replicate_succ', digitsValue_append, ih, digitsValue_singleton]; rfl

theorem digitsValue_reverse_map {l : List ℕ} (h : ∀ d ∈ l, d < 10) :
    digitsValue (l.reverse.map digit) = Nat.ofDigits 10 l := by
  induction l with
  | nil => rfl
  | cons d l ih =>
    rw [List.forall_mem_cons] at h
    rw [List.reverse_cons, List.map_append, digitsValue_append, ih h.2, Nat.ofDigits_cons,
      List.map_cons, List.map_nil, digitsValue_singleton, digitValue_digit h.1,
      List.length_singleton]
    ring

@[simp] theorem digitsValue_decimal (n : ℕ) : digitsValue (decimal n) = n := by
  unfold decimal
  split_ifs with h
  · rw [h]
    rfl
  · rw [digitsValue_reverse_map fun d hd => Nat.digits_lt_base (by omega) hd, Nat.ofDigits_digits]

theorem decimal_injective {a b : ℕ} (h : decimal a = decimal b) : a = b := by
  rw [← digitsValue_decimal a, h, digitsValue_decimal]

theorem isDigit_of_mem_decimal {n : ℕ} {b : UInt8} (h : b ∈ decimal n) : isDigit b = true := by
  unfold decimal at h
  split_ifs at h
  · rw [List.mem_singleton.mp h]
    rfl
  · obtain ⟨d, hd, rfl⟩ := List.mem_map.mp h
    exact isDigit_digit (Nat.digits_lt_base (by omega) (List.mem_reverse.mp hd))

theorem decimal_ne_nil (n : ℕ) : decimal n ≠ [] := by
  unfold decimal
  split_ifs with h
  · simp
  · simpa using Nat.digits_ne_nil_iff_ne_zero.mpr h

/-- A number that is not zero does not begin with the digit zero. -/
theorem decimal_head {n : ℕ} (h : n ≠ 0) : ∃ b s, decimal n = b :: s ∧ b ≠ digit 0 := by
  have hne : Nat.digits 10 n ≠ [] := Nat.digits_ne_nil_iff_ne_zero.mpr h
  have hsplit := List.dropLast_append_getLast hne
  have hlast : (Nat.digits 10 n).getLast hne ≠ 0 := Nat.getLast_digit_ne_zero 10 h
  have hlt : (Nat.digits 10 n).getLast hne < 10 :=
    Nat.digits_lt_base (by omega) (List.getLast_mem hne)
  refine ⟨digit ((Nat.digits 10 n).getLast hne), (Nat.digits 10 n).dropLast.reverse.map digit,
    ?_, ?_⟩
  · unfold decimal
    rw [if_neg h]
    conv_lhs => rw [← hsplit]
    rw [List.reverse_append, List.map_append]
    rfl
  · intro hzero
    apply hlast
    rw [← digitValue_digit hlt, hzero]
    rfl

theorem digitsValue_padded {k n : ℕ} (h : n < 10 ^ k) : digitsValue (padded k n) = n := by
  have hmod : ∀ k, digitsValue (padded k n) = n % 10 ^ k := by
    intro k
    induction k with
    | zero => simp [padded, Nat.mod_one]
    | succ k ih =>
      have hdigit : n / 10 ^ k % 10 < 10 := Nat.mod_lt _ (by omega)
      rw [padded, ← List.singleton_append, digitsValue_append, ih, digitsValue_singleton,
        digitValue_digit hdigit, padded_length, Nat.pow_succ, Nat.mod_mul]
      ring
  rw [hmod, Nat.mod_eq_of_lt h]

theorem isDigit_of_mem_padded {k n : ℕ} {b : UInt8} (h : b ∈ padded k n) : isDigit b = true := by
  induction k with
  | zero => cases h
  | succ k ih =>
    rw [padded] at h
    rcases List.mem_cons.mp h with hb | hrest
    · rw [hb]
      exact isDigit_digit (Nat.mod_lt _ (by omega))
    · exact ih hrest

/-- The digits at the beginning, and the rest. -/
theorem span_digits {s t : GoString} (hs : ∀ b ∈ s, isDigit b = true)
    (hrest : ∀ b, t.head? = some b → isDigit b = false) :
    (s ++ t).takeWhile isDigit = s ∧ (s ++ t).dropWhile isDigit = t := by
  induction s with
  | nil =>
    cases t with
    | nil => exact ⟨rfl, rfl⟩
    | cons b t =>
      have hb := hrest b rfl
      constructor
      · rw [List.nil_append, List.takeWhile_cons_of_neg (by simp [hb])]
      · rw [List.nil_append, List.dropWhile_cons_of_neg (by simp [hb])]
  | cons b s ih =>
    rw [List.forall_mem_cons] at hs
    obtain ⟨htake, hdrop⟩ := ih hs.2
    rw [List.cons_append, List.takeWhile_cons_of_pos hs.1, List.dropWhile_cons_of_pos hs.1,
      htake, hdrop]
    exact ⟨rfl, rfl⟩

end Persatrix
