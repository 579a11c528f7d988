import Persatrix.Decimal
import Mathlib.Data.Int.Log
import Mathlib.Data.Rat.Floor
import Mathlib.Tactic.FieldSimp
import Mathlib.Tactic.Linarith

/-!
# Double precision

A finite `float64` is a sign, a mantissa of 53 bits and a power of two. A decimal is rounded
to the nearest one, and to the even mantissa halfway. A number is printed with the fewest
digits that are read back as it.
-/
namespace Persatrix

structure Float64 where
  neg : Bool
  mantissa : ℕ
  exponent : ℤ
  small : mantissa < 2 ^ 53
  low : -1074 ≤ exponent
  high : exponent ≤ 971
  normal : exponent = -1074 ∨ 2 ^ 52 ≤ mantissa
deriving DecidableEq

namespace Float64

def abs (x : Float64) : ℚ := x.mantissa * 2 ^ x.exponent

/-- The nearest natural number, and the even one of two. -/
def roundEven (q : ℚ) : ℕ :=
  let n := ⌊q⌋₊
  if q - n < 1 / 2 then n
  else if 1 / 2 < q - n then n + 1
  else if n % 2 = 0 then n
  else n + 1

theorem roundEven_natCast (n : ℕ) : roundEven n = n := by
  simp [roundEven]

/-- The exponent of the mantissas among which a number is rounded. -/
def scale (q : ℚ) : ℤ := max (-1074) (Int.log 2 q - 52)

/-- The mantissa and the exponent of the nearest double, if it is finite. -/
def nearest (q : ℚ) : Option (ℕ × ℤ) :=
  if q = 0 then some (0, -1074)
  else
    let m := roundEven (q / 2 ^ scale q)
    let p := if m = 2 ^ 53 then (2 ^ 52, scale q + 1) else (m, scale q)
    if p.2 ≤ 971 then some p else none

def ofParts (neg : Bool) (p : ℕ × ℤ) : Option Float64 :=
  if h : p.1 < 2 ^ 53 ∧ -1074 ≤ p.2 ∧ p.2 ≤ 971 ∧ (p.2 = -1074 ∨ 2 ^ 52 ≤ p.1) then
    some ⟨neg, p.1, p.2, h.1, h.2.1, h.2.2.1, h.2.2.2⟩
  else none

theorem ofParts_self (x : Float64) : ofParts x.neg (x.mantissa, x.exponent) = some x :=
  dif_pos ⟨x.small, x.low, x.high, x.normal⟩

theorem abs_pos {x : Float64} (h : x.mantissa ≠ 0) : 0 < x.abs := by
  have hm : (0 : ℚ) < x.mantissa := Nat.cast_pos.mpr (Nat.pos_of_ne_zero h)
  exact mul_pos hm (zpow_pos (by norm_num) _)

/-- A double is rounded among the mantissas with its own exponent. -/
theorem scale_abs {x : Float64} (h : x.mantissa ≠ 0) : scale x.abs = x.exponent := by
  have hpos := abs_pos h
  have htwo : (0 : ℚ) < 2 ^ x.exponent := zpow_pos (by norm_num) _
  have hupper : Int.log 2 x.abs < x.exponent + 53 := by
    apply (Int.lt_zpow_iff_log_lt (by norm_num) hpos).mp
    have hsmall : (x.mantissa : ℚ) < 2 ^ 53 := by exact_mod_cast x.small
    have hsplit : ((2 : ℕ) : ℚ) ^ (x.exponent + 53) = 2 ^ 53 * 2 ^ x.exponent := by
      rw [Nat.cast_ofNat, zpow_add₀ (by norm_num), mul_comm]
      norm_cast
    rw [hsplit]
    exact mul_lt_mul_of_pos_right hsmall htwo
  have hlow := x.low
  unfold scale
  rcases x.normal with hexp | hnormal
  · omega
  · have hlower : x.exponent + 52 ≤ Int.log 2 x.abs := by
      apply (Int.zpow_le_iff_le_log (by norm_num) hpos).mp
      have hbig : (2 ^ 52 : ℚ) ≤ x.mantissa := by exact_mod_cast hnormal
      have hsplit : ((2 : ℕ) : ℚ) ^ (x.exponent + 52) = 2 ^ 52 * 2 ^ x.exponent := by
        rw [Nat.cast_ofNat, zpow_add₀ (by norm_num), mul_comm]
        norm_cast
      rw [hsplit]
      exact mul_le_mul_of_nonneg_right hbig htwo.le
    omega

theorem exponent_of_zero {x : Float64} (h : x.mantissa = 0) : x.exponent = -1074 := by
  rcases x.normal with hexp | hnormal
  · exact hexp
  · rw [h] at hnormal
    norm_num at hnormal

/-- A double is the nearest one to itself. -/
theorem nearest_abs (x : Float64) : nearest x.abs = some (x.mantissa, x.exponent) := by
  by_cases h : x.mantissa = 0
  · have hzero : x.abs = 0 := by simp [abs, h]
    rw [nearest, if_pos hzero, h, exponent_of_zero h]
  · have hne : x.abs ≠ 0 := (abs_pos h).ne'
    have hround : roundEven (x.abs / 2 ^ x.exponent) = x.mantissa := by
      have htwo : (2 : ℚ) ^ x.exponent ≠ 0 := zpow_ne_zero _ (by norm_num)
      rw [abs, mul_div_assoc, div_self htwo, mul_one, roundEven_natCast]
    rw [nearest, if_neg hne, scale_abs h]
    dsimp only
    rw [hround, if_neg x.small.ne, if_pos x.high]

/-- Some digits, given by how many more there are than places before the point are needed, and
a power of ten that are read as a double. -/
def candidate (x : Float64) (places : ℕ) : Option (ℕ × ℤ) :=
  let k := Int.log 10 x.abs + 1 - places
  let low := ⌊x.abs / 10 ^ k⌋₊
  let reads (n : ℕ) := nearest (n * 10 ^ k) = some (x.mantissa, x.exponent)
  if reads low ∧ reads (low + 1) then some (roundEven (x.abs / 10 ^ k), k)
  else if reads low then some (low, k)
  else if reads (low + 1) then some (low + 1, k)
  else none

/-- All the digits of a double. -/
def allDigits (x : Float64) : ℕ × ℤ :=
  (x.mantissa * 2 ^ (x.exponent + (1074 : ℕ)).toNat * 5 ^ 1074, -(1074 : ℕ))

def fewestDigits (x : Float64) : ℕ × ℤ :=
  ((List.range 18).findSome? (candidate x)).getD (allDigits x)

theorem roundEven_cases (q : ℚ) : roundEven q = ⌊q⌋₊ ∨ roundEven q = ⌊q⌋₊ + 1 := by
  unfold roundEven
  dsimp only
  split_ifs
  · exact .inl rfl
  · exact .inr rfl
  · exact .inl rfl
  · exact .inr rfl

theorem candidate_reads {x : Float64} {places : ℕ} {p : ℕ × ℤ} (h : candidate x places = some p) :
    nearest (p.1 * 10 ^ p.2) = some (x.mantissa, x.exponent) := by
  unfold candidate at h
  dsimp only at h
  split_ifs at h with hboth hlow hhigh
  · cases h
    dsimp only
    rcases roundEven_cases (x.abs / 10 ^ (Int.log 10 x.abs + 1 - places)) with hround | hround
    · rw [hround]
      exact hboth.1
    · rw [hround]
      exact hboth.2
  · cases h
    exact hlow
  · cases h
    exact hhigh

theorem allDigits_value (m j : ℕ) {e : ℤ} (h : -(j : ℤ) ≤ e) :
    ((m * 2 ^ (e + j).toNat * 5 ^ j : ℕ) : ℚ) * 10 ^ (-(j : ℤ)) = m * 2 ^ e := by
  have hten : (10 : ℚ) ^ (-(j : ℤ)) = 2 ^ (-(j : ℤ)) * 5 ^ (-(j : ℤ)) := by
    rw [← mul_zpow]
    norm_num
  have htwo : ((2 : ℚ) ^ (e + j).toNat) = 2 ^ e * 2 ^ (j : ℤ) := by
    rw [← zpow_natCast, Int.toNat_of_nonneg (by omega), zpow_add₀ (by norm_num)]
  have hcancel : ∀ b : ℚ, b ≠ 0 → b ^ (j : ℤ) * b ^ (-(j : ℤ)) = 1 := by
    intro b hb
    rw [← zpow_add₀ hb, add_neg_cancel, zpow_zero]
  have hfive : ((5 : ℚ) ^ j) = 5 ^ (j : ℤ) := (zpow_natCast _ _).symm
  push_cast
  rw [hten, htwo, hfive]
  calc (m : ℚ) * (2 ^ e * 2 ^ (j : ℤ)) * 5 ^ (j : ℤ) * (2 ^ (-(j : ℤ)) * 5 ^ (-(j : ℤ)))
      = m * 2 ^ e * (2 ^ (j : ℤ) * 2 ^ (-(j : ℤ))) * (5 ^ (j : ℤ) * 5 ^ (-(j : ℤ))) := by ring
    _ = m * 2 ^ e := by rw [hcancel 2 (by norm_num), hcancel 5 (by norm_num), mul_one, mul_one]

/-- The printed digits are read back as the double. -/
theorem fewestDigits_reads (x : Float64) :
    nearest ((fewestDigits x).1 * 10 ^ (fewestDigits x).2) = some (x.mantissa, x.exponent) := by
  unfold fewestDigits
  cases hfound : (List.range 18).findSome? (candidate x) with
  | none =>
    rw [Option.getD_none, allDigits, allDigits_value x.mantissa 1074 x.low]
    exact nearest_abs x
  | some p =>
    obtain ⟨_, _, hp⟩ := List.exists_of_findSome?_eq_some hfound
    exact candidate_reads hp

/-- Takes zeros off the end of some digits. -/
def trim : ℕ → ℕ × ℤ → ℕ × ℤ
  | 0, p => p
  | turns + 1, p => if p.1 ≠ 0 ∧ p.1 % 10 = 0 then trim turns (p.1 / 10, p.2 + 1) else p

theorem trim_value (turns : ℕ) (p : ℕ × ℤ) :
    ((trim turns p).1 : ℚ) * 10 ^ (trim turns p).2 = p.1 * 10 ^ p.2 := by
  induction turns generalizing p with
  | zero => rfl
  | succ turns ih =>
    rw [trim]
    split_ifs with h
    · rw [ih]
      dsimp only
      have hten : (p.1 : ℚ) = (p.1 / 10 : ℕ) * 10 := by
        exact_mod_cast (Nat.div_mul_cancel (Nat.dvd_of_mod_eq_zero h.2)).symm
      rw [hten, zpow_add_one₀ (by norm_num)]
      ring
    · rfl

/-- The digits that are printed. -/
def digits (x : Float64) : ℕ × ℤ :=
  trim (decimal (fewestDigits x).1).length (fewestDigits x)

theorem digits_reads (x : Float64) :
    nearest ((digits x).1 * 10 ^ (digits x).2) = some (x.mantissa, x.exponent) := by
  unfold digits
  rw [trim_value]
  exact fewestDigits_reads x

theorem digits_ne_zero {x : Float64} (h : x.mantissa ≠ 0) : (digits x).1 ≠ 0 := by
  intro hzero
  have hreads := digits_reads x
  rw [hzero, Nat.cast_zero, zero_mul, nearest, if_pos rfl, Option.some.injEq,
    Prod.mk.injEq] at hreads
  exact h hreads.1.symm

end Float64

/-! ### Number tokens -/

def minus : UInt8 := 45

def plus : UInt8 := 43

def point : UInt8 := 46

/-- A number: whether it is negative, its digits, and the power of ten they count. -/
structure Number where
  neg : Bool
  digits : ℕ
  exponent : ℤ
deriving DecidableEq

def readSign : GoString → Bool × GoString
  | [] => (false, [])
  | b :: s => if b = minus then (true, s) else (false, b :: s)

/-- The digits after the point, and the rest. -/
def readFraction : GoString → Option (GoString × GoString)
  | [] => some ([], [])
  | b :: s =>
    if b = point then
      if s.takeWhile isDigit = [] then none
      else some (s.takeWhile isDigit, s.dropWhile isDigit)
    else some ([], b :: s)

def readDigits (s : GoString) : Option ℕ :=
  if s ≠ [] ∧ s.all isDigit then some (digitsValue s) else none

def readExponent : GoString → Option ℤ
  | [] => some 0
  | b :: s =>
    if b = 101 ∨ b = 69 then
      match s with
      | [] => none
      | c :: t =>
        if c = minus then (readDigits t).map fun n : ℕ => -(n : ℤ)
        else if c = plus then (readDigits t).map fun n : ℕ => (n : ℤ)
        else (readDigits s).map fun n : ℕ => (n : ℤ)
    else none

/-- Reads a number token. -/
def readNumber (s : GoString) : Option Number :=
  let i := (readSign s).2.takeWhile isDigit
  if i = [] ∨ 1 < i.length ∧ i.head? = some (digit 0) then none
  else
    match readFraction ((readSign s).2.dropWhile isDigit) with
    | none => none
    | some (f, t) =>
      (readExponent t).map fun e => ⟨(readSign s).1, digitsValue (i ++ f), e - f.length⟩

def exponentText : Option ℤ → GoString
  | none => []
  | some e => 101 :: (if e < 0 then minus else plus) :: decimal e.natAbs

def fractionText (f : GoString) : GoString := if f = [] then [] else point :: f

/-- The text of a number with given digits before and after the point. -/
def numberText (neg : Bool) (i f : GoString) (e : Option ℤ) : GoString :=
  (if neg then [minus] else []) ++ (i ++ (fractionText f ++ exponentText e))

theorem readExponent_exponentText (e : Option ℤ) :
    readExponent (exponentText e) = some (e.getD 0) := by
  cases e with
  | none => rfl
  | some e =>
    have hdigits : readDigits (decimal e.natAbs) = some e.natAbs := by
      unfold readDigits
      rw [if_pos, digitsValue_decimal]
      refine ⟨decimal_ne_nil _, List.all_eq_true.mpr ?_⟩
      intro b hb
      exact isDigit_of_mem_decimal hb
    rw [exponentText, readExponent, if_pos (.inl rfl)]
    by_cases hneg : e < 0
    · rw [if_pos hneg, if_pos rfl, hdigits, Option.map_some, Option.getD_some]
      congr 1
      omega
    · rw [if_neg hneg, if_neg (by decide), if_pos rfl, hdigits, Option.map_some,
        Option.getD_some]
      congr 1
      omega

theorem exponentText_head {e : Option ℤ} {b : UInt8} (h : (exponentText e).head? = some b) :
    b = 101 := by
  cases e with
  | none => cases h
  | some e =>
    cases h
    rfl

theorem fraction_head {f : GoString} {e : Option ℤ} {b : UInt8}
    (h : (fractionText f ++ exponentText e).head? = some b) : b = point ∨ b = 101 := by
  unfold fractionText at h
  split_ifs at h with hf
  · exact .inr (exponentText_head h)
  · cases h
    exact .inl rfl

theorem readFraction_fractionText {f : GoString} (hf : ∀ b ∈ f, isDigit b = true) (e : Option ℤ) :
    readFraction (fractionText f ++ exponentText e) = some (f, exponentText e) := by
  unfold fractionText
  split_ifs with hnil
  · rw [hnil, List.nil_append]
    cases e with
    | none => rfl
    | some e =>
      have hne : (101 : UInt8) ≠ point := by decide
      rw [exponentText, readFraction, if_neg hne]
  · have hspan := span_digits hf (t := exponentText e) (by
      intro b hb
      rw [exponentText_head hb]
      rfl)
    rw [List.cons_append, readFraction, if_pos rfl, hspan.1, hspan.2, if_neg hnil]

/-- A text built from its parts is read as the number they stand for. -/
theorem readNumber_numberText {i f : GoString} (neg : Bool) (e : Option ℤ)
    (hi : ∀ b ∈ i, isDigit b = true) (hne : i ≠ [])
    (hhead : i.length = 1 ∨ i.head? ≠ some (digit 0)) (hf : ∀ b ∈ f, isDigit b = true) :
    readNumber (numberText neg i f e) =
      some ⟨neg, digitsValue (i ++ f), e.getD 0 - f.length⟩ := by
  have hspan := span_digits hi (t := fractionText f ++ exponentText e) (by
    intro b hb
    rcases fraction_head hb with rfl | rfl
    · rfl
    · rfl)
  have hsign : readSign (numberText neg i f e) =
      (neg, i ++ (fractionText f ++ exponentText e)) := by
    unfold numberText
    cases neg with
    | true => rfl
    | false =>
      cases i with
      | nil => exact absurd rfl hne
      | cons b i =>
        have hb : b ≠ minus := by
          intro hminus
          have hdigit := hi b (List.mem_cons_self ..)
          rw [hminus] at hdigit
          cases hdigit
        exact if_neg hb
  have hfirst : ¬ (i = [] ∨ 1 < i.length ∧ i.head? = some (digit 0)) := by
    rintro (hnil | ⟨hlength, hzero⟩)
    · exact hne hnil
    · rcases hhead with hone | hdigit
      · omega
      · exact hdigit hzero
  unfold readNumber
  rw [hsign]
  dsimp only
  rw [hspan.1, hspan.2, if_neg hfirst, readFraction_fractionText hf]
  dsimp only
  rw [readExponent_exponentText]
  rfl

namespace Float64

def zeros (k : ℕ) : GoString := List.replicate k (digit 0)

/-- The constant `1e-6`. -/
def millionth : Float64 where
  neg := false
  mantissa := 0x10c6f7a0b5ed8d
  exponent := -72
  small := by norm_num
  low := by norm_num
  high := by norm_num
  normal := .inr (by norm_num)

/-- The digits before and after the point, and the exponent that is printed. -/
def layout (x : Float64) : GoString × GoString × Option ℤ :=
  let ds := decimal (digits x).1
  let places : ℤ := ds.length + (digits x).2
  if x.mantissa = 0 then ([digit 0], [], none)
  else if millionth.abs ≤ x.abs ∧ x.abs < 10 ^ 21 then
    if places ≤ 0 then ([digit 0], zeros (-places).toNat ++ ds, none)
    else if ds.length ≤ places then (ds ++ zeros (places - ds.length).toNat, [], none)
    else (ds.take places.toNat, ds.drop places.toNat, none)
  else (ds.take 1, ds.drop 1, some (places - 1))

theorem zeros_digits {k : ℕ} {b : UInt8} (h : b ∈ zeros k) : isDigit b = true := by
  rw [List.eq_of_mem_replicate h]
  rfl

/-- Digits below the point, with zeros in front. -/
theorem value_below {ds : GoString} {k : ℤ} (h : ds.length + k ≤ 0) :
    (digitsValue ([digit 0] ++ (zeros (-(ds.length + k)).toNat ++ ds)) : ℚ) *
      10 ^ (0 - ((zeros (-(ds.length + k)).toNat ++ ds).length : ℤ)) = digitsValue ds * 10 ^ k := by
  have hexp : 0 - ((zeros (-(ds.length + k)).toNat ++ ds).length : ℤ) = k := by
    rw [zeros, List.length_append, List.length_replicate]
    omega
  rw [hexp, digitsValue_append, digitsValue_append, zeros, digitsValue_replicate_zero,
    digitsValue_singleton]
  simp [digitValue_digit]

/-- Digits above the point, with zeros behind. -/
theorem value_above {ds : GoString} {k : ℤ} (h : 0 ≤ k) :
    (digitsValue (ds ++ zeros (ds.length + k - ds.length).toNat) : ℚ) =
      digitsValue ds * 10 ^ k := by
  obtain ⟨j, rfl⟩ := Int.eq_ofNat_of_zero_le h
  have hcount : ((ds.length : ℤ) + (j : ℕ) - ds.length).toNat = j := by omega
  rw [hcount, digitsValue_append, zeros, digitsValue_replicate_zero, List.length_replicate]
  simp

/-- The digits of a number with the point among them. -/
theorem digits_split {ds : GoString} {cut : ℕ} (hdigit : ∀ b ∈ ds, isDigit b = true)
    (hhead : ds.head? ≠ some (digit 0)) (hne : ds ≠ []) (hcut : 0 < cut) :
    (∀ b ∈ ds.take cut, isDigit b = true) ∧ ds.take cut ≠ [] ∧
      ((ds.take cut).length = 1 ∨ (ds.take cut).head? ≠ some (digit 0)) ∧
      ∀ b ∈ ds.drop cut, isDigit b = true := by
  refine ⟨fun c hc => hdigit c (List.mem_of_mem_take hc), fun hnil => ?_, .inr ?_,
    fun c hc => hdigit c (List.mem_of_mem_drop hc)⟩
  · rcases List.take_eq_nil_iff.mp hnil with hzero | hnil
    · omega
    · exact hne hnil
  · rw [List.head?_take, if_neg (by omega)]
    exact hhead

/-- What is printed before and after the point is digits, without a zero in front. -/
theorem layout_spec (x : Float64) :
    (∀ b ∈ x.layout.1, isDigit b = true) ∧ x.layout.1 ≠ [] ∧
      (x.layout.1.length = 1 ∨ x.layout.1.head? ≠ some (digit 0)) ∧
      (∀ b ∈ x.layout.2.1, isDigit b = true) ∧
      ((digitsValue (x.layout.1 ++ x.layout.2.1) : ℚ) *
        10 ^ (x.layout.2.2.getD 0 - x.layout.2.1.length) = (digits x).1 * 10 ^ (digits x).2 ∨
        x.mantissa = 0 ∧ digitsValue (x.layout.1 ++ x.layout.2.1) = 0) := by
  unfold layout
  dsimp only
  by_cases hzero : x.mantissa = 0
  · rw [if_pos hzero]
    refine ⟨by simp [isDigit_digit], by simp, .inl rfl, by simp, .inr ⟨hzero, rfl⟩⟩
  · obtain ⟨b, s, hds, hb⟩ := decimal_head (digits_ne_zero hzero)
    have hdigit : ∀ c ∈ decimal (digits x).1, isDigit c = true := fun c => isDigit_of_mem_decimal
    have hhead : (decimal (digits x).1).head? ≠ some (digit 0) := by
      rw [hds]
      intro h
      cases h
      exact hb rfl
    have hne : decimal (digits x).1 ≠ [] := decimal_ne_nil _
    have hvalue := digitsValue_decimal (digits x).1
    generalize decimal (digits x).1 = ds at hdigit hhead hne hvalue
    have hpos : 0 < ds.length := List.length_pos_iff.mpr hne
    rw [if_neg hzero]
    split_ifs with hplain hbelow habove
    · refine ⟨by simp [isDigit_digit], by simp, .inl rfl, ?_, .inl ?_⟩
      · intro c hc
        rcases List.mem_append.mp hc with hc | hc
        · exact zeros_digits hc
        · exact hdigit c hc
      · rw [Option.getD_none, value_below hbelow, hvalue]
    · refine ⟨?_, by simp [hne], .inr ?_, by simp, .inl ?_⟩
      · intro c hc
        rcases List.mem_append.mp hc with hc | hc
        · exact hdigit c hc
        · exact zeros_digits hc
      · rw [List.head?_append_of_ne_nil _ hne]
        exact hhead
      · rw [List.append_nil, value_above (by omega), hvalue]
        simp
    · have hsplit : (((ds.length : ℤ) + (digits x).2).toNat : ℤ) = ds.length + (digits x).2 :=
        Int.toNat_of_nonneg (by omega)
      generalize ((ds.length : ℤ) + (digits x).2).toNat = cut at hsplit
      obtain ⟨hbefore, hfirst, hzeros, hafter⟩ := digits_split hdigit hhead hne
        (show 0 < cut by omega)
      refine ⟨hbefore, hfirst, hzeros, hafter, .inl ?_⟩
      have hexp : 0 - ((ds.length - cut : ℕ) : ℤ) = (digits x).2 := by omega
      rw [List.take_append_drop, hvalue, List.length_drop, Option.getD_none, hexp]
    · obtain ⟨hbefore, hfirst, hzeros, hafter⟩ := digits_split hdigit hhead hne Nat.one_pos
      refine ⟨hbefore, hfirst, hzeros, hafter, .inl ?_⟩
      have hexp : (ds.length : ℤ) + (digits x).2 - 1 - ((ds.length - 1 : ℕ) : ℤ) = (digits x).2 := by
        omega
      rw [List.take_append_drop, hvalue, List.length_drop, Option.getD_some, hexp]

def format (x : Float64) : GoString :=
  numberText x.neg x.layout.1 x.layout.2.1 x.layout.2.2

/-- The double a number token stands for, if it is finite. -/
def parse (s : GoString) : Option Float64 :=
  match readNumber s with
  | none => none
  | some n => (nearest (n.digits * 10 ^ n.exponent)).bind (ofParts n.neg)

theorem readNumber_format (x : Float64) :
    readNumber (format x) = some ⟨x.neg, digitsValue (x.layout.1 ++ x.layout.2.1),
      x.layout.2.2.getD 0 - x.layout.2.1.length⟩ := by
  obtain ⟨hi, hne, hhead, hf, -⟩ := layout_spec x
  exact readNumber_numberText x.neg x.layout.2.2 hi hne hhead hf

/-- A printed double is read back. -/
theorem parse_format (x : Float64) : parse (format x) = some x := by
  have hreads : nearest (digitsValue (x.layout.1 ++ x.layout.2.1) *
      10 ^ (x.layout.2.2.getD 0 - x.layout.2.1.length)) = some (x.mantissa, x.exponent) := by
    rcases (layout_spec x).2.2.2.2 with hvalue | ⟨hmantissa, hzero⟩
    · rw [hvalue]
      exact digits_reads x
    · rw [hzero, Nat.cast_zero, zero_mul, nearest, if_pos rfl, hmantissa,
        exponent_of_zero hmantissa]
  rw [parse, readNumber_format]
  dsimp only
  rw [hreads]
  exact ofParts_self x

end Float64
end Persatrix

/-!
## Python's text of a double

`repr` prints the fewest digits that are read back as the double, with a point and a digit behind
it unless there is an exponent, and an exponent with two digits at least.
-/
namespace Persatrix.Float64

/-- The digits before and after the point, and the exponent that `repr` prints. -/
def reprLayout (x : Float64) : GoString × GoString × Option ℤ :=
  let ds := decimal (digits x).1
  let places : ℤ := ds.length + (digits x).2
  if x.mantissa = 0 then ([digit 0], [digit 0], none)
  else if -4 < places ∧ places ≤ 16 then
    if places ≤ 0 then ([digit 0], zeros (-places).toNat ++ ds, none)
    else if ds.length ≤ places then (ds ++ zeros (places - ds.length).toNat, [digit 0], none)
    else (ds.take places.toNat, ds.drop places.toNat, none)
  else (ds.take 1, ds.drop 1, some (places - 1))

/-- The digits of an exponent, two at least. -/
def exponentDigits (n : ℕ) : GoString := if n < 10 then digit 0 :: decimal n else decimal n

def reprExponent : Option ℤ → GoString
  | none => []
  | some e => 101 :: (if e < 0 then minus else plus) :: exponentDigits e.natAbs

def repr (x : Float64) : GoString :=
  (if x.neg then [minus] else []) ++
    (x.reprLayout.1 ++ (fractionText x.reprLayout.2.1 ++ reprExponent x.reprLayout.2.2))

end Persatrix.Float64
