import Mathlib.Control.Lawful
import Mathlib.Data.Int.ConditionallyCompleteOrder
import Mathlib.Order.Monotone.Basic
import Mathlib.Tactic.Linarith
import Mathlib.Tactic.Ring
import Persatrix.GoValues

/-!
# The reserve of the bounded close

A capped interaction keeps a reserve for the calls of its close: the synthesis
turn and one summary for each record the room can hold. The functions are
written over an operation `word` that every sum and product goes through. With
`wrapped` they are the code; with `checked` they stop at the first intermediate
value that does not fit.
-/
namespace Persatrix.Wallet

def controlSenderSpeakers : ℤ := 2

def maxCloseRecordChannelSize : ℤ := 2046

def maxCloseRecords : ℤ :=
  (maxCloseRecordChannelSize + 1) * (maxCloseRecordChannelSize + 1) / 4 *
    (maxCloseRecordChannelSize + controlSenderSpeakers)

def defaultSynthesisCallReserveTokens : ℤ := 3500

def maxSynthesisReserveNumerator : ℤ := 1

def maxSynthesisReserveDenominator : ℤ := 2

/-- The value an operation leaves in an `int64`. -/
def wrapped (n : ℤ) : Id ℤ := int64 n

/-- The exact value when it is an `int64`. -/
def checked (n : ℤ) : Option ℤ :=
  if -2 ^ 63 ≤ n ∧ n < 2 ^ 63 then some n else none

section
variable {m : Type → Type} [Monad m] (word : ℤ → m ℤ)

def closeRecordUpperBound (channelSize : ℤ) : m ℤ :=
  if channelSize ≤ 0 then pure 0
  else if maxCloseRecordChannelSize < channelSize then pure maxCloseRecords
  else do
    let left ← word (channelSize + 1)
    let right ← word (channelSize + 1)
    let square ← word (left * right)
    let pairs := square.tdiv 4
    let speakers ← word (channelSize + controlSenderSpeakers)
    word (pairs * speakers)

/-- The reserve, and whether the half-cap clamp took effect. -/
def synthesisReserve (budgetTokens closeRecords : ℤ) : m (ℤ × Bool) :=
  if budgetTokens ≤ 0 then pure (0, false)
  else do
    let closeRecords := if closeRecords < 0 then 0 else closeRecords
    let closeRecords := if maxCloseRecords < closeRecords then maxCloseRecords else closeRecords
    let calls ← word (1 + closeRecords)
    let raw ← word (calls * defaultSynthesisCallReserveTokens)
    let scaled ← word (budgetTokens * maxSynthesisReserveNumerator)
    let ceiling := scaled.tdiv maxSynthesisReserveDenominator
    if ceiling < raw then pure (ceiling, true) else pure (raw, false)

def synthesisReserveTokens (budgetTokens closeRecords : ℤ) : m ℤ :=
  Prod.fst <$> synthesisReserve word budgetTokens closeRecords

def synthesisReserveClamped (budgetTokens closeRecords : ℤ) : m Bool :=
  Prod.snd <$> synthesisReserve word budgetTokens closeRecords

def synthesisSoftBudgetTokens (budgetTokens closeRecords : ℤ) : m ℤ :=
  if budgetTokens ≤ 0 then pure 0
  else do
    let reserve ← synthesisReserveTokens word budgetTokens closeRecords
    word (budgetTokens - reserve)

end

/-! ## The exact values -/

/-- The most pairs of a persona and a principal that a room of this size seats. -/
def partitionPairs (channelSize : ℤ) : ℤ := (channelSize + 1) * (channelSize + 1) / 4

/-- The channel size saturated at both ends. -/
def seats (channelSize : ℤ) : ℤ := max 0 (min channelSize maxCloseRecordChannelSize)

def recordBound (channelSize : ℤ) : ℤ :=
  partitionPairs (seats channelSize) * (seats channelSize + controlSenderSpeakers)

/-- The record count saturated at both ends. -/
def sizedRecords (closeRecords : ℤ) : ℤ := max 0 (min closeRecords maxCloseRecords)

def fullReserve (closeRecords : ℤ) : ℤ :=
  (1 + sizedRecords closeRecords) * defaultSynthesisCallReserveTokens

def heldBack (budgetTokens closeRecords : ℤ) : ℤ :=
  if budgetTokens ≤ 0 then 0 else min (fullReserve closeRecords) (budgetTokens / 2)

/-- A product of at most `channelSize` personas with the principals left beside them is at
most the partition maximum, as four times it is at most the square of the sum. -/
theorem pairs_le {c p q : ℤ} (hq : q ≤ c - p + 1) (hp : 0 ≤ p) :
    p * q ≤ partitionPairs c := by
  have hgrow : p * q ≤ p * (c - p + 1) := mul_le_mul_of_nonneg_left hq hp
  have hsquare : 4 * (p * (c - p + 1)) ≤ (c + 1) * (c + 1) := by
    have h := mul_self_nonneg (c + 1 - 2 * p)
    have hring : (c + 1 - 2 * p) * (c + 1 - 2 * p) =
        (c + 1) * (c + 1) - 4 * (p * (c - p + 1)) := by ring
    omega
  unfold partitionPairs
  omega

theorem partitionPairs_nonneg (c : ℤ) : 0 ≤ partitionPairs c := by
  have h := mul_self_nonneg (c + 1)
  unfold partitionPairs
  omega

theorem partitionPairs_mono {c d : ℤ} (hc : 0 ≤ c) (h : c ≤ d) :
    partitionPairs c ≤ partitionPairs d := by
  have hsquare : (c + 1) * (c + 1) ≤ (d + 1) * (d + 1) :=
    mul_le_mul (by omega) (by omega) (by omega) (by omega)
  unfold partitionPairs
  omega

theorem seats_nonneg (c : ℤ) : 0 ≤ seats c := le_max_left _ _

theorem seats_of_mem {c : ℤ} (hlow : 0 ≤ c) (hhigh : c ≤ 2046) : seats c = c := by
  unfold seats maxCloseRecordChannelSize
  omega

theorem seats_mono : Monotone seats := by
  intro c d h
  unfold seats
  omega

theorem recordBound_mono : Monotone recordBound := by
  intro c d h
  have hseats := seats_mono h
  have hnonneg := seats_nonneg c
  have hpairs := partitionPairs_nonneg (seats d)
  unfold recordBound controlSenderSpeakers
  exact mul_le_mul (partitionPairs_mono hnonneg hseats) (by omega) (by omega) hpairs

theorem recordBound_nonneg (c : ℤ) : 0 ≤ recordBound c := by
  have hnonneg := seats_nonneg c
  unfold recordBound controlSenderSpeakers
  exact mul_nonneg (partitionPairs_nonneg _) (by omega)

theorem recordBound_le (c : ℤ) : recordBound c ≤ maxCloseRecords := by
  have h : recordBound c ≤ recordBound (max c 2046) := recordBound_mono (le_max_left c 2046)
  have hseats : seats (max c 2046) = 2046 := by
    unfold seats maxCloseRecordChannelSize
    omega
  calc recordBound c ≤ recordBound (max c 2046) := h
    _ = maxCloseRecords := by
      rw [recordBound, hseats]
      rfl

theorem records_le {c p q s : ℤ} (hc : 0 ≤ c) (hhigh : c ≤ 2046) (hp : 0 ≤ p)
    (hq : q ≤ c - p + 1) (hs : 0 ≤ s) (hspeakers : s ≤ c + 2) : p * q * s ≤ recordBound c := by
  unfold recordBound controlSenderSpeakers
  rw [seats_of_mem hc hhigh]
  calc p * q * s ≤ partitionPairs c * s := mul_le_mul_of_nonneg_right (pairs_le hq hp) hs
    _ ≤ partitionPairs c * (c + 2) :=
      mul_le_mul_of_nonneg_left hspeakers (partitionPairs_nonneg c)

theorem sizedRecords_nonneg (r : ℤ) : 0 ≤ sizedRecords r := le_max_left _ _

theorem sizedRecords_le (r : ℤ) : sizedRecords r ≤ 2145386496 := by
  have h : maxCloseRecords = 2145386496 := rfl
  unfold sizedRecords
  omega

theorem sizedRecords_mono : Monotone sizedRecords := by
  intro a b h
  unfold sizedRecords
  omega

theorem heldBack_range (b r : ℤ) (hb : 0 < b) : 0 ≤ heldBack b r ∧ heldBack b r ≤ b / 2 := by
  have hnonneg := sizedRecords_nonneg r
  unfold heldBack fullReserve defaultSynthesisCallReserveTokens
  rw [if_neg (by omega)]
  omega

theorem heldBack_mono (b : ℤ) : Monotone (heldBack b) := by
  intro r s h
  have hrecords := sizedRecords_mono h
  unfold heldBack fullReserve defaultSynthesisCallReserveTokens
  split_ifs <;> omega

/-! ## The code has the exact values -/

section
variable {m : Type → Type} [Monad m] [LawfulMonad m] {word : ℤ → m ℤ}

/-- The bound fits a word of 32 bits with its sign. -/
theorem closeRecordUpperBound_eq (hword : ∀ n, 0 ≤ n → n < 2 ^ 31 → word n = pure n) (c : ℤ) :
    closeRecordUpperBound word c = pure (recordBound c) := by
  unfold closeRecordUpperBound
  by_cases hlow : c ≤ 0
  · have hseats : seats c = 0 := by
      unfold seats maxCloseRecordChannelSize
      omega
    rw [if_pos hlow, recordBound, hseats]
    rfl
  rw [if_neg hlow]
  by_cases hhigh : maxCloseRecordChannelSize < c
  · have hseats : seats c = 2046 := by
      unfold seats maxCloseRecordChannelSize at *
      omega
    rw [if_pos hhigh, recordBound, hseats]
    rfl
  have hc : c ≤ 2046 := not_lt.mp hhigh
  have hsquare : 0 ≤ (c + 1) * (c + 1) ∧ (c + 1) * (c + 1) ≤ 2047 * 2047 :=
    ⟨mul_self_nonneg _, mul_le_mul (by omega) (by omega) (by omega) (by omega)⟩
  have hpairs : ((c + 1) * (c + 1)).tdiv 4 = partitionPairs c :=
    Int.tdiv_eq_ediv_of_nonneg hsquare.1
  have hbound : recordBound c = partitionPairs c * (c + controlSenderSpeakers) := by
    rw [recordBound, seats_of_mem (by omega) hc]
  have hrange : 0 ≤ recordBound c ∧ recordBound c ≤ 2145386496 :=
    ⟨recordBound_nonneg c, recordBound_le c⟩
  rw [if_neg hhigh, hword (c + 1) (by omega) (by omega), pure_bind, pure_bind,
    hword _ hsquare.1 (by omega), pure_bind, hword (c + controlSenderSpeakers)
      (by unfold controlSenderSpeakers; omega) (by unfold controlSenderSpeakers; omega),
    pure_bind, hpairs, ← hbound, hword _ hrange.1 (by omega)]

theorem synthesisReserve_eq (hword : ∀ n, 0 ≤ n → n < 2 ^ 63 → word n = pure n) {b : ℤ}
    (hb : b < 2 ^ 63) (r : ℤ) :
    synthesisReserve word b r =
      pure (heldBack b r, decide (0 < b ∧ b / 2 < fullReserve r)) := by
  unfold synthesisReserve
  by_cases hlow : b ≤ 0
  · rw [if_pos hlow, heldBack, if_pos hlow, decide_eq_false (by omega)]
  have hmax : maxCloseRecords = 2145386496 := rfl
  have hrecords : (if maxCloseRecords < (if r < 0 then 0 else r) then maxCloseRecords
      else if r < 0 then 0 else r) = sizedRecords r := by
    unfold sizedRecords
    split_ifs <;> omega
  have hnonneg := sizedRecords_nonneg r
  have hle := sizedRecords_le r
  have hfull : 0 ≤ fullReserve r ∧ fullReserve r < 2 ^ 63 := by
    unfold fullReserve defaultSynthesisCallReserveTokens
    omega
  have hhalf : b.tdiv maxSynthesisReserveDenominator = b / 2 :=
    Int.tdiv_eq_ediv_of_nonneg (by omega)
  rw [if_neg hlow]
  dsimp only
  rw [hrecords, hword (1 + sizedRecords r) (by omega) (by omega), pure_bind, ← fullReserve,
    hword _ hfull.1 hfull.2, pure_bind, maxSynthesisReserveNumerator, mul_one,
    hword b (by omega) hb, pure_bind, hhalf, heldBack, if_neg hlow]
  by_cases hclamp : b / 2 < fullReserve r
  · rw [if_pos hclamp, min_eq_right hclamp.le, decide_eq_true ⟨by omega, hclamp⟩]
  · rw [if_neg hclamp, min_eq_left (by omega), decide_eq_false (fun h => hclamp h.2)]

theorem synthesisSoftBudgetTokens_eq (hword : ∀ n, 0 ≤ n → n < 2 ^ 63 → word n = pure n) {b : ℤ}
    (hb : b < 2 ^ 63) (r : ℤ) :
    synthesisSoftBudgetTokens word b r = pure (max 0 b - heldBack b r) := by
  unfold synthesisSoftBudgetTokens
  by_cases hlow : b ≤ 0
  · rw [if_pos hlow, heldBack, if_pos hlow, max_eq_left hlow, sub_zero]
  have hrange := heldBack_range b r (by omega)
  rw [if_neg hlow, synthesisReserveTokens, synthesisReserve_eq hword hb, map_pure, pure_bind,
    hword _ (by omega) (by omega), max_eq_right (by omega)]

end

theorem wrapped_eq {n : ℤ} (hlow : 0 ≤ n) (hhigh : n < 2 ^ 63) : wrapped n = pure n :=
  int64_of_fits (by omega) hhigh

theorem checked_eq {n : ℤ} (hlow : 0 ≤ n) (hhigh : n < 2 ^ 63) : checked n = pure n :=
  if_pos ⟨by omega, hhigh⟩

theorem wrapped_small {n : ℤ} (hlow : 0 ≤ n) (hhigh : n < 2 ^ 31) : wrapped n = pure n :=
  wrapped_eq hlow (by omega)

theorem checked_small {n : ℤ} (hlow : 0 ≤ n) (hhigh : n < 2 ^ 31) : checked n = pure n :=
  checked_eq hlow (by omega)

/-- The record bound dominates every partition of a room and grows with the room, and the
reserve of a budget is its sized part, at most half of it; no intermediate value overflows. An
uncapped interaction, whose budget is not positive, reserves nothing, and a record count is
saturated at both ends. -/
theorem reserve_sizing :
    (∀ c p q s : ℕ, 1 ≤ c → c ≤ 2046 → p ≤ c → q ≤ c - p + 1 → s ≤ c + 2 →
      ((p * q * s : ℕ) : ℤ) ≤ (closeRecordUpperBound wrapped c).run) ∧
    (Monotone fun c => (closeRecordUpperBound wrapped c).run) ∧
    (∀ c, closeRecordUpperBound checked c = some (closeRecordUpperBound wrapped c).run) ∧
    ∀ b : ℤ, -2 ^ 63 ≤ b → b < 2 ^ 63 →
      (b ≤ 0 → ∀ r, (synthesisReserve wrapped b r).run = (0, false)) ∧
      (0 < b → ∀ r, 0 ≤ (synthesisReserveTokens wrapped b r).run ∧
        (synthesisReserveTokens wrapped b r).run ≤ b / 2 ∧
        0 < (synthesisSoftBudgetTokens wrapped b r).run ∧
        (synthesisSoftBudgetTokens wrapped b r).run =
          b - (synthesisReserveTokens wrapped b r).run ∧
        ((synthesisReserveClamped wrapped b r).run = false →
          (synthesisReserveTokens wrapped b r).run =
            (1 + max 0 (min r maxCloseRecords)) * defaultSynthesisCallReserveTokens)) ∧
      (Antitone fun r => (synthesisSoftBudgetTokens wrapped b r).run) ∧
      (∀ r, synthesisReserve checked b r = some (synthesisReserve wrapped b r).run ∧
        synthesisSoftBudgetTokens checked b r =
          some (synthesisSoftBudgetTokens wrapped b r).run) := by
  have hbound : ∀ c, closeRecordUpperBound wrapped c = pure (recordBound c) :=
    closeRecordUpperBound_eq fun _ => wrapped_small
  refine ⟨fun c p q s _ hhigh hp hq hs => ?_, fun c d h => ?_, fun c => ?_, fun b _ hb => ?_⟩
  · rw [hbound]
    push_cast
    exact records_le (by omega) (by omega) (by omega) (by omega) (by omega) (by omega)
  · dsimp only
    rw [hbound, hbound]
    exact recordBound_mono h
  · rw [hbound]
    exact closeRecordUpperBound_eq (fun _ => checked_small) c
  have hreserve : ∀ r, synthesisReserve wrapped b r =
      pure (heldBack b r, decide (0 < b ∧ b / 2 < fullReserve r)) :=
    synthesisReserve_eq (fun _ => wrapped_eq) hb
  have hsoft : ∀ r, synthesisSoftBudgetTokens wrapped b r = pure (max 0 b - heldBack b r) :=
    synthesisSoftBudgetTokens_eq (fun _ => wrapped_eq) hb
  refine ⟨fun hlow r => ?_, fun hpos r => ?_, fun r s h => ?_, fun r => ⟨?_, ?_⟩⟩
  · rw [synthesisReserve, if_pos hlow]
    rfl
  · have hrange := heldBack_range b r hpos
    have htokens : (synthesisReserveTokens wrapped b r).run = heldBack b r := by
      rw [synthesisReserveTokens, hreserve]
      rfl
    have hsoftValue : (synthesisSoftBudgetTokens wrapped b r).run = b - heldBack b r := by
      rw [hsoft, max_eq_right hpos.le]
      rfl
    rw [htokens, hsoftValue]
    refine ⟨hrange.1, hrange.2, by omega, rfl, fun hclamped => ?_⟩
    rw [synthesisReserveClamped, hreserve] at hclamped
    have hfits : ¬(0 < b ∧ b / 2 < fullReserve r) := of_decide_eq_false hclamped
    rw [heldBack, if_neg (by omega), min_eq_left (by omega)]
    rfl
  · dsimp only
    rw [hsoft, hsoft]
    exact sub_le_sub_left (heldBack_mono b h) _
  · rw [hreserve]
    exact synthesisReserve_eq (fun _ => checked_eq) hb r
  · rw [hsoft]
    exact synthesisSoftBudgetTokens_eq (fun _ => checked_eq) hb r

/-- A negative budget reserves more than its half, and a record count outside the saturation
is not the one the reserve is sized for. -/
theorem reserve_saturates :
    ¬(0 ≤ (synthesisReserveTokens wrapped (-2) 0).run ∧
      (synthesisReserveTokens wrapped (-2) 0).run ≤ (-2 : ℤ).tdiv 2) ∧
    ¬((synthesisReserveClamped wrapped 1000000 (-1)).run = false →
      (synthesisReserveTokens wrapped 1000000 (-1)).run =
        (1 + -1) * defaultSynthesisCallReserveTokens) ∧
    ¬((synthesisReserveClamped wrapped (2 ^ 62) 2145386497).run = false →
      (synthesisReserveTokens wrapped (2 ^ 62) 2145386497).run =
        (1 + 2145386497) * defaultSynthesisCallReserveTokens) := by
  decide

end Persatrix.Wallet
