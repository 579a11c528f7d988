import Persatrix.GoValues
import Mathlib.Data.List.Nodup
import Mathlib.Data.Int.Cast.Lemmas

/-!
# Counters that announce zero

A list of events is worked off against a map of counters: each event decrements
its counter and is reported when the counter reaches zero. A counter passes zero
at most once, so a key is reported once, namely when it had something left and
the events use all of it up.
-/
namespace Persatrix.GoMap

variable {κ : Type} [DecidableEq κ]

/-- The value stored under a key of a map of integers, which is zero without one. -/
def get (m : GoMap κ ℤ) (key : κ) : ℤ := (m.lookup key).getD 0

def countDown (acc : GoMap κ ℤ × List κ) (key : κ) : GoMap κ ℤ × List κ :=
  let left := acc.1.get key - 1
  (AList.insert key left acc.1, if left = 0 then acc.2 ++ [key] else acc.2)

theorem get_insert (m : GoMap κ ℤ) (a b : κ) (n : ℤ) :
    get (AList.insert a n m) b = if b = a then n else m.get b := by
  unfold get
  rw [lookup_insert]
  split_ifs <;> rfl

theorem get_countDown (acc : GoMap κ ℤ × List κ) (event key : κ) :
    (countDown acc event).1.get key = acc.1.get key - if key = event then 1 else 0 := by
  rw [countDown, get_insert]
  split_ifs with h
  · rw [h]
  · rw [sub_zero]

theorem get_foldl_countDown (events : List κ) (acc : GoMap κ ℤ × List κ) (key : κ) :
    (events.foldl countDown acc).1.get key = acc.1.get key - events.count key := by
  induction events generalizing acc with
  | nil => simp
  | cons event events ih =>
    rw [List.foldl_cons, ih, get_countDown, List.count_cons]
    by_cases h : key = event
    · subst h
      simp only [if_true, beq_self_eq_true, Nat.cast_add, Nat.cast_one]
      omega
    · simp [h, Ne.symm h]

/-- The reported keys: those with something left that the events use up. -/
theorem foldl_countDown_reported (events : List κ) (acc : GoMap κ ℤ × List κ) :
    ∃ reported : List κ, (events.foldl countDown acc).2 = acc.2 ++ reported ∧
      reported.Nodup ∧
      ∀ key, key ∈ reported ↔ 0 < acc.1.get key ∧ acc.1.get key ≤ events.count key := by
  induction events generalizing acc with
  | nil =>
    refine ⟨[], by simp, .nil, fun key => ?_⟩
    simp only [List.not_mem_nil, List.count_nil, Nat.cast_zero, false_iff]
    omega
  | cons event events ih =>
    obtain ⟨later, htail, hnodup, hmem⟩ := ih (countDown acc event)
    have hother : ∀ key, key ≠ event → (key ∈ later ↔
        0 < acc.1.get key ∧ acc.1.get key ≤ (event :: events).count key) := by
      intro key hkey
      rw [hmem, get_countDown, if_neg hkey, sub_zero, List.count_cons_of_ne (Ne.symm hkey)]
    have hevent : event ∈ later ↔
        1 < acc.1.get event ∧ acc.1.get event ≤ (event :: events).count event := by
      rw [hmem, get_countDown, if_pos rfl, List.count_cons_self]
      omega
    by_cases hzero : acc.1.get event - 1 = 0
    · refine ⟨event :: later, ?_, ?_, fun key => ?_⟩
      · rw [List.foldl_cons, htail, countDown]
        simp [hzero]
      · refine List.nodup_cons.mpr ⟨fun h => ?_, hnodup⟩
        have hleft := (hevent.mp h).1
        omega
      · by_cases hkey : key = event
        · subst hkey
          simp only [List.mem_cons, true_or, true_iff, List.count_cons_self]
          omega
        · rw [List.mem_cons, or_iff_right hkey, hother key hkey]
    · refine ⟨later, ?_, hnodup, fun key => ?_⟩
      · rw [List.foldl_cons, htail, countDown]
        simp [hzero]
      · by_cases hkey : key = event
        · subst hkey
          rw [hevent]
          omega
        · exact hother key hkey

end Persatrix.GoMap
