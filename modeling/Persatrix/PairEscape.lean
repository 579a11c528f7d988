import Mathlib.Data.List.Basic
import Mathlib.Tactic.Linarith
import Mathlib.Data.List.Infix

/-!
# Pairs of characters and their escape

Where a pair of neighbouring characters stands in a text without an escape in front of it. A
character that is in no pair and is no escape splits a text, and putting the escape in front of each
pair, one kind of pair after the other, leaves none.
-/
namespace Persatrix.PairEscape
variable {α : Type}

/-- The places, from `i` on, of the pairs that are not escaped. -/
def pairsFrom (isPair : α → α → Bool) (isEscape : α → Bool) : ℕ → Bool → List α → List ℕ
  | _, _, [] => []
  | _, _, [_] => []
  | i, escaped, c :: d :: s =>
    (if !escaped && isPair c d then [i] else []) ++
      pairsFrom isPair isEscape (i + 1) (isEscape c) (d :: s)

section
variable (isPair : α → α → Bool) (isEscape : α → Bool)

theorem pairsFrom_cons_cons (i : ℕ) (escaped : Bool) (c d : α) (s : List α) :
    pairsFrom isPair isEscape i escaped (c :: d :: s) =
      (if !escaped && isPair c d then [i] else []) ++
        pairsFrom isPair isEscape (i + 1) (isEscape c) (d :: s) := rfl

/-- A character that begins no pair. -/
theorem pairsFrom_cons {c : α} (h : ∀ d, isPair c d = false) (i : ℕ) (escaped : Bool)
    (s : List α) : pairsFrom isPair isEscape i escaped (c :: s) =
      pairsFrom isPair isEscape (i + 1) (isEscape c) s := by
  cases s with
  | nil => rfl
  | cons d s =>
    rw [pairsFrom_cons_cons, h, Bool.and_false, if_neg Bool.false_ne_true, List.nil_append]

theorem pairsFrom_tail {i : ℕ} {escaped : Bool} {c : α} {s : List α}
    (h : pairsFrom isPair isEscape i escaped (c :: s) = []) :
    pairsFrom isPair isEscape (i + 1) (isEscape c) s = [] := by
  cases s with
  | nil => rfl
  | cons d s => exact (List.append_eq_nil_iff.mp h).2

/-- Whether there is a pair does not depend on where a text begins. -/
theorem pairsFrom_nil_of_nil {i : ℕ} {escaped : Bool} {s : List α}
    (h : pairsFrom isPair isEscape i escaped s = []) (j : ℕ) :
    pairsFrom isPair isEscape j escaped s = [] := by
  induction s generalizing i j escaped with
  | nil => rfl
  | cons c s ih =>
    cases s with
    | nil => rfl
    | cons d s =>
      rw [pairsFrom_cons_cons, List.append_eq_nil_iff] at h ⊢
      refine ⟨?_, ih h.2 (j + 1)⟩
      have hfirst := h.1
      split_ifs at hfirst ⊢ with hpair
      rfl

end

/-- A character that is in no pair and escapes none. -/
structure Neutral (isPair : α → α → Bool) (isEscape : α → Bool) (c : α) : Prop where
  left : ∀ d, isPair c d = false
  right : ∀ d, isPair d c = false
  plain : isEscape c = false

section
variable {isPair : α → α → Bool} {isEscape : α → Bool}

theorem Neutral.pairsFrom_append {c : α} (h : Neutral isPair isEscape c) (i : ℕ) (escaped : Bool)
    (s t : List α) :
    pairsFrom isPair isEscape i escaped (s ++ c :: t) =
      pairsFrom isPair isEscape i escaped s ++
        pairsFrom isPair isEscape (i + s.length + 1) false t := by
  have hcons : ∀ i escaped, pairsFrom isPair isEscape i escaped (c :: t) =
      pairsFrom isPair isEscape (i + 1) false t := by
    intro i escaped
    rw [pairsFrom_cons isPair isEscape h.left, h.plain]
  induction s generalizing i escaped with
  | nil => exact hcons i escaped
  | cons x s ih =>
    cases s with
    | nil =>
      change pairsFrom isPair isEscape i escaped (x :: c :: t) =
        pairsFrom isPair isEscape (i + 1 + 1) false t
      rw [pairsFrom_cons_cons, h.right, Bool.and_false, if_neg Bool.false_ne_true, hcons]
      rfl
    | cons y s =>
      have hrest := ih (i + 1) (isEscape x)
      have hlength : i + 1 + (y :: s).length = i + (x :: y :: s).length := by
        simp only [List.length_cons]
        omega
      rw [hlength, List.cons_append] at hrest
      rw [List.cons_append, List.cons_append, pairsFrom_cons_cons, pairsFrom_cons_cons, hrest,
        List.append_assoc]

theorem pairsFrom_eq_nil_of_or {p q : α → α → Bool}
    (hor : ∀ c d, isPair c d = (p c d || q c d)) (i : ℕ) {escaped : Bool} {s : List α}
    (hp : pairsFrom p isEscape i escaped s = []) (hq : pairsFrom q isEscape i escaped s = []) :
    pairsFrom isPair isEscape i escaped s = [] := by
  induction s generalizing i escaped with
  | nil => rfl
  | cons c s ih =>
    cases s with
    | nil => rfl
    | cons d s =>
      rw [pairsFrom_cons_cons, List.append_eq_nil_iff] at hp hq ⊢
      refine ⟨?_, ih (i + 1) hp.2 hq.2⟩
      have hp₁ := hp.1
      have hq₁ := hq.1
      rw [hor]
      cases escaped with
      | true => rfl
      | false => simp_all

end

section
variable [DecidableEq α]

def isPair (a b c d : α) : Bool := c = a && d = b

/-- `str.replace` of a pair by itself with an escape in front. -/
def escapePair (esc a b : α) : List α → List α
  | [] => []
  | [c] => [c]
  | c :: d :: s =>
    if c = a ∧ d = b then esc :: a :: b :: escapePair esc a b s else c :: escapePair esc a b (d :: s)

variable {esc a b : α}

/-- What is escaped begins as it did, or with the escape. -/
theorem escapePair_head (d : α) (s : List α) : ∃ e t, escapePair esc a b (d :: s) = e :: t ∧
    (e = d ∨ e = esc) := by
  cases s with
  | nil => exact ⟨d, [], rfl, .inl rfl⟩
  | cons c s =>
    rw [escapePair]
    split_ifs with h
    · exact ⟨esc, _, rfl, .inr rfl⟩
    · exact ⟨d, _, rfl, .inl rfl⟩

/-- No such pair is left. -/
theorem pairsFrom_escapePair (hab : a ≠ b) (hesc : esc ≠ a ∧ esc ≠ b) (i : ℕ) (escaped : Bool)
    (s : List α) :
    pairsFrom (isPair a b) (decide <| · = esc) i escaped (escapePair esc a b s) = [] := by
  induction s using escapePair.induct a b generalizing i escaped with
  | case1 => rfl
  | case2 c => rfl
  | case3 c d s h ih =>
    rw [escapePair, if_pos h]
    have hfirst : ∀ y, isPair a b esc y = false := by simp [isPair, hesc.1]
    have hlast : ∀ y, isPair a b b y = false := by simp [isPair, Ne.symm hab]
    rw [pairsFrom_cons _ _ hfirst, pairsFrom_cons_cons, pairsFrom_cons _ _ hlast, ih]
    simp
  | case4 c d s h ih =>
    rw [escapePair, if_neg h]
    obtain ⟨e, t, he, hhead⟩ := @escapePair_head _ _ esc a b d s
    rw [he, pairsFrom_cons_cons, ← he, ih, List.append_nil]
    cases hhead with
    | inl heq => simp_all [isPair]
    | inr heq => simp [isPair, heq, hesc.2]

/-- Pairs of another kind do not appear. -/
theorem pairsFrom_escapePair_of_ne {a' b' : α} (haa : a' ≠ a) (hba : b' ≠ a)
    (hesc : esc ≠ a ∧ esc ≠ b) (i : ℕ) {escaped : Bool} {s : List α}
    (h : pairsFrom (isPair a b) (decide <| · = esc) i escaped s = []) (j : ℕ) :
    pairsFrom (isPair a b) (decide <| · = esc) j escaped (escapePair esc a' b' s) = [] := by
  induction s using escapePair.induct a' b' generalizing i j escaped with
  | case1 => rfl
  | case2 c => rfl
  | case3 c d s hpair ih =>
    have hne : ∀ {x : α}, x ≠ a → ∀ y, isPair a b x y = false := by
      intro x hx y
      simp [isPair, hx]
    rw [escapePair, if_pos hpair, pairsFrom_cons _ _ (hne hesc.1), pairsFrom_cons _ _ (hne haa),
      pairsFrom_cons _ _ (hne hba)]
    rw [hpair.2] at h
    exact ih (i + 1 + 1) (pairsFrom_tail _ _ (pairsFrom_tail _ _ h)) _
  | case4 c d s hpair ih =>
    rw [escapePair, if_neg hpair]
    obtain ⟨e, t, he, hhead⟩ := @escapePair_head _ _ esc a' b' d s
    rw [he, pairsFrom_cons_cons, ← he, ih (i + 1) (pairsFrom_tail _ _ h), List.append_nil]
    have hfirst := (List.append_eq_nil_iff.mp h).1
    cases hhead with
    | inl heq =>
      rw [heq]
      split_ifs at hfirst ⊢ with hpairs
      rfl
    | inr heq => simp [isPair, heq, hesc.2]

end
end Persatrix.PairEscape
