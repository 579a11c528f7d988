import Persatrix.GoValues
import Mathlib.Data.List.DropRight

/-!
# Execution rings

A ring grows until it has as many entries as its capacity, and from then on writes over the
oldest one. A count of entries stays far below the bounds of an `int`.
-/
namespace Persatrix.LogBuffer

structure ExecutionRing (α : Type) where
  cap : ℕ
  lastTouch : ℕ
  entries : List α
  head : ℕ
  full : Bool
  sealed : Bool
  unflushed : ℤ
  head_lt : head < cap
  length_le : entries.length ≤ cap
  full_iff : full = true ↔ entries.length = cap
  head_zero : full = false → head = 0

namespace ExecutionRing
variable {α : Type}

def new (capacity : ℕ) (h : 0 < capacity) : ExecutionRing α where
  cap := capacity
  lastTouch := 0
  entries := []
  head := 0
  full := false
  sealed := false
  unflushed := 0
  head_lt := h
  length_le := Nat.zero_le _
  full_iff := iff_of_false Bool.false_ne_true h.ne
  head_zero := fun _ => rfl

/-- The ring after an entry, and whether it was sealed before. -/
def append (r : ExecutionRing α) (e : α) : ExecutionRing α × Bool :=
  if hfull : r.full = false then
    ({ r with
      unflushed := r.unflushed + 1
      entries := r.entries ++ [e]
      full := decide ((r.entries ++ [e]).length = r.cap)
      length_le := by
        have hle := r.length_le
        have hne : r.entries.length ≠ r.cap := fun h => by simp [r.full_iff.mpr h] at hfull
        rw [List.length_append, List.length_singleton]
        omega
      full_iff := decide_eq_true_iff
      head_zero := fun _ => r.head_zero hfull }, r.sealed)
  else
    ({ r with
      unflushed := r.unflushed + 1
      entries := r.entries.set r.head e
      head := (r.head + 1) % r.cap
      head_lt := Nat.mod_lt _ (Nat.zero_lt_of_lt r.head_lt)
      length_le := by rw [List.length_set]; exact r.length_le
      full_iff := by rw [List.length_set]; exact r.full_iff
      head_zero := fun h => absurd h hfull }, r.sealed)

/-- The entries, the oldest first. -/
def snapshotLocked (r : ExecutionRing α) : List α :=
  if r.full = false then r.entries else r.entries.drop r.head ++ r.entries.take r.head

/-- `seal`: the entries not yet written, the count of them, and the ring after they were taken. -/
def sealRing (r : ExecutionRing α) : (List α × ℤ) × ExecutionRing α :=
  let all := r.snapshotLocked
  ((all.drop (all.length - min r.unflushed all.length).toNat, r.unflushed),
    { r with sealed := true })

def markSealed (r : ExecutionRing α) : ExecutionRing α := { r with sealed := true }

def hasUnflushed (r : ExecutionRing α) : Bool := r.sealed && decide (0 < r.unflushed)

def markFlushed (r : ExecutionRing α) (n : ℤ) : ExecutionRing α :=
  { r with unflushed := r.unflushed - n }

def appendAll (r : ExecutionRing α) (es : List α) : ExecutionRing α :=
  es.foldl (fun r e => (r.append e).1) r

/-! ### What an append changes -/

theorem append_sealed (r : ExecutionRing α) (e : α) : (r.append e).2 = r.sealed := by
  unfold append
  split_ifs <;> rfl

@[simp] theorem append_fst_sealed (r : ExecutionRing α) (e : α) :
    (r.append e).1.sealed = r.sealed := by
  unfold append
  split_ifs <;> rfl

@[simp] theorem append_cap (r : ExecutionRing α) (e : α) : (r.append e).1.cap = r.cap := by
  unfold append
  split_ifs <;> rfl

@[simp] theorem append_unflushed (r : ExecutionRing α) (e : α) :
    (r.append e).1.unflushed = r.unflushed + 1 := by
  unfold append
  split_ifs <;> rfl

theorem length_snapshotLocked (r : ExecutionRing α) :
    r.snapshotLocked.length = r.entries.length := by
  have hhead := r.head_lt
  unfold snapshotLocked
  split_ifs with hfull
  · rfl
  · have hlength := r.full_iff.mp (by simpa using hfull)
    rw [List.length_append, List.length_drop, List.length_take]
    omega

theorem rtake_append_rtake (xs ys : List α) (n : ℕ) :
    (xs.rtake n ++ ys).rtake n = (xs ++ ys).rtake n := by
  unfold List.rtake
  rw [List.drop_append, List.drop_append, List.drop_drop, List.length_append, List.length_append,
    List.length_drop]
  congr 2 <;> omega

theorem rtake_of_length_le {xs : List α} {n : ℕ} (h : xs.length ≤ n) : xs.rtake n = xs := by
  rw [List.rtake, Nat.sub_eq_zero_of_le h, List.drop_zero]

/-- Writing over the oldest entry leaves the newest ones. -/
theorem snapshotLocked_append (r : ExecutionRing α) (e : α) :
    (r.append e).1.snapshotLocked = (r.snapshotLocked ++ [e]).rtake r.cap := by
  by_cases hfull : r.full = false
  · have hgrow : (r.append e).1.snapshotLocked = r.entries ++ [e] := by
      have hentries : (r.append e).1.entries = r.entries ++ [e] := by
        rw [append, dif_pos hfull]
      have hhead : (r.append e).1.head = 0 := by
        rw [append, dif_pos hfull]
        exact r.head_zero hfull
      unfold snapshotLocked
      rw [hentries, hhead, List.drop_zero, List.take_zero, List.append_nil, ite_self]
    have hle := (r.append e).1.length_le
    rw [append_cap, ← length_snapshotLocked, hgrow] at hle
    rw [hgrow, snapshotLocked, if_pos hfull, rtake_of_length_le hle]
  · have htrue : r.full = true := by simpa using hfull
    have hlength := r.full_iff.mp htrue
    have hhead : r.head < r.entries.length := hlength.symm ▸ r.head_lt
    -- the slots before and after the one that is written
    obtain ⟨before, x, after, hentries, hbefore⟩ :
        ∃ before x after, r.entries = before ++ x :: after ∧ before.length = r.head :=
      ⟨r.entries.take r.head, r.entries[r.head], r.entries.drop (r.head + 1),
        by rw [List.getElem_cons_drop, List.take_append_drop],
        List.length_take_of_le hhead.le⟩
    have hold : r.snapshotLocked = x :: after ++ before := by
      rw [snapshotLocked, if_neg hfull, hentries, ← hbefore, List.drop_left, List.take_left]
    have hcap : r.cap = before.length + (after.length + 1) := by
      rw [← hlength, hentries, List.length_append, List.length_cons]
    have hnew : (r.append e).1.snapshotLocked = after ++ before ++ [e] := by
      have hset : (r.append e).1.entries = before ++ e :: after := by
        rw [append, dif_neg hfull]
        change r.entries.set r.head e = _
        rw [hentries, ← hbefore, List.set_append_right _ _ le_rfl, Nat.sub_self, List.set_cons_zero]
      have hnext : (r.append e).1.head = (before.length + 1) % r.cap := by
        rw [append, dif_neg hfull, hbefore]
      have hstill : ¬(r.append e).1.full = false := by rwa [append, dif_neg hfull]
      rw [snapshotLocked, if_neg hstill, hset, hnext]
      cases after with
      | nil =>
        have hwrap : before.length + 1 = r.cap := by rw [hcap, List.length_nil]
        rw [hwrap, Nat.mod_self, List.drop_zero, List.take_zero, List.append_nil]
        rfl
      | cons y after =>
        rw [List.length_cons] at hcap
        have hsplit : before ++ e :: y :: after = (before ++ [e]) ++ y :: after := by simp
        have hbound : before.length + 1 = (before ++ [e]).length := by simp
        rw [Nat.mod_eq_of_lt (by omega), hsplit, hbound, List.drop_left, List.take_left,
          List.append_assoc]
    rw [hnew, hold, hcap, List.rtake]
    have hone : (x :: after ++ before ++ [e]).length - (before.length + (after.length + 1)) = 1 := by
      simp only [List.length_append, List.length_cons, List.length_nil]
      omega
    rw [hone]
    rfl

@[simp] theorem appendAll_cap (r : ExecutionRing α) (es : List α) :
    (r.appendAll es).cap = r.cap := by
  induction es generalizing r with
  | nil => rfl
  | cons e es ih => exact (ih (r.append e).1).trans (append_cap r e)

@[simp] theorem appendAll_unflushed (r : ExecutionRing α) (es : List α) :
    (r.appendAll es).unflushed = r.unflushed + es.length := by
  induction es generalizing r with
  | nil => simp [appendAll]
  | cons e es ih =>
    have hrest := ih (r.append e).1
    rw [append_unflushed] at hrest
    have hlength : (((e :: es).length : ℕ) : ℤ) = es.length + 1 := by simp
    change ((r.append e).1.appendAll es).unflushed = _
    omega

/-- A live ring holds the newest entries. -/
theorem snapshotLocked_appendAll (r : ExecutionRing α) (es : List α) :
    (r.appendAll es).snapshotLocked = (r.snapshotLocked ++ es).rtake r.cap := by
  induction es generalizing r with
  | nil =>
    rw [List.append_nil, rtake_of_length_le]
    · rfl
    · rw [length_snapshotLocked]
      exact r.length_le
  | cons e es ih =>
    have hrest := ih (r.append e).1
    rw [snapshotLocked_append, append_cap, rtake_append_rtake, List.append_assoc] at hrest
    exact hrest

/-- A seal takes the newest entries, as many as are not yet written. -/
theorem sealRing_entries (r : ExecutionRing α) {n : ℕ} (h : r.unflushed = n) :
    r.sealRing.1 = (r.snapshotLocked.rtake n, (n : ℤ)) := by
  have hcount : ((r.snapshotLocked.length : ℤ) - min (n : ℤ) r.snapshotLocked.length).toNat =
      r.snapshotLocked.length - n := by omega
  rw [sealRing, h]
  dsimp only
  rw [hcount, List.rtake]

end ExecutionRing
end Persatrix.LogBuffer
