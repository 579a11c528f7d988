import Mathlib.Data.List.Basic

/-!
# Ring buffers

A fixed number of slots that are written in turn. `head` is the next slot to write and
the `count` slots before it, wrapping at the end, hold the buffer's elements, the
oldest first.
-/
namespace Persatrix

structure RingBuffer (α : Type) where
  slots : List α
  head : ℕ
  count : ℕ
  head_lt : head < slots.length
  count_le : count ≤ slots.length

namespace RingBuffer
variable {α : Type}

def new (zero : α) (capacity : ℕ) (h : 0 < capacity) : RingBuffer α where
  slots := List.replicate capacity zero
  head := 0
  count := 0
  head_lt := by simpa using h
  count_le := Nat.zero_le _

theorem slots_pos (r : RingBuffer α) : 0 < r.slots.length := Nat.zero_lt_of_lt r.head_lt

def start (r : RingBuffer α) : ℕ := (r.head + r.slots.length - r.count) % r.slots.length

/-- The slot that is `i` places after the oldest element. -/
def slot (r : RingBuffer α) (i : ℕ) : ℕ := (r.start + i) % r.slots.length

theorem slot_lt (r : RingBuffer α) (i : ℕ) : r.slot i < r.slots.length :=
  Nat.mod_lt _ r.slots_pos

def get (r : RingBuffer α) (i : ℕ) : α := r.slots.get ⟨r.slot i, r.slot_lt i⟩

/-- The elements, the oldest first. -/
def live (r : RingBuffer α) : List α := (List.range r.count).map r.get

@[simp] theorem live_length (r : RingBuffer α) : r.live.length = r.count := by
  simp [live]

theorem slot_eq (r : RingBuffer α) (i : ℕ) :
    r.slot i = (r.head + r.slots.length - r.count + i) % r.slots.length := by
  rw [slot, start, Nat.mod_add_mod]

/-- The next slot to write follows the newest element. -/
theorem slot_count (r : RingBuffer α) : r.slot r.count = r.head := by
  have hcount := r.count_le
  rw [slot_eq, Nat.sub_add_cancel (by omega), Nat.add_mod_right]
  exact Nat.mod_eq_of_lt r.head_lt

/-- Until the buffer is full, the next slot to write holds none of the elements. -/
theorem slot_ne_head (r : RingBuffer α) {i : ℕ} (hi : i < r.count) (h : r.count < r.slots.length) :
    r.slot i ≠ r.head := by
  intro heq
  have hhead := r.head_lt
  rw [slot_eq] at heq
  by_cases hwrap : r.head + r.slots.length - r.count + i < r.slots.length
  · rw [Nat.mod_eq_of_lt hwrap] at heq
    omega
  · rw [Nat.mod_eq_sub_mod (by omega), Nat.mod_eq_of_lt (by omega)] at heq
    omega

def push (r : RingBuffer α) (x : α) : RingBuffer α where
  slots := r.slots.set r.head x
  head := (r.head + 1) % r.slots.length
  count := if r.count < r.slots.length then r.count + 1 else r.count
  head_lt := by simpa using Nat.mod_lt _ r.slots_pos
  count_le := by
    have hcount := r.count_le
    rw [List.length_set]
    split_ifs <;> omega

@[simp] theorem push_slots_length (r : RingBuffer α) (x : α) :
    (r.push x).slots.length = r.slots.length := List.length_set

theorem push_slot (r : RingBuffer α) (x : α) (h : r.count < r.slots.length) (i : ℕ) :
    (r.push x).slot i = r.slot i := by
  have hhead := r.head_lt
  rw [slot_eq, slot_eq, push_slots_length]
  have hcount : (r.push x).count = r.count + 1 := if_pos h
  have hnext : (r.push x).head = (r.head + 1) % r.slots.length := rfl
  rw [hcount, hnext]
  by_cases hwrap : r.head + 1 = r.slots.length
  · have hsum : r.head + r.slots.length - r.count + i =
        r.slots.length - (r.count + 1) + i + r.slots.length := by omega
    rw [hwrap, Nat.mod_self, hsum, Nat.add_mod_right, Nat.zero_add]
  · have hsucc : (r.head + 1) % r.slots.length = r.head + 1 := Nat.mod_eq_of_lt (by omega)
    rw [hsucc]
    congr 1
    omega

theorem getElem?_slot (r : RingBuffer α) (i : ℕ) : r.slots[r.slot i]? = some (r.get i) :=
  List.getElem?_eq_getElem (r.slot_lt i)

theorem push_get (r : RingBuffer α) (x : α) (h : r.count < r.slots.length) (i : ℕ) :
    (r.push x).get i = if r.slot i = r.head then x else r.get i := by
  apply Option.some.inj
  rw [← getElem?_slot, push_slot r x h]
  change (r.slots.set r.head x)[r.slot i]? = _
  rw [List.getElem?_set]
  split_ifs with hslot hhead hne hne
  · rfl
  · exact absurd hslot.symm hne
  · exact absurd r.head_lt hhead
  · exact absurd hne.symm hslot
  · exact r.getElem?_slot i

/-- Writing into a buffer that is not full loses none of its elements. -/
theorem live_push (r : RingBuffer α) (x : α) (h : r.count < r.slots.length) :
    (r.push x).live = r.live ++ [x] := by
  have hcount : (r.push x).count = r.count + 1 := if_pos h
  rw [live, hcount, List.range_succ, List.map_append, List.map_singleton, push_get r x h,
    if_pos r.slot_count]
  congr 1
  apply List.map_congr_left
  intro i hi
  rw [push_get r x h, if_neg (r.slot_ne_head (List.mem_range.mp hi) h)]

/-- The number of elements before the first one that does not satisfy `p`. -/
def leading (p : α → Bool) (r : RingBuffer α) : ℕ := loop r.count 0
where
  loop : ℕ → ℕ → ℕ
    | 0, passed => passed
    | left + 1, passed => if p (r.get passed) then loop left (passed + 1) else passed

theorem leading_loop (p : α → Bool) (r : RingBuffer α) (left passed : ℕ) :
    leading.loop p r left passed =
      passed + (((List.range' passed left).map r.get).takeWhile p).length := by
  induction left generalizing passed with
  | zero => rfl
  | succ left ih =>
    rw [leading.loop, List.range'_succ, List.map_cons, List.takeWhile_cons]
    split_ifs
    · rw [ih, List.length_cons]
      omega
    · rfl

theorem leading_eq (p : α → Bool) (r : RingBuffer α) :
    r.leading p = (r.live.takeWhile p).length := by
  rw [leading, leading_loop, live, List.range_eq_range', Nat.zero_add]

theorem leading_le (p : α → Bool) (r : RingBuffer α) : r.leading p ≤ r.count := by
  rw [leading_eq, ← r.live_length]
  exact (List.takeWhile_sublist p).length_le

/-- Forgets the given number of the oldest elements; no slot is written. -/
def dropOldest (r : RingBuffer α) (n : ℕ) : RingBuffer α :=
  { r with count := r.count - n, count_le := Nat.le_trans (Nat.sub_le _ _) r.count_le }

theorem live_dropOldest (r : RingBuffer α) {n : ℕ} (h : n ≤ r.count) :
    (r.dropOldest n).live = r.live.drop n := by
  have hget : ∀ i, (r.dropOldest n).get i = r.get (n + i) := by
    intro i
    apply Option.some.inj
    rw [← getElem?_slot, ← getElem?_slot]
    congr 1
    have hcount := r.count_le
    rw [slot_eq, slot_eq]
    change (r.head + r.slots.length - (r.count - n) + i) % r.slots.length = _
    congr 1
    omega
  rw [live, live, ← List.map_drop, List.range_eq_range', List.range_eq_range', List.drop_range',
    Nat.zero_add, Nat.mul_one, List.map_congr_left fun i _ => hget i]
  have hshift := List.map_add_range' (a := n) 0 (r.count - n) 1
  rw [Nat.add_zero] at hshift
  rw [← hshift, List.map_map]
  rfl

/-- Dropping the leading elements that satisfy `p` leaves the elements from the first one
that does not. -/
theorem live_dropOldest_leading (p : α → Bool) (r : RingBuffer α) :
    (r.dropOldest (r.leading p)).live = r.live.dropWhile p := by
  rw [live_dropOldest r (r.leading_le p), leading_eq]
  have hsplit : r.live = r.live.takeWhile p ++ r.live.dropWhile p :=
    List.takeWhile_append_dropWhile.symm
  exact (congrArg (List.drop _) hsplit).trans List.drop_left

end RingBuffer
end Persatrix
