import Persatrix.LogSeals

/-!
# What becomes of the entries of a ring

The entries that were appended to a ring are in two parts. Those of the first part are written,
lost with a write that failed, or written over; those of the second are counted as not written.
Each section that changes a ring moves the border between the parts up, or leaves it.
-/
namespace Persatrix.LogBuffer

namespace RingCell

def count (c : RingCell) : ℕ := c.ring.unflushed.toNat

/-- The number of entries that are counted as not written, though they are dealt with. -/
def marked (c : RingCell) : ℕ :=
  match c.flight with
  | some (.written n) => n.toNat
  | _ => 0

/-- The border between the entries that were dealt with and the ones that were not. -/
def border (c : RingCell) : ℕ := c.history.length - c.count + c.marked

/-- The entries the ring has no more. -/
def overwritten (c : RingCell) : List Stamped := c.history.take (c.history.length - c.ring.cap)

/-- The next entries that were not dealt with, as many as a seal has counted. -/
def segment (c : RingCell) (n : ℤ) : List Stamped := (c.history.drop c.border).take n.toNat

end RingCell

/-- What a seal has taken: the entries it counted that the ring still had. -/
structure TakenFrom (c : RingCell) (entries : List Stamped) (n : ℤ) : Prop where
  nonneg : 0 ≤ n
  le : n ≤ c.ring.unflushed
  sublist : entries.Sublist (c.segment n)
  covers : ∀ e ∈ c.segment n, e ∈ entries ∨ e ∈ c.overwritten

def FlightOK (c : RingCell) : Flight → Prop
  | .taken entries n => TakenFrom c entries n
  | .reserved entries n _ => TakenFrom c entries n
  | .written n => 0 ≤ n ∧ n ≤ c.ring.unflushed

/-- The ring and its counts agree with what was appended. -/
structure Accounted (c : RingCell) : Prop where
  snapshot : c.ring.snapshotLocked = (c.loaded ++ c.history).rtake c.ring.cap
  nonneg : 0 ≤ c.ring.unflushed
  count_le : c.count ≤ c.history.length
  flight : ∀ f, c.flight = some f → FlightOK c f

/-- The entry was written, or lost with a write that failed, or the ring has written over it. -/
def Settled (files : List SequenceFile) (failed : List ℕ) (c : RingCell) (e : Stamped) : Prop :=
  (∃ f ∈ files, e ∈ f.entries) ∨ e.stamp ∈ failed ∨ e ∈ c.overwritten

/-- The entries before the border are settled. -/
def AllSettled (files : List SequenceFile) (failed : List ℕ) (c : RingCell) : Prop :=
  ∀ e ∈ c.history.take c.border, Settled files failed c e

theorem Settled.mono {files files' : List SequenceFile} {failed failed' : List ℕ}
    {c c' : RingCell} {e : Stamped} (hfiles : files ⊆ files') (hfailed : failed ⊆ failed')
    (hover : c.overwritten ⊆ c'.overwritten) (h : Settled files failed c e) :
    Settled files' failed' c' e := by
  rcases h with ⟨f, hf, he⟩ | he | he
  · exact .inl ⟨f, hfiles hf, he⟩
  · exact .inr (.inl (hfailed he))
  · exact .inr (.inr (hover he))

namespace Accounted
variable {c : RingCell}

theorem coe_count (h : Accounted c) : (c.count : ℤ) = c.ring.unflushed := Int.toNat_of_nonneg h.nonneg

theorem marked_le (h : Accounted c) : c.marked ≤ c.count := by
  unfold RingCell.marked RingCell.count
  split
  next n hflight =>
    have hwritten : 0 ≤ n ∧ n ≤ c.ring.unflushed := h.flight _ hflight
    omega
  next => exact Nat.zero_le _

theorem border_le (h : Accounted c) : c.border ≤ c.history.length := by
  have hmarked := h.marked_le
  have hcount := h.count_le
  unfold RingCell.border
  omega

/-! ### A ring that is looked at -/

theorem touch (h : Accounted c) (stamp : ℕ) : Accounted (c.touch stamp) where
  snapshot := h.snapshot
  nonneg := h.nonneg
  count_le := h.count_le
  flight f hf := by
    have hok := h.flight f hf
    cases f with
    | taken => exact ⟨hok.nonneg, hok.le, hok.sublist, hok.covers⟩
    | reserved => exact ⟨hok.nonneg, hok.le, hok.sublist, hok.covers⟩
    | written => exact hok

theorem markFound (h : Accounted c) : Accounted c.markFound where
  snapshot := h.snapshot
  nonneg := h.nonneg
  count_le := h.count_le
  flight f hf := by
    have hok := h.flight f hf
    cases f with
    | taken => exact ⟨hok.nonneg, hok.le, hok.sublist, hok.covers⟩
    | reserved => exact ⟨hok.nonneg, hok.le, hok.sublist, hok.covers⟩
    | written => exact hok

/-! ### An append -/

theorem overwritten_append (c : RingCell) (e : Stamped) :
    c.overwritten ⊆ (c.append e).overwritten := by
  intro x hx
  unfold RingCell.overwritten RingCell.append
  rw [ExecutionRing.append_cap, List.length_append, List.length_singleton, List.take_append]
  exact List.mem_append_left _ (List.take_subset_take_left _ (by omega) hx)

theorem count_append (h : Accounted c) (e : Stamped) : (c.append e).count = c.count + 1 := by
  have hnonneg := h.nonneg
  unfold RingCell.count RingCell.append
  rw [ExecutionRing.append_unflushed]
  omega

theorem border_append (h : Accounted c) (e : Stamped) : (c.append e).border = c.border := by
  have hcount := h.count_le
  rw [RingCell.border, RingCell.border, h.count_append e]
  have hlength : (c.append e).history.length = c.history.length + 1 := by simp [RingCell.append]
  have hmarked : (c.append e).marked = c.marked := rfl
  rw [hlength, hmarked]
  omega

theorem take_border_append (h : Accounted c) (e : Stamped) :
    (c.append e).history.take (c.append e).border = c.history.take c.border := by
  rw [h.border_append e]
  exact List.take_append_of_le_length h.border_le

/-- What a seal has counted is not changed by a later append. -/
theorem segment_append (h : Accounted c) (e : Stamped) {n : ℤ} (hle : n ≤ c.ring.unflushed)
    (hmarked : c.marked = 0) : (c.append e).segment n = c.segment n := by
  have hcount := h.count_le
  have hcoe := h.coe_count
  rw [RingCell.segment, RingCell.segment, h.border_append e]
  change ((c.history ++ [e]).drop c.border).take n.toNat = _
  rw [List.drop_append_of_le_length h.border_le, List.take_append_of_le_length]
  rw [List.length_drop, RingCell.border, hmarked]
  omega

theorem append (h : Accounted c) (e : Stamped) : Accounted (c.append e) where
  snapshot := by
    change (c.ring.append e).1.snapshotLocked = (c.loaded ++ (c.history ++ [e])).rtake
      (c.ring.append e).1.cap
    rw [ExecutionRing.snapshotLocked_append, ExecutionRing.append_cap, h.snapshot,
      ExecutionRing.rtake_append_rtake, List.append_assoc]
  nonneg := by
    change 0 ≤ (c.ring.append e).1.unflushed
    rw [ExecutionRing.append_unflushed]
    exact Int.add_nonneg h.nonneg Int.one_nonneg
  count_le := by
    rw [h.count_append e, RingCell.append, List.length_append]
    exact Nat.add_le_add_right h.count_le 1
  flight := by
    have hunflushed : (c.append e).ring.unflushed = c.ring.unflushed + 1 :=
      ExecutionRing.append_unflushed _ _
    have htaken {entries : List Stamped} {n : ℤ} (hmarked : c.marked = 0)
        (ht : TakenFrom c entries n) : TakenFrom (c.append e) entries n := by
      have hsegment := h.segment_append e ht.le hmarked
      refine ⟨ht.nonneg, by rw [hunflushed]; exact ht.le.trans (by omega), ?_, ?_⟩
      · rw [hsegment]
        exact ht.sublist
      · rw [hsegment]
        exact fun x hx => (ht.covers x hx).imp_right fun hx => overwritten_append c e hx
    intro f hf
    have hf' : c.flight = some f := hf
    have hok := h.flight f hf'
    cases f with
    | taken entries n => exact htaken (by rw [RingCell.marked, hf']) hok
    | reserved entries n seq => exact htaken (by rw [RingCell.marked, hf']) hok
    | written n => exact ⟨hok.1, by rw [hunflushed]; exact hok.2.trans (by omega)⟩

/-! ### A seal -/

theorem rtake_min (xs : List Stamped) (m n : ℕ) : (xs.rtake m).rtake n = xs.rtake (min m n) := by
  unfold List.rtake
  rw [List.drop_drop, List.length_drop]
  congr 1
  omega

/-- A seal takes the newest of the entries that were appended. -/
theorem sealRing_eq (h : Accounted c) : c.ring.sealRing.1 =
    (c.history.drop (c.history.length - min c.ring.cap c.count), c.ring.unflushed) := by
  have hcount := h.count_le
  rw [ExecutionRing.sealRing_entries c.ring h.coe_count.symm, h.coe_count, h.snapshot, rtake_min]
  congr 1
  rw [List.rtake, List.length_append, Nat.add_sub_assoc (by omega), List.drop_length_add_append]

theorem takenFrom_sealRing (h : Accounted c) (hflight : c.flight = none) :
    TakenFrom c c.ring.sealRing.1.1 c.ring.sealRing.1.2 := by
  have hmarked : c.marked = 0 := by rw [RingCell.marked, hflight]
  have hcount := h.count_le
  rw [h.sealRing_eq]
  have hsegment : c.segment c.ring.unflushed = c.history.drop (c.history.length - c.count) := by
    rw [RingCell.segment, RingCell.border, hmarked, Nat.add_zero]
    apply List.take_of_length_le
    rw [List.length_drop]
    change _ ≤ c.count
    omega
  refine ⟨h.nonneg, le_refl _, ?_, ?_⟩
  · rw [hsegment]
    have hdrop : c.history.length - min c.ring.cap c.count =
        (c.history.length - c.count) + (c.count - min c.ring.cap c.count) := by omega
    dsimp only
    rw [hdrop, ← List.drop_drop]
    exact List.drop_sublist _ _
  · rw [hsegment]
    intro e he
    dsimp only
    by_cases hcap : c.count ≤ c.ring.cap
    · rw [Nat.min_eq_right hcap]
      exact .inl he
    · rw [Nat.min_eq_left (not_le.mp hcap).le]
      have hmem := List.mem_of_mem_drop he
      rw [← List.take_append_drop (c.history.length - c.ring.cap) c.history, List.mem_append] at hmem
      exact hmem.symm

/-- A seal that takes nothing counts nothing. -/
theorem sealRing_empty (h : Accounted c) (hempty : c.ring.sealRing.1.1 = []) :
    c.ring.unflushed = 0 := by
  have hcount := h.count_le
  have hcoe := h.coe_count
  have hcap := Nat.zero_lt_of_lt c.ring.head_lt
  rw [h.sealRing_eq] at hempty
  have hlength := congrArg List.length hempty
  dsimp only at hlength
  rw [List.length_drop, List.length_nil] at hlength
  omega

theorem take (h : Accounted c) (hflight : c.flight = none) :
    Accounted (c.take c.ring.sealRing.1.1 c.ring.sealRing.1.2) := by
  have htaken := h.takenFrom_sealRing hflight
  refine ⟨h.snapshot, h.nonneg, h.count_le, fun f hf => ?_⟩
  have hmarked : c.marked = 0 := by rw [RingCell.marked, hflight]
  cases hempty : c.ring.sealRing.1.1.isEmpty with
  | true =>
    rw [RingCell.take, hempty] at hf
    obtain rfl := Option.some.inj hf
    exact ⟨htaken.nonneg, htaken.le⟩
  | false =>
    have hf' := hf
    rw [RingCell.take, hempty] at hf'
    obtain rfl := Option.some.inj hf'
    have hsegment : (c.take c.ring.sealRing.1.1 c.ring.sealRing.1.2).segment
        c.ring.sealRing.1.2 = c.segment c.ring.sealRing.1.2 := by
      have hmarked' : (c.take c.ring.sealRing.1.1 c.ring.sealRing.1.2).marked = 0 := by
        rw [RingCell.marked, hf]
        rfl
      rw [RingCell.segment, RingCell.segment, RingCell.border, RingCell.border, hmarked, hmarked']
      rfl
    refine ⟨htaken.nonneg, htaken.le, ?_, ?_⟩
    · rw [hsegment]
      exact htaken.sublist
    · rw [hsegment]
      exact htaken.covers

/-- A seal leaves the border where it is. -/
theorem border_take (h : Accounted c) (hflight : c.flight = none) :
    (c.take c.ring.sealRing.1.1 c.ring.sealRing.1.2).border = c.border := by
  have hmarked : c.marked = 0 := by rw [RingCell.marked, hflight]
  have hmarked' : (c.take c.ring.sealRing.1.1 c.ring.sealRing.1.2).marked = 0 := by
    unfold RingCell.marked RingCell.take
    cases hempty : c.ring.sealRing.1.1.isEmpty with
    | true =>
      have hzero := h.sealRing_empty (List.isEmpty_iff.mp hempty)
      rw [h.sealRing_eq, hzero]
      rfl
    | false => rfl
  rw [RingCell.border, RingCell.border, hmarked, hmarked']
  rfl

/-! ### A write -/

theorem reserve (h : Accounted c) {entries : List Stamped} {n : ℤ}
    (hflight : c.flight = some (.taken entries n)) (seq : ℕ) :
    Accounted (c.reserve entries n seq) := by
  have htaken : TakenFrom c entries n := h.flight _ hflight
  have hmarked : c.marked = 0 := by rw [RingCell.marked, hflight]
  refine ⟨h.snapshot, h.nonneg, h.count_le, fun f hf => ?_⟩
  obtain rfl := Option.some.inj hf
  have hsegment : (c.reserve entries n seq).segment n = c.segment n := by
    rw [RingCell.segment, RingCell.segment, RingCell.border, RingCell.border, hmarked]
    rfl
  refine ⟨htaken.nonneg, htaken.le, ?_, ?_⟩
  · rw [hsegment]
    exact htaken.sublist
  · rw [hsegment]
    exact htaken.covers

theorem border_reserve {entries : List Stamped} {n : ℤ}
    (hflight : c.flight = some (.taken entries n)) (seq : ℕ) :
    (c.reserve entries n seq).border = c.border := by
  have hmarked : c.marked = 0 := by rw [RingCell.marked, hflight]
  rw [RingCell.border, RingCell.border, hmarked]
  rfl

theorem write (h : Accounted c) {entries : List Stamped} {n : ℤ} (htaken : TakenFrom c entries n) :
    Accounted (c.write n) := by
  refine ⟨h.snapshot, h.nonneg, h.count_le, fun f hf => ?_⟩
  obtain rfl := Option.some.inj hf
  exact ⟨htaken.nonneg, htaken.le⟩

/-- A write moves the border over what was counted. -/
theorem border_write (hmarked : c.marked = 0) (n : ℤ) : (c.write n).border = c.border + n.toNat := by
  rw [RingCell.border, RingCell.border, hmarked]
  rfl

theorem take_border_write (hmarked : c.marked = 0) (n : ℤ) :
    (c.write n).history.take (c.write n).border = c.history.take c.border ++ c.segment n := by
  rw [border_write hmarked]
  exact List.take_add

theorem fail (h : Accounted c) : Accounted c.fail :=
  ⟨h.snapshot, h.nonneg, h.count_le, fun _ hf => by cases hf⟩

theorem border_fail (hmarked : c.marked = 0) : c.fail.border = c.border := by
  rw [RingCell.border, RingCell.border, hmarked]
  rfl

theorem mark (h : Accounted c) {n : ℤ} (hflight : c.flight = some (.written n)) :
    Accounted (c.mark n) := by
  have hwritten : 0 ≤ n ∧ n ≤ c.ring.unflushed := h.flight _ hflight
  have hcount := h.count_le
  have hcoe := h.coe_count
  refine ⟨h.snapshot, ?_, ?_, fun _ hf => by cases hf⟩
  · change 0 ≤ c.ring.unflushed - n
    omega
  · change (c.ring.unflushed - n).toNat ≤ c.history.length
    omega

/-- The count goes down by what was dealt with. -/
theorem border_mark (h : Accounted c) {n : ℤ} (hflight : c.flight = some (.written n)) :
    (c.mark n).border = c.border := by
  have hwritten : 0 ≤ n ∧ n ≤ c.ring.unflushed := h.flight _ hflight
  have hcount := h.count_le
  have hcoe := h.coe_count
  have hmarked : c.marked = n.toNat := by rw [RingCell.marked, hflight]
  have hcountMark : (c.mark n).count = (c.ring.unflushed - n).toNat := rfl
  have hmarkedMark : (c.mark n).marked = 0 := rfl
  have hhistory : (c.mark n).history = c.history := rfl
  rw [RingCell.border, RingCell.border, hmarked, hcountMark, hmarkedMark, hhistory]
  omega

/-! ### A reset -/

theorem clear (h : Accounted c) (hflight : c.flight = none) : Accounted c.clear := by
  refine ⟨h.snapshot, le_refl _, Nat.zero_le _, fun f hf => ?_⟩
  have hf' : c.flight = some f := hf
  rw [hflight] at hf'
  cases hf'

theorem border_clear (hflight : c.flight = none) : c.clear.border = c.history.length := by
  have hmarked : c.clear.marked = 0 := by
    unfold RingCell.marked RingCell.clear
    rw [hflight]
  rw [RingCell.border, hmarked]
  rfl

/-- A seal takes what is counted, as far as the ring still has it. -/
theorem taken_of_drop (h : Accounted c) (hflight : c.flight = none) {e : Stamped}
    (he : e ∈ c.history.drop c.border) : e ∈ c.ring.sealRing.1.1 ∨ e ∈ c.overwritten := by
  have hmarked : c.marked = 0 := by rw [RingCell.marked, hflight]
  have hcount := h.count_le
  apply (h.takenFrom_sealRing hflight).covers
  rw [h.sealRing_eq, RingCell.segment]
  rwa [List.take_of_length_le]
  rw [List.length_drop, RingCell.border, hmarked]
  change _ ≤ c.count
  omega

/-- What a reset gives up is what a seal would take, and what the ring has not any more. -/
theorem mem_of_border_le (h : Accounted c) (hflight : c.flight = none) {e : Stamped}
    (he : e ∈ c.history) :
    e ∈ c.history.take c.border ∨ e ∈ c.ring.sealRing.1.1 ∨ e ∈ c.overwritten := by
  rw [← List.take_append_drop c.border c.history, List.mem_append] at he
  exact he.imp_right (h.taken_of_drop hflight)

end Accounted
end Persatrix.LogBuffer
