import Mathlib.Data.List.Basic
import Mathlib.Tactic.Ring

/-!
# Byte strings

A `string` of the source is its bytes, which need not be the encoding of a text.
-/
namespace Persatrix

abbrev GoString := List UInt8

instance : LawfulBEq GoString := inferInstance

/-- The bytes of a text of ASCII characters. -/
def ascii (s : String) : GoString := s.toList.map fun c => UInt8.ofNat c.toNat

/-- A literal is rewritten with this before it is computed with: the kernel reads the characters
of a list, but decodes a string. -/
theorem ascii_ofList (l : List Char) :
    ascii (String.ofList l) = l.map fun c => UInt8.ofNat c.toNat := by
  rw [ascii, String.toList_ofList]

theorem ascii_append (s t : String) : ascii (s ++ t) = ascii s ++ ascii t := by
  rw [ascii, String.toList_append, List.map_append]
  rfl

/-- What is before and after the last occurrence of a byte. -/
def cutLast (c : UInt8) : GoString → Option (GoString × GoString)
  | [] => none
  | b :: s =>
    match cutLast c s with
    | some (before, after) => some (b :: before, after)
    | none => if b = c then some ([], s) else none

theorem cutLast_eq_none {c : UInt8} {s : GoString} (h : c ∉ s) : cutLast c s = none := by
  induction s with
  | nil => rfl
  | cons b s ih =>
    rw [List.mem_cons, not_or] at h
    rw [cutLast, ih h.2]
    exact if_neg (Ne.symm h.1)

theorem cutLast_append {c : UInt8} (before : GoString) {after : GoString} (h : c ∉ after) :
    cutLast c (before ++ c :: after) = some (before, after) := by
  induction before with
  | nil =>
    rw [List.nil_append, cutLast, cutLast_eq_none h]
    exact if_pos rfl
  | cons b before ih => rw [List.cons_append, cutLast, ih]

theorem eq_of_cutLast {c : UInt8} {s before after : GoString}
    (h : cutLast c s = some (before, after)) : s = before ++ c :: after := by
  induction s generalizing before with
  | nil => cases h
  | cons b s ih =>
    rw [cutLast] at h
    cases hcut : cutLast c s with
    | none =>
      rw [hcut] at h
      dsimp only at h
      split_ifs at h with hb
      cases h
      rw [hb, List.nil_append]
    | some p =>
      rw [hcut] at h
      cases h
      rw [ih hcut, List.cons_append]

/-- The last bytes of a number, the most significant first. -/
def bigEndian : ℕ → ℕ → GoString
  | 0, _ => []
  | k + 1, n => UInt8.ofNat (n / 256 ^ k) :: bigEndian k n

def bigEndianValue (s : GoString) : ℕ := s.foldl (fun n b => n * 256 + b.toNat) 0

@[simp] theorem bigEndian_length (k n : ℕ) : (bigEndian k n).length = k := by
  induction k with
  | zero => rfl
  | succ k ih => rw [bigEndian, List.length_cons, ih]

theorem bigEndianValue_foldl (s : GoString) (n : ℕ) :
    s.foldl (fun n b => n * 256 + b.toNat) n = n * 256 ^ s.length + bigEndianValue s := by
  unfold bigEndianValue
  induction s generalizing n with
  | nil => simp
  | cons b s ih =>
    rw [List.foldl_cons, List.foldl_cons, ih, ih (0 * 256 + b.toNat), List.length_cons]
    ring

/-- Reading back what was written gives the number up to the number of bytes. -/
theorem bigEndianValue_bigEndian (k n : ℕ) : bigEndianValue (bigEndian k n) = n % 256 ^ k := by
  induction k with
  | zero => simp [bigEndianValue, bigEndian, Nat.mod_one]
  | succ k ih =>
    have hbyte : (UInt8.ofNat (n / 256 ^ k)).toNat = n / 256 ^ k % 256 := by
      simp
    rw [bigEndianValue, bigEndian, List.foldl_cons, bigEndianValue_foldl, ih, bigEndian_length,
      hbyte, Nat.pow_succ, Nat.mod_mul]
    ring

end Persatrix
