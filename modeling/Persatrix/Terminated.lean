import Mathlib.Data.List.Basic

/-!
# Fields closed by a separator

The fields are written one behind the other, each followed by a separator that a field may itself
contain. What is written determines the pieces between the separators, and no more than these: the
fields are known once it is known how many separators stand in each.
-/
namespace Persatrix.Terminated
variable {α : Type} [DecidableEq α]

def write (sep : α) (fields : List (List α)) : List α := fields.flatMap fun f => f ++ [sep]

/-- What is between the separators. -/
def pieces (sep : α) (fields : List (List α)) : List (List α) := fields.flatMap (List.splitOn sep)

/-- The number of separators in each field. -/
def cuts (sep : α) (fields : List (List α)) : List ℕ := fields.map (List.count sep)

variable {sep : α} {fields fields' : List (List α)}

theorem splitOn_injective (sep : α) : Function.Injective (List.splitOn sep) := by
  intro f f' h
  have hjoined := congrArg [sep].intercalate h
  rwa [List.intercalate_splitOn, List.intercalate_splitOn] at hjoined

theorem splitOn_write (sep : α) (fields : List (List α)) :
    List.splitOn sep (write sep fields) = pieces sep fields ++ [[]] := by
  induction fields with
  | nil => rfl
  | cons f fields ih =>
    have hcons : write sep (f :: fields) = f ++ sep :: write sep fields := by simp [write]
    rw [hcons, List.splitOn_append_cons_self, ih, ← List.append_assoc]
    rfl

theorem write_eq_iff : write sep fields = write sep fields' ↔
    pieces sep fields = pieces sep fields' := by
  constructor
  · intro h
    have hsplit := congrArg (List.splitOn sep) h
    rw [splitOn_write, splitOn_write] at hsplit
    exact List.append_cancel_right hsplit
  · intro h
    apply splitOn_injective sep
    rw [splitOn_write, splitOn_write, h]

theorem length_splitOn (sep : α) (f : List α) : (List.splitOn sep f).length = f.count sep + 1 := by
  induction f with
  | nil => rfl
  | cons a f ih =>
    rw [List.splitOn_cons_eq_if_modifyHead, List.count_cons]
    split_ifs
    · rw [List.length_cons, ih]
    · rw [List.length_modifyHead, ih]

/-- The pieces and their number in each field determine the fields. -/
theorem eq_of_pieces (hpieces : pieces sep fields = pieces sep fields')
    (hcuts : cuts sep fields = cuts sep fields') : fields = fields' := by
  induction fields generalizing fields' with
  | nil => exact (List.map_eq_nil_iff.mp hcuts.symm).symm
  | cons f fields ih =>
    cases fields' with
    | nil => cases hcuts
    | cons f' fields' =>
      obtain ⟨hcount, hcuts⟩ := List.cons.inj hcuts
      have hlength : (List.splitOn sep f).length = (List.splitOn sep f').length := by
        rw [length_splitOn, length_splitOn, hcount]
      obtain ⟨hsplit, hpieces⟩ := List.append_inj hpieces hlength
      rw [splitOn_injective sep hsplit, ih hpieces hcuts]

end Persatrix.Terminated
