import Mathlib.Algebra.Group.Int.Defs
import Mathlib.Algebra.Group.Nat.Defs
import Mathlib.Data.Finset.Card
import Mathlib.Data.List.AList
import Mathlib.Data.Int.Init

/-!
# Machine integers and finite maps

An `int64` wraps at its bounds. A `map[K]V` is an association list without
duplicate keys. The order in which the entries are stored carries no meaning:
every statement about a map goes through `lookup`.
-/
namespace Persatrix

/-- The value an `int64` variable holds after it is assigned `n`. -/
def int64 (n : ℤ) : ℤ := n.bmod (2 ^ 64)

theorem int64_add_int64 (a b : ℤ) : int64 (int64 a + int64 b) = int64 (a + b) := by
  simp [int64]

theorem int64_add (a b : ℤ) : int64 (int64 a + b) = int64 (a + b) := by
  simp [int64]

theorem int64_range (n : ℤ) : -2 ^ 63 ≤ int64 n ∧ int64 n < 2 ^ 63 := by
  unfold int64 Int.bmod
  dsimp only
  split_ifs <;> omega

theorem int64_of_fits {n : ℤ} (hlow : -2 ^ 63 ≤ n) (hhigh : n < 2 ^ 63) : int64 n = n := by
  unfold int64 Int.bmod
  dsimp only
  split_ifs <;> omega

abbrev GoMap (κ ν : Type) := AList fun _ : κ => ν

namespace GoMap
variable {κ ν : Type} [DecidableEq κ]

theorem lookup_insert (m : GoMap κ ν) (a b : κ) (v : ν) :
    (AList.insert a v m).lookup b = if b = a then some v else m.lookup b := by
  split_ifs with h
  · subst h
    exact AList.lookup_insert m
  · exact AList.lookup_insert_ne h

theorem lookup_erase (m : GoMap κ ν) (a b : κ) :
    (m.erase a).lookup b = if b = a then none else m.lookup b := by
  split_ifs with h
  · subst h
    exact AList.lookup_erase b m
  · exact AList.lookup_erase_ne h

@[simp] theorem lookup_empty (a : κ) : (∅ : GoMap κ ν).lookup a = none :=
  AList.lookup_empty a

theorem lookup_foldl_insert_of_not_mem {β : Type} (key : β → κ) (value : β → ν) {l : List β}
    {k : κ} (hk : k ∉ l.map key) (m : GoMap κ ν) :
    (l.foldl (fun m x => AList.insert (key x) (value x) m) m).lookup k = m.lookup k := by
  induction l generalizing m with
  | nil => rfl
  | cons y l ih =>
    simp only [List.map_cons, List.mem_cons, not_or] at hk
    rw [List.foldl_cons, ih hk.2, lookup_insert, if_neg hk.1]

/-- A map filled in a loop holds what the loop stored under a key it met once. -/
theorem lookup_foldl_insert_of_mem {β : Type} (key : β → κ) (value : β → ν) {l : List β}
    (hnodup : (l.map key).Nodup) {x : β} (hx : x ∈ l) (m : GoMap κ ν) :
    (l.foldl (fun m x => AList.insert (key x) (value x) m) m).lookup (key x) =
      some (value x) := by
  induction l generalizing m with
  | nil => simp at hx
  | cons y l ih =>
    obtain ⟨hhead, htail⟩ := List.nodup_cons.mp hnodup
    rw [List.foldl_cons]
    rcases List.mem_cons.mp hx with rfl | hx
    · rw [lookup_foldl_insert_of_not_mem key value hhead, lookup_insert, if_pos rfl]
    · exact ih htail hx _

/-- What is left when a range loop deletes the entries that satisfy `p`. -/
def deleteIf (m : GoMap κ ν) (p : κ → ν → Bool) : GoMap κ ν :=
  ⟨m.entries.filter fun e => !p e.1 e.2, m.nodupKeys.sublist List.filter_sublist⟩

theorem lookup_deleteIf (m : GoMap κ ν) (p : κ → ν → Bool) (k : κ) :
    (m.deleteIf p).lookup k = (m.lookup k).filter fun v => !p k v := by
  apply Option.ext
  intro v
  rw [Option.filter_eq_some_iff]
  have hkept := List.mem_dlookup_iff (a := k) (b := v) (m.deleteIf p).nodupKeys
  have hall := List.mem_dlookup_iff (a := k) (b := v) m.nodupKeys
  rw [Option.mem_def] at hkept hall
  unfold AList.lookup
  rw [hkept, hall]
  exact List.mem_filter

/-- The number of stored values satisfying `p`, as a range loop counts them. -/
def count (m : GoMap κ ν) (p : ν → Bool) : ℕ := m.entries.countP fun e => p e.2

theorem count_eq_card (m : GoMap κ ν) (p : ν → Bool) {s : Finset κ}
    (hs : ∀ k, k ∈ s ↔ ∃ v, m.lookup k = some v ∧ p v = true) : m.count p = s.card := by
  let kept := (m.entries.filter fun e => p e.2).map Sigma.fst
  have hnodup : kept.Nodup := m.keys_nodup.sublist (List.filter_sublist.map Sigma.fst)
  have hkept : kept.toFinset = s := by
    ext k
    rw [List.mem_toFinset, hs]
    simp only [kept, List.mem_map, List.mem_filter]
    constructor
    · rintro ⟨⟨k', v⟩, ⟨hmem, hp⟩, rfl⟩
      exact ⟨v, AList.mem_lookup_iff.mpr hmem, hp⟩
    · rintro ⟨v, hv, hp⟩
      exact ⟨⟨k, v⟩, ⟨AList.mem_lookup_iff.mp hv, hp⟩, rfl⟩
  rw [← hkept, List.toFinset_card_of_nodup hnodup, List.length_map, count, List.countP_eq_length_filter]

end GoMap
end Persatrix
