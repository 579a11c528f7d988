import Persatrix.GoValues
import Mathlib.Logic.Function.Basic

/-!
# A linked list with an index

A list of addresses in some order and a map from the key stored at each address to
the address. An address is used for one element only.
-/
namespace Persatrix

structure Indexed {κ : Type} [DecidableEq κ] (index : GoMap κ ℕ) (order : List ℕ) (key : ℕ → κ)
    (allocated : ℕ) : Prop where
  nodup : order.Nodup
  lookup : ∀ k a, index.lookup k = some a ↔ a ∈ order ∧ key a = k
  fresh : ∀ a ∈ order, a < allocated

namespace Indexed
variable {κ : Type} [DecidableEq κ] {index : GoMap κ ℕ} {order : List ℕ} {key : ℕ → κ}
  {allocated : ℕ}

theorem empty (key : ℕ → κ) (allocated : ℕ) : Indexed ∅ [] key allocated where
  nodup := List.nodup_nil
  lookup k a := by simp
  fresh a ha := by cases ha

theorem inj (h : Indexed index order key allocated) {a b : ℕ} (ha : a ∈ order) (hb : b ∈ order)
    (hkey : key a = key b) : a = b := by
  have ha' := (h.lookup _ a).mpr ⟨ha, rfl⟩
  have hb' := (h.lookup _ b).mpr ⟨hb, rfl⟩
  rw [hkey, hb'] at ha'
  cases ha'
  rfl

theorem nodup_keys (h : Indexed index order key allocated) : (order.map key).Nodup :=
  h.nodup.map_on fun _ ha _ hb => h.inj ha hb

/-- The keys of the map are the keys in the list. -/
theorem mem_keys (h : Indexed index order key allocated) (k : κ) :
    k ∈ index.keys ↔ k ∈ order.map key := by
  rw [← AList.mem_keys, ← AList.lookup_isSome, Option.isSome_iff_exists, List.mem_map]
  simp only [h.lookup]

theorem length_keys (h : Indexed index order key allocated) : index.keys.length = order.length := by
  have hperm : index.keys.Perm (order.map key) :=
    (List.perm_ext_iff_of_nodup index.keys_nodup h.nodup_keys).mpr h.mem_keys
  rw [hperm.length_eq, List.length_map]

/-- An element is taken out of the list and its key out of the map. -/
theorem erase (h : Indexed index order key allocated) {a : ℕ} (ha : a ∈ order) :
    Indexed (index.erase (key a)) (order.erase a) key allocated where
  nodup := h.nodup.erase a
  lookup k b := by
    rw [GoMap.lookup_erase, h.nodup.mem_erase_iff]
    split_ifs with hkey
    · constructor
      · intro hnone
        cases hnone
      · rintro ⟨⟨hne, hb⟩, hname⟩
        exact absurd (h.inj hb ha (hname.trans hkey)) hne
    · rw [h.lookup]
      constructor
      · intro ⟨hb, hname⟩
        refine ⟨⟨?_, hb⟩, hname⟩
        intro hsame
        subst hsame
        exact hkey hname.symm
      · intro ⟨⟨_, hb⟩, hname⟩
        exact ⟨hb, hname⟩
  fresh b hb := h.fresh b (List.mem_of_mem_erase hb)

/-- The map does not depend on the order of the list. -/
theorem perm (h : Indexed index order key allocated) {order' : List ℕ} (hp : order'.Perm order) :
    Indexed index order' key allocated where
  nodup := hp.nodup_iff.mpr h.nodup
  lookup k a := by rw [h.lookup, hp.mem_iff]
  fresh a ha := h.fresh a (hp.mem_iff.mp ha)

/-- Elements may change, their keys may not. -/
theorem congr (h : Indexed index order key allocated) {key' : ℕ → κ}
    (hkey : ∀ a ∈ order, key' a = key a) : Indexed index order key' allocated where
  nodup := h.nodup
  lookup k a := by
    rw [h.lookup]
    constructor
    · intro ⟨ha, hname⟩
      exact ⟨ha, (hkey a ha).trans hname⟩
    · intro ⟨ha, hname⟩
      exact ⟨ha, (hkey a ha).symm.trans hname⟩
  fresh := h.fresh

theorem allocated_not_mem (h : Indexed index order key allocated) : allocated ∉ order :=
  fun hmem => Nat.lt_irrefl _ (h.fresh _ hmem)

/-- A new element goes to the front of the list and into the map. -/
theorem push (h : Indexed index order key allocated) {k : κ} (hnew : index.lookup k = none) :
    Indexed (AList.insert k allocated index) (allocated :: order)
      (Function.update key allocated k) (allocated + 1) where
  nodup := List.nodup_cons.mpr ⟨h.allocated_not_mem, h.nodup⟩
  lookup name a := by
    rw [GoMap.lookup_insert, List.mem_cons]
    by_cases hfresh : a = allocated
    · subst hfresh
      simp only [Function.update_self, true_or, true_and]
      split_ifs with hname
      · simp [hname]
      · rw [h.lookup]
        constructor
        · intro hold
          exact absurd hold.1 h.allocated_not_mem
        · intro hkey
          exact absurd hkey.symm hname
    · rw [Function.update_of_ne hfresh]
      split_ifs with hname
      · subst hname
        constructor
        · intro hsome
          exact absurd (Option.some.inj hsome).symm hfresh
        · rintro ⟨hsame | hmem, hkey⟩
          · exact absurd hsame hfresh
          · have hlookup := (h.lookup name a).mpr ⟨hmem, hkey⟩
            rw [hnew] at hlookup
            cases hlookup
      · rw [h.lookup]
        simp [hfresh]
  fresh a ha := by
    rcases List.mem_cons.mp ha with rfl | ha
    · exact Nat.lt_succ_self _
    · exact Nat.lt_succ_of_lt (h.fresh a ha)

end Indexed
end Persatrix
