import Mathlib.Data.List.Sort
import Mathlib.Data.List.Infix

/-!
# Rows ordered by a key

Where no two rows have one key, the order of the rows is determined by the rows.
-/
namespace Persatrix
variable {α κ : Type} [LinearOrder κ]

def orderBy (key : α → κ) (l : List α) : List α := l.insertionSort fun a b => key a ≤ key b

theorem perm_orderBy (key : α → κ) (l : List α) : (orderBy key l).Perm l :=
  List.perm_insertionSort _ l

theorem mem_orderBy {key : α → κ} {l : List α} {a : α} : a ∈ orderBy key l ↔ a ∈ l :=
  (perm_orderBy key l).mem_iff

theorem pairwise_orderBy (key : α → κ) (l : List α) :
    (orderBy key l).Pairwise fun a b => key a ≤ key b := by
  have htotal : Std.Total fun a b : α => key a ≤ key b := ⟨fun a b => le_total (key a) (key b)⟩
  have htrans : IsTrans α fun a b : α => key a ≤ key b := ⟨fun _ _ _ => le_trans⟩
  exact List.pairwise_insertionSort _ l

/-- Two lists of the same rows in ascending order of their keys are the same. -/
theorem eq_of_perm_of_pairwise {key : α → κ} {l₁ l₂ : List α} (hperm : l₁.Perm l₂)
    (hnodup : (l₂.map key).Nodup) (h₁ : l₁.Pairwise fun a b => key a ≤ key b)
    (h₂ : l₂.Pairwise fun a b => key a ≤ key b) : l₁ = l₂ := by
  refine hperm.eq_of_pairwise (fun a b ha hb hab hba => ?_) h₁ h₂
  exact List.inj_on_of_nodup_map hnodup (hperm.mem_iff.mp ha) hb (le_antisymm hab hba)

/-- The rows that are selected are in the order of a key that orders them alike. -/
theorem filter_orderBy {κ' : Type} [LinearOrder κ'] {key : α → κ} {key' : α → κ'} {p : α → Bool}
    {l : List α} (hnodup : ((l.filter p).map key').Nodup)
    (hle : ∀ a b, p a = true → p b = true → key a ≤ key b → key' a ≤ key' b) :
    (orderBy key l).filter p = orderBy key' (l.filter p) := by
  have hperm := perm_orderBy key' (l.filter p)
  refine eq_of_perm_of_pairwise (((perm_orderBy key l).filter p).trans hperm.symm)
    ((hperm.map key').nodup_iff.mpr hnodup) ?_ (pairwise_orderBy key' _)
  refine ((pairwise_orderBy key l).filter p).imp_of_mem fun {a b} ha hb hab => ?_
  exact hle a b (List.mem_filter.mp ha).2 (List.mem_filter.mp hb).2 hab

/-- Ordering what rows are made into, where the order is that of the rows. -/
theorem map_orderBy {β : Type} {key : α → κ} {key' : β → κ} {f : α → β} {l : List α}
    (hkey : ∀ a ∈ l, key' (f a) = key a) :
    (orderBy key l).map f = orderBy key' (l.map f) := by
  apply List.map_insertionSort
  intro a ha b hb
  rw [hkey a ha, hkey b hb]

/-! ### Rows of one key stay in their order -/

theorem filter_key_orderBy {key : α → κ} (l : List α) (k : κ) :
    (orderBy key l).filter (fun a => key a = k) = l.filter fun a => key a = k := by
  have hpairwise : (l.filter fun a => key a = k).Pairwise fun a b => key a ≤ key b := by
    refine List.pairwise_of_forall_mem_list fun a ha b hb => le_of_eq ?_
    simp only [List.mem_filter, decide_eq_true_eq] at ha hb
    rw [ha.2, hb.2]
  have hsublist : (l.filter fun a => key a = k).Sublist (orderBy key l) :=
    List.sublist_insertionSort hpairwise List.filter_sublist
  have hfilter := hsublist.filter fun a => key a = k
  rw [List.filter_filter] at hfilter
  simp only [Bool.and_self] at hfilter
  refine (hfilter.eq_of_length ?_).symm
  exact (((perm_orderBy key l).filter _).length_eq).symm

/-- Ordered lists that agree on the rows of each key are the same. -/
theorem eq_of_filter_key {key : α → κ} {l₁ l₂ : List α}
    (h₁ : l₁.Pairwise fun a b => key a ≤ key b) (h₂ : l₂.Pairwise fun a b => key a ≤ key b)
    (h : ∀ k, (l₁.filter fun a => key a = k) = l₂.filter fun a => key a = k) : l₁ = l₂ := by
  have hmem : ∀ a, a ∈ l₁ ↔ a ∈ l₂ := by
    intro a
    have ha : a ∈ (l₁.filter fun b => key b = key a) ↔ a ∈ l₂.filter fun b => key b = key a := by
      rw [h]
    simpa using ha
  induction l₁ generalizing l₂ with
  | nil =>
    cases l₂ with
    | nil => rfl
    | cons b l₂ => exact absurd ((hmem b).mpr List.mem_cons_self) List.not_mem_nil
  | cons a l₁ ih =>
    cases l₂ with
    | nil => exact absurd ((hmem a).mp List.mem_cons_self) List.not_mem_nil
    | cons b l₂ =>
      have hkeys : key a = key b := by
        refine le_antisymm ?_ ?_
        · rcases List.mem_cons.mp ((hmem b).mpr List.mem_cons_self) with rfl | hb
          · exact le_refl _
          · exact (List.pairwise_cons.mp h₁).1 b hb
        · rcases List.mem_cons.mp ((hmem a).mp List.mem_cons_self) with rfl | ha
          · exact le_refl _
          · exact (List.pairwise_cons.mp h₂).1 a ha
      have hhead := h (key a)
      simp only [List.filter_cons, hkeys, decide_true, if_true, List.cons.injEq] at hhead
      obtain ⟨rfl, -⟩ := hhead
      have htail : ∀ k, (l₁.filter fun b => key b = k) = l₂.filter fun b => key b = k := by
        intro k
        have hk := h k
        rw [List.filter_cons, List.filter_cons] at hk
        split at hk
        · exact (List.cons.inj hk).2
        · exact hk
      refine congrArg _ (ih (List.pairwise_cons.mp h₁).2 (List.pairwise_cons.mp h₂).2 htail
        fun c => ?_)
      have hc : c ∈ (l₁.filter fun b => key b = key c) ↔
          c ∈ l₂.filter fun b => key b = key c := by rw [htail]
      simpa using hc

/-- The order is determined by the rows of each key. -/
theorem orderBy_eq_of_filter_key {key : α → κ} {l₁ l₂ : List α}
    (h : ∀ k, (l₁.filter fun a => key a = k) = l₂.filter fun a => key a = k) :
    orderBy key l₁ = orderBy key l₂ := by
  refine eq_of_filter_key (pairwise_orderBy key l₁) (pairwise_orderBy key l₂) fun k => ?_
  rw [filter_key_orderBy, filter_key_orderBy, h]

theorem orderBy_of_pairwise {key : α → κ} {l : List α}
    (h : l.Pairwise fun a b => key a ≤ key b) : orderBy key l = l :=
  h.insertionSort_eq

end Persatrix
