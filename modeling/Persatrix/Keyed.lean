import Mathlib.Data.List.Nodup
import Mathlib.Algebra.BigOperators.Group.List.Basic
import Mathlib.Algebra.GroupWithZero.Nat
import Mathlib.Algebra.Order.BigOperators.Group.List
import Mathlib.Algebra.Order.Group.Nat

/-!
# Records filed under a key they carry

A dictionary in insertion order whose keys are computed from the values: no two values have one
key. To store a value whose key is taken replaces the one that has it, in its place.
-/
namespace Persatrix
variable {α κ : Type}

structure Keyed (key : α → κ) where
  values : List α
  distinct : (values.map key).Nodup

namespace Keyed
variable {key : α → κ}

def empty (key : α → κ) : Keyed key := ⟨[], List.nodup_nil⟩

@[simp] theorem values_empty : (empty key).values = [] := rfl

theorem eq_of_key {d : Keyed key} {a b : α} (ha : a ∈ d.values) (hb : b ∈ d.values)
    (h : key a = key b) : a = b :=
  List.inj_on_of_nodup_map d.distinct ha hb h

@[ext] theorem ext {d e : Keyed key} (h : d.values = e.values) : d = e := by
  cases d
  cases e
  cases h
  rfl

/-! ### The part of a dictionary that satisfies a condition, seen through a function -/

section Select
variable {β : Type} {key' : β → κ}

/-- The values that satisfy `p`, each as its image under `f`, which keeps the key. -/
def select (p : α → Bool) (f : α → β) (hf : ∀ a, key' (f a) = key a) (d : Keyed key) :
    Keyed key' where
  values := (d.values.filter p).map f
  distinct := by
    have hkeys : (d.values.filter p).map (key' ∘ f) = (d.values.filter p).map key :=
      List.map_congr_left fun a _ => hf a
    rw [List.map_map, hkeys]
    exact d.distinct.sublist (List.filter_sublist.map key)

variable {p : α → Bool} {f : α → β} {hf : ∀ a, key' (f a) = key a}

theorem mem_select {d : Keyed key} {c : β} : c ∈ (d.select p f hf).values ↔ ∃ a ∈ d.values, p a ∧ f a = c := by
  simp only [select, List.mem_map, List.mem_filter]
  exact ⟨fun ⟨a, ⟨ha, hp⟩, hc⟩ => ⟨a, ha, hp, hc⟩, fun ⟨a, ha, hp, hc⟩ => ⟨a, ⟨ha, hp⟩, hc⟩⟩

end Select

variable [DecidableEq κ]

def get (d : Keyed key) (k : κ) : Option α := d.values.find? fun a => key a = k

def erase (d : Keyed key) (k : κ) : Keyed key :=
  ⟨d.values.filter fun a => key a ≠ k, d.distinct.sublist (List.filter_sublist.map key)⟩

theorem values_erase (d : Keyed key) (k : κ) :
    (d.erase k).values = d.values.filter fun a => key a ≠ k := rfl

/-- The value with the key of `a` is replaced by `a`. -/
def overwrite (a : α) (l : List α) : List α := l.map fun b => if key b = key a then a else b

theorem map_overwrite (a : α) (l : List α) : (@overwrite α κ key _ a l).map key = l.map key := by
  rw [overwrite, List.map_map]
  refine List.map_congr_left fun b _ => ?_
  simp only [Function.comp_apply]
  split
  · next h => exact h.symm
  · rfl

def put (d : Keyed key) (a : α) : Keyed key :=
  if h : key a ∈ d.values.map key then
    ⟨@overwrite α κ key _ a d.values, by rw [map_overwrite]; exact d.distinct⟩
  else
    ⟨d.values ++ [a], by
      rw [List.map_append, List.nodup_append]
      refine ⟨d.distinct, List.nodup_singleton _, ?_⟩
      rintro _ hk _ hb rfl
      exact h (List.mem_singleton.mp hb ▸ hk)⟩

variable {d : Keyed key} {a b : α} {k : κ}

theorem get_eq_some : d.get k = some a ↔ a ∈ d.values ∧ key a = k := by
  constructor
  · intro h
    exact ⟨List.mem_of_find?_eq_some h, by simpa using List.find?_some h⟩
  · rintro ⟨ha, rfl⟩
    cases hget : d.get (key a) with
    | none =>
      have hno := List.find?_eq_none.mp hget a ha
      exact absurd (decide_eq_true rfl) hno
    | some b =>
      have hb : key b = key a := by simpa using List.find?_some hget
      rw [eq_of_key (List.mem_of_find?_eq_some hget) ha hb]

theorem get_key (ha : a ∈ d.values) : d.get (key a) = some a := get_eq_some.mpr ⟨ha, rfl⟩

theorem get_eq_none : d.get k = none ↔ ∀ a ∈ d.values, key a ≠ k := by
  rw [get, List.find?_eq_none]
  simp only [decide_eq_true_eq, ne_eq]

theorem mem_erase : a ∈ (d.erase k).values ↔ a ∈ d.values ∧ key a ≠ k := by
  simp only [erase, List.mem_filter, decide_eq_true_eq]

/-- Everything under another key stays as it is. -/
theorem mem_put : b ∈ (d.put a).values ↔ b = a ∨ b ∈ d.values ∧ key b ≠ key a := by
  unfold put
  split
  · next h =>
      obtain ⟨c, hc, hkey⟩ := List.mem_map.mp h
      simp only [overwrite, List.mem_map]
      constructor
      · rintro ⟨x, hx, rfl⟩
        split
        · exact .inl rfl
        · next hne => exact .inr ⟨hx, hne⟩
      · rintro (rfl | ⟨hb, hne⟩)
        · exact ⟨c, hc, if_pos hkey⟩
        · exact ⟨b, hb, if_neg hne⟩
  · next h =>
      simp only [List.mem_append, List.mem_singleton]
      constructor
      · rintro (hb | hb)
        · exact .inr ⟨hb, fun hkey => h (List.mem_map.mpr ⟨b, hb, hkey⟩)⟩
        · exact .inl hb
      · rintro (hb | ⟨hb, -⟩)
        · exact .inr hb
        · exact .inl hb

theorem get_put : (d.put a).get (key a) = some a := get_key (mem_put.mpr (.inl rfl))

theorem get_put_of_ne (h : key a ≠ k) : (d.put a).get k = d.get k := by
  apply Option.ext
  intro b
  rw [get_eq_some, get_eq_some, mem_put]
  constructor
  · rintro ⟨rfl | ⟨hb, -⟩, hk⟩
    · exact absurd hk h
    · exact ⟨hb, hk⟩
  · rintro ⟨hb, rfl⟩
    exact ⟨.inr ⟨hb, Ne.symm h⟩, rfl⟩

theorem get_erase : (d.erase k).get k = none :=
  get_eq_none.mpr fun _ ha => (mem_erase.mp ha).2

theorem get_erase_of_ne {k' : κ} (h : k ≠ k') : (d.erase k).get k' = d.get k' := by
  apply Option.ext
  intro b
  rw [get_eq_some, get_eq_some, mem_erase]
  constructor
  · rintro ⟨⟨hb, -⟩, hk⟩
    exact ⟨hb, hk⟩
  · rintro ⟨hb, rfl⟩
    exact ⟨⟨hb, Ne.symm h⟩, rfl⟩

/-- What is found under a key tells whether a value has it. -/
theorem mem_keys_iff : k ∈ d.values.map key ↔ (d.get k).isSome = true := by
  rw [Option.isSome_iff_exists, List.mem_map]
  constructor
  · rintro ⟨a, ha, hk⟩
    exact ⟨a, get_eq_some.mpr ⟨ha, hk⟩⟩
  · rintro ⟨a, ha⟩
    exact ⟨a, get_eq_some.mp ha⟩

theorem values_put_of_mem (h : key a ∈ d.values.map key) :
    (d.put a).values = @overwrite α κ key _ a d.values := by rw [put, dif_pos h]

theorem values_put_of_not_mem (h : key a ∉ d.values.map key) :
    (d.put a).values = d.values ++ [a] := by rw [put, dif_neg h]

theorem overwrite_of_not_mem {l : List α} (h : key a ∉ l.map key) :
    @overwrite α κ key _ a l = l := by
  rw [overwrite]
  refine (List.map_congr_left fun b hb => if_neg fun hkey => h ?_).trans l.map_id
  exact hkey ▸ List.mem_map_of_mem hb

/-- A value that is replaced at once leaves no trace. -/
theorem put_put (h : key a = key b) : (d.put a).put b = d.put b := by
  refine ext ?_
  by_cases hmem : key a ∈ d.values.map key
  · have hagain : key b ∈ (d.put a).values.map key := by
      rw [values_put_of_mem hmem, map_overwrite]
      exact h ▸ hmem
    rw [values_put_of_mem hagain, values_put_of_mem hmem, values_put_of_mem (h ▸ hmem), overwrite,
      overwrite, overwrite, List.map_map]
    refine List.map_congr_left fun c _ => ?_
    rw [Function.comp_apply]
    by_cases hc : key c = key a
    · rw [if_pos hc, if_pos h, if_pos (hc.trans h)]
    · rw [if_neg hc]
  · have hagain : key b ∈ (d.put a).values.map key := by
      rw [values_put_of_not_mem hmem, ← h]
      exact List.mem_map_of_mem (List.mem_append_right _ (List.mem_singleton.mpr rfl))
    rw [values_put_of_mem hagain, values_put_of_not_mem hmem, values_put_of_not_mem (h ▸ hmem),
      overwrite, List.map_append, List.map_singleton, if_pos h]
    exact congrArg (· ++ [b]) (overwrite_of_not_mem (h ▸ hmem))

theorem erase_put (h : key a = k) : (d.put a).erase k = d.erase k := by
  refine ext ?_
  by_cases hmem : key a ∈ d.values.map key
  · rw [values_erase, values_erase, values_put_of_mem hmem, overwrite, List.filter_map]
    have hsame : d.values.filter ((fun b => decide (key b ≠ k)) ∘ fun b =>
        if key b = key a then a else b) = d.values.filter fun b => decide (key b ≠ k) := by
      refine List.filter_congr fun b _ => ?_
      rw [Function.comp_apply]
      by_cases hb : key b = key a
      · rw [if_pos hb, hb]
      · rw [if_neg hb]
    rw [hsame]
    refine (List.map_congr_left fun b hb => if_neg fun hkey => ?_).trans (List.map_id _)
    exact of_decide_eq_true (List.mem_filter.mp hb).2 (hkey.trans h)
  · rw [values_erase, values_erase, values_put_of_not_mem hmem, List.filter_append,
      List.filter_cons_of_neg (by simpa using h), List.filter_nil, List.append_nil]

theorem perm_erase (ha : a ∈ d.values) : d.values.Perm (a :: (d.erase (key a)).values) := by
  obtain ⟨before, after, hvalues⟩ := List.append_of_mem ha
  have hdistinct := d.distinct
  rw [hvalues, List.map_append, List.map_cons, List.nodup_append] at hdistinct
  obtain ⟨-, hafter, hbefore⟩ := hdistinct
  rw [List.nodup_cons] at hafter
  have hkeep : ∀ l : List α, key a ∉ l.map key → l.filter (fun b => key b ≠ key a) = l := by
    intro l hl
    refine List.filter_eq_self.mpr fun b hb => decide_eq_true fun hkey => hl ?_
    exact hkey ▸ List.mem_map_of_mem hb
  have hrest : (d.erase (key a)).values = before ++ after := by
    rw [values_erase, hvalues, List.filter_append, List.filter_cons_of_neg (by simp), hkeep after hafter.1,
      hkeep before fun hmem => hbefore _ hmem _ List.mem_cons_self rfl]
  rw [hrest, hvalues]
  exact List.perm_middle

theorem perm_put : (d.put a).values.Perm (a :: (d.erase (key a)).values) := by
  have h := perm_erase (mem_put.mpr (.inl rfl) : a ∈ (d.put a).values)
  rwa [erase_put rfl] at h

theorem erase_of_get_none (h : d.get k = none) : d.erase k = d :=
  ext (List.filter_eq_self.mpr fun b hb => decide_eq_true (get_eq_none.mp h b hb))

/-! ### What the changes of a dictionary are to a part of it -/

variable {β : Type} {key' : β → κ} {p : α → Bool} {f : α → β} {hf : ∀ a, key' (f a) = key a}

theorem select_erase : (d.erase k).select p f hf = (d.select p f hf).erase k := by
  refine ext ?_
  simp only [select, erase, List.filter_map, List.filter_filter]
  refine congrArg (List.map f) (List.filter_congr fun a _ => ?_)
  rw [Function.comp_apply, hf a, Bool.and_comm]

theorem get_select (h : d.get k = some a) (hp : p a) : (d.select p f hf).get k = some (f a) := by
  obtain ⟨ha, hk⟩ := get_eq_some.mp h
  exact get_eq_some.mpr ⟨mem_select.mpr ⟨a, ha, hp, rfl⟩, (hf a).trans hk⟩

theorem get_select_none (h : ∀ a, d.get k = some a → p a = false) :
    (d.select p f hf).get k = none := by
  refine get_eq_none.mpr fun c hc hkey => ?_
  obtain ⟨a, ha, hp, rfl⟩ := mem_select.mp hc
  have hget : d.get k = some a := get_eq_some.mpr ⟨ha, (hf a).symm.trans hkey⟩
  rw [h a hget] at hp
  cases hp

theorem select_put (hp : p a) (h : ∀ b, d.get (key a) = some b → p b) :
    (d.put a).select p f hf = (d.select p f hf).put (f a) := by
  refine ext ?_
  by_cases hmem : key a ∈ d.values.map key
  · have hfound : key' (f a) ∈ (d.select p f hf).values.map key' := by
      obtain ⟨b, hb, hkey⟩ := List.mem_map.mp hmem
      have hpb := h b (get_eq_some.mpr ⟨hb, hkey⟩)
      refine List.mem_map.mpr ⟨f b, mem_select.mpr ⟨b, hb, hpb, rfl⟩, ?_⟩
      rw [hf, hf, hkey]
    rw [values_put_of_mem hfound]
    simp only [select, values_put_of_mem hmem, overwrite, List.filter_map, List.map_map]
    have hkept : d.values.filter (p ∘ fun b => if key b = key a then a else b) =
        d.values.filter p := by
      refine List.filter_congr fun b hb => ?_
      rw [Function.comp_apply]
      by_cases hkey : key b = key a
      · rw [if_pos hkey, hp, h b (get_eq_some.mpr ⟨hb, hkey⟩)]
      · rw [if_neg hkey]
    rw [hkept]
    refine List.map_congr_left fun b _ => ?_
    simp only [Function.comp_apply, hf]
    split
    · rfl
    · rfl
  · have hlost : key' (f a) ∉ (d.select p f hf).values.map key' := by
      intro hfound
      obtain ⟨c, hc, hkey⟩ := List.mem_map.mp hfound
      obtain ⟨b, hb, -, rfl⟩ := mem_select.mp hc
      rw [hf, hf] at hkey
      exact hmem (hkey ▸ List.mem_map_of_mem hb)
    rw [values_put_of_not_mem hlost]
    simp only [select, values_put_of_not_mem hmem, List.filter_append, List.map_append]
    rw [List.filter_cons_of_pos hp]
    rfl

theorem select_put_of_not (hp : p a = false) (h : ∀ b, d.get (key a) = some b → p b = false) :
    (d.put a).select p f hf = d.select p f hf := by
  have hnone : (d.select p f hf).get (key a) = none := get_select_none h
  rw [← erase_of_get_none hnone, ← select_erase, ← @erase_put _ _ _ _ d a _ rfl, select_erase]
  refine (erase_of_get_none (get_select_none fun b hb => ?_)).symm
  rw [get_put] at hb
  cases hb
  exact hp

end Keyed
end Persatrix

/-!
## Sums over a list

The sum of a weight over a list: what it becomes when an element is replaced or added, and how
it is made up of the classes that a key divides the list into.
-/
namespace Persatrix
variable {α κ : Type}

def tally (w : α → ℕ) (l : List α) : ℕ := (l.map w).sum

theorem tally_set {w : α → ℕ} {l : List α} {i : ℕ} {t : α} (h : l[i]? = some t) (t' : α) :
    tally w (l.set i t') + w t = tally w l + w t' := by
  induction l generalizing i with
  | nil => cases h
  | cons a l ih =>
    cases i with
    | zero =>
      cases h
      simp only [tally, List.set_cons_zero, List.map_cons, List.sum_cons]
      omega
    | succ i =>
      have hrest := ih (i := i) h
      simp only [tally, List.set_cons_succ, List.map_cons, List.sum_cons] at hrest ⊢
      omega

theorem tally_eq_zero {w : α → ℕ} {l : List α} : tally w l = 0 ↔ ∀ a ∈ l, w a = 0 := by
  simp only [tally, List.sum_eq_zero_iff, List.forall_mem_map]

theorem le_tally {w : α → ℕ} {l : List α} {a : α} (h : a ∈ l) : w a ≤ tally w l :=
  List.single_le_sum (fun _ _ => Nat.zero_le _) _ (List.mem_map_of_mem h)

theorem tally_filter (w : α → ℕ) (p : α → Bool) (l : List α) :
    tally w l = tally w (l.filter p) + tally w (l.filter fun a => !p a) := by
  induction l with
  | nil => rfl
  | cons a l ih =>
    cases hp : p a with
    | true =>
      rw [List.filter_cons_of_pos hp, List.filter_cons_of_neg (by simp [hp])]
      simp only [tally, List.map_cons, List.sum_cons] at ih ⊢
      omega
    | false =>
      rw [List.filter_cons_of_neg (by simp [hp]), List.filter_cons_of_pos (by simp [hp])]
      simp only [tally, List.map_cons, List.sum_cons] at ih ⊢
      omega

/-- The elements of a class for each of the keys, and the elements that have none of them. -/
theorem tally_classes [DecidableEq κ] (w : α → ℕ) (c : α → κ) (l : List α) {ks : List κ}
    (hks : ks.Nodup) :
    tally w l = tally (fun k => tally w (l.filter fun a => c a = k)) ks +
      tally w (l.filter fun a => c a ∉ ks) := by
  induction ks with
  | nil => simp [tally]
  | cons k ks ih =>
    obtain ⟨hk, hks⟩ := List.nodup_cons.mp hks
    have hsplit := tally_filter w (fun a => c a = k) (l.filter fun a => c a ∉ ks)
    have hclass : (l.filter fun a => c a ∉ ks).filter (fun a => c a = k) =
        l.filter fun a => c a = k := by
      rw [List.filter_filter]
      refine List.filter_congr fun a _ => ?_
      by_cases ha : c a = k
      · simp [ha, hk]
      · simp [ha]
    have hrest : (l.filter fun a => c a ∉ ks).filter (fun a => !decide (c a = k)) =
        l.filter fun a => c a ∉ k :: ks := by
      rw [List.filter_filter]
      refine List.filter_congr fun a _ => ?_
      simp [List.mem_cons, not_or]
    rw [hclass, hrest] at hsplit
    rw [ih hks, hsplit]
    simp only [tally, List.map_cons, List.sum_cons]
    omega

theorem tally_le_tally {w w' : α → ℕ} {l : List α} (h : ∀ a ∈ l, w a ≤ w' a) :
    tally w l ≤ tally w' l := List.sum_le_sum h

theorem tally_concat (w : α → ℕ) (l : List α) (a : α) :
    tally w (l ++ [a]) = tally w l + w a := by
  rw [tally, List.map_append, List.sum_append, List.map_singleton, List.sum_singleton]
  rfl

end Persatrix
