import Mathlib.Data.List.Basic
import Mathlib.Order.Defs.LinearOrder

/-!
# Entries sorted by key

The entries of a map in ascending order of their keys. Of entries with one key the last stays.
-/
namespace Persatrix
variable {κ ν ν' : Type} [LT κ] [DecidableLT κ]

/-- Adds an entry in front of others, one of which replaces it if they have one key. -/
def addEntry (e : κ × ν) : List (κ × ν) → List (κ × ν)
  | [] => [e]
  | f :: m => if e.1 < f.1 then e :: f :: m else if f.1 < e.1 then f :: addEntry e m else f :: m

def sortEntries : List (κ × ν) → List (κ × ν)
  | [] => []
  | e :: es => addEntry e (sortEntries es)

/-- The keys ascend. -/
def Ascending (m : List (κ × ν)) : Prop := m.Pairwise fun e f => e.1 < f.1

theorem mem_addEntry {e g : κ × ν} {m : List (κ × ν)} (h : g ∈ addEntry e m) : g = e ∨ g ∈ m := by
  induction m with
  | nil => exact .inl (List.mem_singleton.mp h)
  | cons f m ih =>
    rw [addEntry] at h
    split_ifs at h
    · exact List.mem_cons.mp h
    · rcases List.mem_cons.mp h with hf | hrest
      · exact .inr (List.mem_cons.mpr (.inl hf))
      · rcases ih hrest with he | hm
        · exact .inl he
        · exact .inr (List.mem_cons_of_mem _ hm)
    · exact .inr h

theorem mem_addEntry_of_mem (e : κ × ν) {g : κ × ν} {m : List (κ × ν)} (h : g ∈ m) :
    g ∈ addEntry e m := by
  induction m with
  | nil => cases h
  | cons f m ih =>
    rw [addEntry]
    split_ifs
    · exact List.mem_cons_of_mem _ h
    · rcases List.mem_cons.mp h with hf | hm
      · exact List.mem_cons.mpr (.inl hf)
      · exact List.mem_cons_of_mem _ (ih hm)
    · exact h

theorem sortEntries_of_ascending {es : List (κ × ν)} (h : Ascending es) : sortEntries es = es := by
  induction es with
  | nil => rfl
  | cons e es ih =>
    obtain ⟨hfirst, hrest⟩ := List.pairwise_cons.mp h
    rw [sortEntries, ih hrest]
    cases es with
    | nil => rfl
    | cons f es => rw [addEntry, if_pos (hfirst f (List.mem_cons_self ..))]

theorem mem_sortEntries {e : κ × ν} {es : List (κ × ν)} (h : e ∈ sortEntries es) : e ∈ es := by
  induction es with
  | nil => exact h
  | cons f es ih =>
    rcases mem_addEntry h with he | hes
    · exact List.mem_cons.mpr (.inl he)
    · exact List.mem_cons_of_mem _ (ih hes)

theorem mem_addEntry_self [Std.Trichotomous (α := κ) (· < ·)] {e : κ × ν} {m : List (κ × ν)}
    (h : e.1 ∉ m.map Prod.fst) :
    e ∈ addEntry e m := by
  induction m with
  | nil => exact List.mem_singleton.mpr rfl
  | cons f m ih =>
    rw [List.map_cons, List.mem_cons, not_or] at h
    rw [addEntry]
    split_ifs with hlt hgt
    · exact List.mem_cons_self ..
    · exact List.mem_cons_of_mem _ (ih h.2)
    · exact absurd (Std.Trichotomous.trichotomous _ _ hlt hgt) h.1

section Order
variable [Trans (α := κ) (· < ·) (· < ·) (· < ·)]

theorem ascending_addEntry (e : κ × ν) {m : List (κ × ν)} (h : Ascending m) :
    Ascending (addEntry e m) := by
  induction m with
  | nil => exact List.pairwise_singleton _ _
  | cons f m ih =>
    obtain ⟨hfirst, hrest⟩ := List.pairwise_cons.mp h
    rw [addEntry]
    split_ifs with hlt hgt
    · apply List.pairwise_cons.mpr
      refine ⟨?_, h⟩
      intro g hg
      rcases List.mem_cons.mp hg with rfl | hm
      · exact hlt
      · exact Trans.trans hlt (hfirst g hm)
    · apply List.pairwise_cons.mpr
      refine ⟨?_, ih hrest⟩
      intro g hg
      rcases mem_addEntry hg with rfl | hm
      · exact hgt
      · exact hfirst g hm
    · exact h

theorem ascending_sortEntries (es : List (κ × ν)) : Ascending (sortEntries es) := by
  induction es with
  | nil => exact .nil
  | cons e es ih => exact ascending_addEntry e ih

variable [Std.Irrefl (α := κ) (· < ·)]

/-- An entry whose key is there already is not added. -/
theorem addEntry_of_mem {e : κ × ν} {m : List (κ × ν)} (hm : Ascending m)
    (h : e.1 ∈ m.map Prod.fst) : addEntry e m = m := by
  induction m with
  | nil => cases h
  | cons f m ih =>
    obtain ⟨hfirst, hrest⟩ := List.pairwise_cons.mp hm
    rw [addEntry]
    rw [List.map_cons] at h
    rcases List.mem_cons.mp h with heq | hmem
    · have hself : ¬ f.1 < f.1 := Std.Irrefl.irrefl f.1
      rw [heq, if_neg hself, if_neg hself]
    · obtain ⟨g, hg, hkey⟩ := List.mem_map.mp hmem
      have hgt : f.1 < e.1 := by
        rw [← hkey]
        exact hfirst g hg
      have hlt : ¬ e.1 < f.1 := by
        intro hlt
        exact Std.Irrefl.irrefl f.1 (Trans.trans hgt hlt)
      rw [if_neg hlt, if_pos hgt, ih hrest hmem]

variable [Std.Trichotomous (α := κ) (· < ·)]

theorem keys_sortEntries (es : List (κ × ν)) (k : κ) :
    k ∈ (sortEntries es).map Prod.fst ↔ k ∈ es.map Prod.fst := by
  induction es with
  | nil => rfl
  | cons e es ih =>
    rw [List.map_cons, List.mem_cons, sortEntries]
    by_cases hmem : e.1 ∈ (sortEntries es).map Prod.fst
    · rw [addEntry_of_mem (ascending_sortEntries es) hmem]
      constructor
      · intro h
        exact .inr (ih.mp h)
      · rintro (rfl | h)
        · exact hmem
        · exact ih.mpr h
    · constructor
      · intro h
        obtain ⟨g, hg, rfl⟩ := List.mem_map.mp h
        rcases mem_addEntry hg with rfl | hrest
        · exact .inl rfl
        · exact .inr (ih.mp (List.mem_map_of_mem hrest))
      · rintro (rfl | h)
        · exact List.mem_map_of_mem (mem_addEntry_self hmem)
        · obtain ⟨g, hg, rfl⟩ := List.mem_map.mp (ih.mpr h)
          exact List.mem_map_of_mem (mem_addEntry_of_mem e hg)

/-- Something holds of all entries that stay if it holds of each that no later one replaces. -/
theorem forall_mem_sortEntries_cons {P : κ × ν → Prop} (e : κ × ν) (es : List (κ × ν)) :
    (∀ g ∈ sortEntries (e :: es), P g) ↔
      (e.1 ∉ es.map Prod.fst → P e) ∧ ∀ g ∈ sortEntries es, P g := by
  rw [sortEntries]
  constructor
  · intro h
    refine ⟨?_, fun g hg => h g (mem_addEntry_of_mem e hg)⟩
    intro hkey
    apply h e (mem_addEntry_self _)
    rwa [keys_sortEntries]
  · rintro ⟨he, hes⟩ g hg
    by_cases hmem : e.1 ∈ (sortEntries es).map Prod.fst
    · rw [addEntry_of_mem (ascending_sortEntries es) hmem] at hg
      exact hes g hg
    · rcases mem_addEntry hg with rfl | hrest
      · apply he
        rwa [← keys_sortEntries]
      · exact hes g hrest

end Order
end Persatrix
