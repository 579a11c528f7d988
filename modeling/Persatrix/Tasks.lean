import Mathlib.Data.List.Basic

/-!
# Cooperative tasks

A task runs until it waits for something, and goes on from there when it is resumed. It sees a
cancellation only then: one that has not begun when it is cancelled ends without having run.
-/
namespace Persatrix
variable {δ φ : Type}

inductive Progress (φ : Type) where
  | created
  | suspended (point : φ)
  | done
deriving DecidableEq

structure Task (δ φ : Type) where
  data : δ
  progress : Progress φ
  cancelling : Bool

namespace Task

def new (data : δ) : Task δ φ := ⟨data, .created, false⟩

def Live (t : Task δ φ) : Prop := t.progress ≠ .done

instance [DecidableEq φ] (t : Task δ φ) : Decidable t.Live := by
  unfold Live
  infer_instance

def moved (p : Progress φ) (t : Task δ φ) : Task δ φ := { t with progress := p }

/-- A task that is done cannot be cancelled. -/
def cancel (t : Task δ φ) : Task δ φ :=
  match t.progress with
  | .done => t
  | _ => { t with cancelling := true }

@[simp] theorem cancel_data (t : Task δ φ) : t.cancel.data = t.data := by
  unfold cancel
  split <;> rfl

@[simp] theorem cancel_progress (t : Task δ φ) : t.cancel.progress = t.progress := by
  unfold cancel
  split <;> rfl

end Task

/-- Tasks by the order of their creation. -/
abbrev Tasks (δ φ : Type) := List (Task δ φ)

namespace Tasks
variable {ts : Tasks δ φ} {i j : ℕ} {y : Task δ φ}

def Running (ts : Tasks δ φ) (i : ℕ) : Prop := ∃ t ∈ ts[i]?, t.Live

instance [DecidableEq φ] (ts : Tasks δ φ) (i : ℕ) : Decidable (ts.Running i) := by
  unfold Running
  infer_instance

def spawn (data : δ) (ts : Tasks δ φ) : Tasks δ φ := ts ++ [Task.new data]

def moveTo (i : ℕ) (p : Progress φ) (ts : Tasks δ φ) : Tasks δ φ := ts.modify i (Task.moved p)

def cancelAll (is : List ℕ) (ts : Tasks δ φ) : Tasks δ φ :=
  ts.mapIdx fun i t => if i ∈ is then t.cancel else t

theorem spawn_cases {d : δ} (h : (spawn d ts)[j]? = some y) :
    ts[j]? = some y ∨ j = ts.length ∧ y = .new d := by
  rw [spawn, List.getElem?_append] at h
  by_cases hj : j < ts.length
  · rw [if_pos hj] at h
    exact .inl h
  · rw [if_neg hj] at h
    obtain ⟨hlt, hy⟩ := List.getElem?_eq_some_iff.mp h
    rw [List.length_singleton] at hlt
    have hlast : j = ts.length := by omega
    subst hlast
    exact .inr ⟨rfl, by simpa using hy.symm⟩

theorem get_spawn {d : δ} (h : ts[j]? = some y) : (spawn d ts)[j]? = some y := by
  rw [spawn, List.getElem?_append_left (List.getElem?_eq_some_iff.mp h).choose]
  exact h

theorem get_spawn_new (d : δ) (ts : Tasks δ φ) : (spawn d ts)[ts.length]? = some (.new d) := by
  rw [spawn, List.getElem?_concat_length]

theorem moveTo_cases {p : Progress φ} (h : (moveTo i p ts)[j]? = some y) :
    i ≠ j ∧ ts[j]? = some y ∨ i = j ∧ ∃ x, ts[i]? = some x ∧ y = x.moved p := by
  rw [moveTo, List.getElem?_modify] at h
  obtain ⟨x, hx, hy⟩ := Option.map_eq_some_iff.mp h
  by_cases hij : i = j
  · subst hij
    rw [if_pos rfl] at hy
    exact .inr ⟨rfl, x, hx, hy.symm⟩
  · rw [if_neg hij] at hy
    exact .inl ⟨hij, hx.trans (congrArg some hy)⟩

theorem get_moveTo_ne {p : Progress φ} (hij : i ≠ j) : (moveTo i p ts)[j]? = ts[j]? := by
  rw [moveTo, List.getElem?_modify]
  simp only [if_neg hij, Option.map_eq_map, Option.map_id']

theorem get_moveTo {p : Progress φ} {x : Task δ φ} (h : ts[i]? = some x) :
    (moveTo i p ts)[i]? = some (x.moved p) := by
  rw [moveTo, List.getElem?_modify, h]
  simp only [if_true, Option.map_eq_map, Option.map_some]

theorem cancelAll_cases {is : List ℕ} (h : (cancelAll is ts)[j]? = some y) :
    ∃ x, ts[j]? = some x ∧ y = if j ∈ is then x.cancel else x := by
  rw [cancelAll, List.getElem?_mapIdx] at h
  obtain ⟨x, hx, hy⟩ := Option.map_eq_some_iff.mp h
  exact ⟨x, hx, hy.symm⟩

theorem get_cancelAll {is : List ℕ} {x : Task δ φ} (h : ts[j]? = some x) :
    (cancelAll is ts)[j]? = some (if j ∈ is then x.cancel else x) := by
  rw [cancelAll, List.getElem?_mapIdx, h, Option.map_some]

theorem running_spawn {d : δ} (h : (spawn d ts).Running j) : ts.Running j ∨ j = ts.length := by
  obtain ⟨x, hx, hlive⟩ := h
  rcases spawn_cases hx with hold | ⟨hj, -⟩
  · exact .inl ⟨x, hold, hlive⟩
  · exact .inr hj

theorem running_moveTo {p : Progress φ} (hi : ts.Running i) (h : (moveTo i p ts).Running j) :
    ts.Running j := by
  obtain ⟨x, hx, hlive⟩ := h
  rcases moveTo_cases hx with ⟨-, hold⟩ | ⟨rfl, -⟩
  · exact ⟨x, hold, hlive⟩
  · exact hi

theorem running_cancelAll {is : List ℕ} (h : (cancelAll is ts).Running j) : ts.Running j := by
  obtain ⟨y, hy, hlive⟩ := h
  obtain ⟨x, hx, rfl⟩ := cancelAll_cases hy
  refine ⟨x, hx, fun hdone => hlive ?_⟩
  split
  · rw [x.cancel_progress]
    exact hdone
  · exact hdone

end Tasks
end Persatrix
