import Mathlib.Data.Fintype.EquivFin
import Mathlib.Data.Set.Finite.Basic
import Mathlib.Logic.Relation
import Mathlib.Order.WellFounded

/-!
# Pointers

A partial function is read as a pointer at each element. To point some of the elements at a
given one makes a cycle exactly when one of them is found by following the pointers from it.
-/
namespace Persatrix.Pointers

variable {α : Type}

/-- There is a pointer from the one element to the other. -/
def Points (next : α → Option α) (a b : α) : Prop := next a = some b

/-- The elements that are found by following the pointers, the first one included. -/
abbrev Reaches (next : α → Option α) : α → α → Prop := Relation.ReflTransGen (Points next)

def NoCycle (next : α → Option α) : Prop := ∀ a, ¬Relation.TransGen (Points next) a a

/-- The elements of the list are pointed at the target. -/
def redirect [DecidableEq α] (next : α → Option α) (sources : List α) (target : α) :
    α → Option α := fun a => if a ∈ sources then some target else next a

variable {next : α → Option α}

theorem Points.eq {a b c : α} (hb : Points next a b) (hc : Points next a c) : b = c :=
  Option.some.inj (hb.symm.trans hc)

theorem Reaches.eq_of_end {a b : α} (h : Reaches next a b) (ha : next a = none) : b = a := by
  induction h with
  | refl => rfl
  | tail _ hbc ih =>
    subst ih
    rw [Points, ha] at hbc
    cases hbc

section redirect
variable [DecidableEq α] {sources : List α} {target : α}

theorem points_redirect_of_mem {a : α} (ha : a ∈ sources) :
    Points (redirect next sources target) a target := if_pos ha

theorem points_redirect_of_notMem {a b : α} (ha : a ∉ sources) :
    Points (redirect next sources target) a b ↔ Points next a b := by
  unfold Points redirect
  rw [if_neg ha]

/-- A path with the new pointers is an old one, or has an old one from its start to a source and
an old one from the target to its end. -/
theorem transGen_redirect {a b : α}
    (h : Relation.TransGen (Points (redirect next sources target)) a b) :
    Relation.TransGen (Points next) a b ∨
      (∃ o ∈ sources, Reaches next a o) ∧ Reaches next target b := by
  have hedge : ∀ {x y}, Points (redirect next sources target) x y →
      Points next x y ∨ x ∈ sources ∧ y = target := by
    intro x y hxy
    by_cases hx : x ∈ sources
    · exact .inr ⟨hx, hxy.eq (points_redirect_of_mem hx)⟩
    · exact .inl ((points_redirect_of_notMem hx).mp hxy)
  induction h with
  | single hab =>
    rcases hedge hab with hold | ⟨ha, rfl⟩
    · exact .inl (.single hold)
    · exact .inr ⟨⟨a, ha, .refl⟩, .refl⟩
  | tail _ hbc ih =>
    rcases hedge hbc with hold | ⟨hb, rfl⟩
    · rcases ih with ih | ⟨hsource, ih⟩
      · exact .inl (ih.tail hold)
      · exact .inr ⟨hsource, ih.tail hold⟩
    · rcases ih with ih | ⟨hsource, -⟩
      · exact .inr ⟨⟨_, hb, ih.to_reflTransGen⟩, .refl⟩
      · exact .inr ⟨hsource, .refl⟩

theorem noCycle_redirect (hacyclic : NoCycle next)
    (hsources : ∀ o ∈ sources, ¬Reaches next target o) :
    NoCycle (redirect next sources target) := by
  intro a ha
  rcases transGen_redirect ha with hold | ⟨⟨o, ho, hao⟩, hta⟩
  · exact hacyclic a hold
  · exact hsources o ho (hta.trans hao)

/-- A path to a source still leads to some source when the sources are pointed elsewhere. -/
theorem exists_source_of_reaches {a o : α} (h : Reaches next a o) (ho : o ∈ sources) :
    ∃ o' ∈ sources, Reaches (redirect next sources target) a o' := by
  induction h using Relation.ReflTransGen.head_induction_on with
  | refl => exact ⟨o, ho, .refl⟩
  | @head a b hab _ ih =>
    by_cases ha : a ∈ sources
    · exact ⟨a, ha, .refl⟩
    · obtain ⟨o', ho', hbo'⟩ := ih
      exact ⟨o', ho', .head ((points_redirect_of_notMem ha).mpr hab) hbo'⟩

/-- The new pointers have a cycle exactly when the target led to a source. -/
theorem noCycle_redirect_iff (hacyclic : NoCycle next) :
    NoCycle (redirect next sources target) ↔ ∀ o ∈ sources, ¬Reaches next target o := by
  refine ⟨fun hnew o ho hto => ?_, noCycle_redirect hacyclic⟩
  obtain ⟨o', ho', hto'⟩ := exists_source_of_reaches hto ho
  exact hnew target (.tail' hto' (points_redirect_of_mem ho'))

end redirect

/-- Without a cycle, the pointers among finitely many elements lead to an end. -/
theorem exists_end (hacyclic : NoCycle next) {nodes : List α}
    (hclosed : ∀ a ∈ nodes, ∀ b, Points next a b → b ∈ nodes) {a : α} (ha : a ∈ nodes) :
    ∃ b ∈ nodes, Reaches next a b ∧ next b = none := by
  let below : {x // x ∈ nodes} → {x // x ∈ nodes} → Prop :=
    fun x y => Relation.TransGen (Points next) y.1 x.1
  have hfinite : Finite {x // x ∈ nodes} := List.finite_toSet nodes
  have htrans : IsTrans _ below := ⟨fun _ _ _ hxy hyz => hyz.trans hxy⟩
  have hirrefl : Std.Irrefl below := ⟨fun x hx => hacyclic x.1 hx⟩
  have hwf : WellFounded below := Finite.wellFounded_of_trans_of_irrefl below
  have hend := hwf.induction (C := fun x => ∃ b ∈ nodes, Reaches next x.1 b ∧ next b = none)
    ⟨a, ha⟩
  apply hend
  rintro ⟨x, hx⟩ ih
  cases hnext : next x with
  | none => exact ⟨x, hx, .refl, hnext⟩
  | some y =>
    obtain ⟨b, hb, hyb, hnone⟩ := ih ⟨y, hclosed x hx y hnext⟩ (.single hnext)
    exact ⟨b, hb, .head hnext hyb, hnone⟩

end Persatrix.Pointers
