import Mathlib.Logic.Relation
import Mathlib.Data.List.Basic
import Mathlib.Order.Lattice

/-!
# Chains of dependencies

`dep a b` says that `a` depends on `b`. An element is at level `k` when its longest
chain of dependencies has `k` edges. Chains can be shortened, so `Chain dep k a`
reads as "the level of `a` is at least `k`", also where the level is infinite; a
levelling that works through the levels needs no other fact about the relation.
-/
namespace Persatrix

variable {α : Type} (dep : α → α → Prop)

/-- A chain of the given number of dependencies that ends at the element. -/
inductive Chain : ℕ → α → Prop
  | nil (a : α) : Chain 0 a
  | cons {n : ℕ} {a b : α} : dep a b → Chain n b → Chain (n + 1) a

/-- The longest chain ending at the element has `k` edges. -/
structure LongestChain (k : ℕ) (a : α) : Prop where
  chain : Chain dep k a
  longest : ∀ n, Chain dep n a → n ≤ k

def Acyclic : Prop := ∀ a, ¬ Relation.TransGen dep a a

variable {dep}

theorem chain_succ_iff {n : ℕ} {a : α} :
    Chain dep (n + 1) a ↔ ∃ b, dep a b ∧ Chain dep n b := by
  constructor
  · intro h
    cases h with
    | cons hdep htail => exact ⟨_, hdep, htail⟩
  · intro ⟨b, hdep, htail⟩
    exact .cons hdep htail

theorem Chain.mono {m n : ℕ} {a : α} (h : Chain dep n a) (hle : m ≤ n) : Chain dep m a := by
  induction h generalizing m with
  | nil a =>
    obtain rfl : m = 0 := by omega
    exact .nil a
  | cons hdep _ ih =>
    cases m with
    | zero => exact .nil _
    | succ m => exact .cons hdep (ih (by omega))

theorem longestChain_iff {k : ℕ} {a : α} :
    LongestChain dep k a ↔ Chain dep k a ∧ ¬ Chain dep (k + 1) a := by
  constructor
  · intro h
    refine ⟨h.chain, fun hlonger => ?_⟩
    have hle := h.longest _ hlonger
    omega
  · intro ⟨hchain, hmax⟩
    refine ⟨hchain, fun n hn => ?_⟩
    by_contra hlt
    exact hmax (hn.mono (by omega))

theorem LongestChain.unique {j k : ℕ} {a : α} (hj : LongestChain dep j a)
    (hk : LongestChain dep k a) : j = k := by
  have hjk := hk.longest j hj.chain
  have hkj := hj.longest k hk.chain
  omega

/-- Below a bounded element some dependency has each smaller level. -/
theorem exists_longestChain_of_le {a : α} {n k : ℕ} (h : LongestChain dep n a) (hk : k ≤ n) :
    ∃ b, Relation.ReflTransGen dep a b ∧ LongestChain dep k b := by
  induction n generalizing a with
  | zero =>
    obtain rfl : k = 0 := by omega
    exact ⟨a, .refl, h⟩
  | succ n ih =>
    by_cases hlast : k = n + 1
    · subst hlast
      exact ⟨a, .refl, h⟩
    · obtain ⟨hchain, hmax⟩ := longestChain_iff.mp h
      obtain ⟨b, hdep, htail⟩ := chain_succ_iff.mp hchain
      have hb : LongestChain dep n b := by
        refine longestChain_iff.mpr ⟨htail, fun hlonger => ?_⟩
        exact hmax (.cons hdep hlonger)
      obtain ⟨c, hreach, hc⟩ := ih hb (by omega)
      exact ⟨c, .head hdep hreach, hc⟩

/-- An element some chain length does not reach has a level below that length. -/
theorem exists_longestChain {a : α} {n : ℕ} (h : ¬ Chain dep n a) :
    ∃ k < n, LongestChain dep k a := by
  induction n with
  | zero => exact absurd (.nil a) h
  | succ n ih =>
    by_cases hn : Chain dep n a
    · exact ⟨n, by omega, longestChain_iff.mpr ⟨hn, h⟩⟩
    · obtain ⟨k, hk, hlevel⟩ := ih hn
      exact ⟨k, by omega, hlevel⟩

/-- An element on a cycle ends chains of every length. -/
theorem chain_of_cycle {a : α} (h : Relation.TransGen dep a a) (n : ℕ) : Chain dep n a := by
  have hreach : ∀ n b, Relation.ReflTransGen dep b a → Chain dep n b := by
    intro n
    induction n with
    | zero =>
      intro b _
      exact .nil b
    | succ n ih =>
      intro b hb
      have hstep : ∃ c, dep b c ∧ Relation.ReflTransGen dep c a := by
        cases Relation.ReflTransGen.cases_head hb with
        | inl heq =>
          subst heq
          exact Relation.TransGen.head'_iff.mp h
        | inr hhead => exact hhead
      obtain ⟨c, hdep, hc⟩ := hstep
      exact .cons hdep (ih c hc)
  exact hreach n a .refl

/-- With finitely many dependencies each, an element all of whose dependencies
bottom out has bounded chains. -/
theorem bounded_of_acc (deps : α → List α) (hdeps : ∀ a b, dep a b → b ∈ deps a) {a : α}
    (h : Acc (fun b a => dep a b) a) : ∃ n, ¬ Chain dep n a := by
  induction h with
  | intro a _ ih =>
    have hbound : ∀ l : List α, ∃ n, ∀ b ∈ l, dep a b → ¬ Chain dep n b := by
      intro l
      induction l with
      | nil => exact ⟨0, by simp⟩
      | cons b l ihl =>
        obtain ⟨n, hn⟩ := ihl
        by_cases hdep : dep a b
        · obtain ⟨m, hm⟩ := ih b hdep
          refine ⟨max m n, ?_⟩
          intro c hc hac hchain
          rcases List.mem_cons.mp hc with rfl | hc
          · exact hm (hchain.mono (le_max_left m n))
          · exact hn c hc hac (hchain.mono (le_max_right m n))
        · refine ⟨n, ?_⟩
          intro c hc hac
          rcases List.mem_cons.mp hc with rfl | hc
          · exact absurd hac hdep
          · exact hn c hc hac
    obtain ⟨n, hn⟩ := hbound (deps a)
    refine ⟨n + 1, fun hchain => ?_⟩
    obtain ⟨b, hdep, htail⟩ := chain_succ_iff.mp hchain
    exact hn b (hdeps a b hdep) hdep htail

end Persatrix
