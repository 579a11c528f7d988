import Persatrix.System
import Mathlib.Data.Nat.Notation
import Mathlib.Logic.Basic

/-!
# Calls on one connection

A call runs in a transaction of its own, which is rolled back when the call fails, or in one that
is open, and then what the call leaves stays if that one commits. A commit that fails is a
rollback.
-/
namespace Persatrix.Transactions
variable {S O E A : Type}

structure Store (S : Type) where
  committed : S
  /-- What the transaction sees that is open. -/
  opened : Option S

def Store.view (s : Store S) : S := s.opened.getD s.committed

inductive Event (O : Type) where
  | call (op : O)
  | begin
  | commit
  | rollback

/-- What a transaction of its own leaves of a call. -/
def alone (s : S) (r : S × Except E A) : S :=
  match r.2 with
  | .ok _ => r.1
  | .error _ => s

def step (run : O → S → S × Except E A) (s : Store S) : Event O → Option (Store S)
  | .call op =>
    match s.opened with
    | none => some ⟨alone s.committed (run op s.committed), none⟩
    | some t => some ⟨s.committed, some (run op t).1⟩
  | .begin =>
    match s.opened with
    | none => some ⟨s.committed, some s.committed⟩
    | some _ => none
  | .commit => s.opened.map fun t => ⟨t, none⟩
  | .rollback => s.opened.map fun _ => ⟨s.committed, none⟩

def system (run : O → S → S × Except E A) (init : S) : System (Store S) (Event O) :=
  ⟨⟨init, none⟩, step run⟩

variable {run : O → S → S × Except E A} {init : S} {s t : Store S}

/-- The calls in a transaction that is open satisfy a condition on what they see. -/
def Calls (C : O → S → Prop) (s : Store S) : Event O → Prop
  | .call op => ∀ u, s.opened = some u → C op u
  | _ => True

instance {C : O → S → Prop} [∀ op s, Decidable (C op s)] (s : Store S) (e : Event O) :
    Decidable (Calls C s e) :=
  match e with
  | .call op =>
    match hopened : s.opened with
    | none => isTrue fun _ hu => (by rw [hopened] at hu; cases hu)
    | some u => decidable_of_iff (C op u)
        ⟨fun h _ hu => Option.some.inj (hopened.symm.trans hu) ▸ h, fun h => h u hopened⟩
  | .begin => isTrue trivial
  | .commit => isTrue trivial
  | .rollback => isTrue trivial

theorem calls_true {s : Store S} (e : Event O) : Calls (fun _ _ => True) s e := by
  cases e with
  | call => exact fun _ _ => trivial
  | begin => trivial
  | commit => trivial
  | rollback => trivial

/-- What a call leaves is what it has done, or what it saw. -/
theorem view_call {op : O} (h : step run s (.call op) = some t) :
    t.view = (run op s.view).1 ∨ (∃ e, (run op s.view).2 = .error e) ∧ t.view = s.view := by
  unfold step at h
  cases hopened : s.opened with
  | none =>
    have hview : s.view = s.committed := by rw [Store.view, hopened, Option.getD_none]
    rw [hopened] at h
    cases h
    rw [hview, Store.view, Option.getD_none, alone]
    cases hresult : (run op s.committed).2 with
    | ok => exact .inl rfl
    | error e => exact .inr ⟨⟨e, rfl⟩, rfl⟩
  | some u =>
    have hview : s.view = u := by rw [Store.view, hopened, Option.getD_some]
    rw [hopened] at h
    cases h
    rw [hview]
    exact .inl rfl

/-- A call that succeeds leaves what it has done. -/
theorem view_call_of_ok {op : O} {a : A} (hok : (run op s.view).2 = .ok a)
    (h : step run s (.call op) = some t) : t.view = (run op s.view).1 := by
  rcases view_call h with hview | ⟨⟨e, herror⟩, -⟩
  · exact hview
  · rw [hok] at herror
    cases herror

/-- What the calls preserve holds of what is committed, and of what an open transaction sees. -/
theorem invariant {C : O → S → Prop} {I : S → Prop} (hinit : I init)
    (hcall : ∀ op s, I s → (C op s ∨ ∃ a, (run op s).2 = .ok a) → I (run op s).1)
    (h : (system run init).Reaches (Calls C) s) :
    I s.committed ∧ ∀ u, s.opened = some u → I u := by
  apply System.Reaches.invariant (I := fun s => I s.committed ∧ ∀ u, s.opened = some u → I u) _ _ h
  · exact ⟨hinit, fun u hu => by cases hu⟩
  · intro s e t hs hC hstep
    cases e with
    | call op =>
      have hstep : step run s (.call op) = some t := hstep
      have hC : ∀ u, s.opened = some u → C op u := hC
      unfold step at hstep
      cases hopened : s.opened with
      | none =>
        rw [hopened] at hstep
        cases hstep
        refine ⟨?_, fun u hu => by cases hu⟩
        unfold alone
        cases hresult : (run op s.committed).2 with
        | ok a => exact hcall op _ hs.1 (.inr ⟨a, hresult⟩)
        | error => exact hs.1
      | some u =>
        rw [hopened] at hstep
        cases hstep
        refine ⟨hs.1, fun v hv => ?_⟩
        obtain rfl := Option.some.inj hv
        exact hcall op u (hs.2 u hopened) (.inl (hC u hopened))
    | begin =>
      have hstep : step run s .begin = some t := hstep
      unfold step at hstep
      cases hopened : s.opened with
      | none =>
        rw [hopened] at hstep
        cases hstep
        refine ⟨hs.1, fun u hu => ?_⟩
        obtain rfl := Option.some.inj hu
        exact hs.1
      | some u =>
        rw [hopened] at hstep
        cases hstep
    | commit =>
      obtain ⟨u, hu, rfl⟩ := Option.map_eq_some_iff.mp hstep
      exact ⟨hs.2 u hu, fun v hv => by cases hv⟩
    | rollback =>
      obtain ⟨u, hu, rfl⟩ := Option.map_eq_some_iff.mp hstep
      exact ⟨hs.1, fun v hv => by cases hv⟩

theorem invariant_view {C : O → S → Prop} {I : S → Prop} (hinit : I init)
    (hcall : ∀ op s, I s → (C op s ∨ ∃ a, (run op s).2 = .ok a) → I (run op s).1)
    (h : (system run init).Reaches (Calls C) s) : I s.view := by
  obtain ⟨hcommitted, hopened⟩ := invariant hinit hcall h
  cases hs : s.opened with
  | none =>
    rw [Store.view, hs, Option.getD_none]
    exact hcommitted
  | some u =>
    rw [Store.view, hs, Option.getD_some]
    exact hopened u hs

/-- What the transaction sees that is open. -/
def Sees (s : Store S) (u : S) : Prop := u = s.committed ∨ s.opened = some u

theorem invariant_sees {C : O → S → Prop} {I : S → Prop} (hinit : I init)
    (hcall : ∀ op s, I s → (C op s ∨ ∃ a, (run op s).2 = .ok a) → I (run op s).1)
    (h : (system run init).Reaches (Calls C) s) {u : S} (hu : Sees s u) : I u := by
  rcases hu with rfl | hopened
  · exact (invariant hinit hcall h).1
  · exact (invariant hinit hcall h).2 u hopened

section
variable {C : O → S → Prop} {I : S → Prop} {R : S → S → Prop}

/-- What an open transaction sees is related to what was committed before it. -/
theorem related_opened (hinit : I init) (hcall : ∀ op s, I s → (C op s ∨ ∃ a, (run op s).2 = .ok a) → I (run op s).1)
    (hrefl : ∀ a, R a a) (htrans : ∀ a b c, R a b → R b c → R a c)
    (hrun : ∀ op s, I s → (C op s ∨ ∃ a, (run op s).2 = .ok a) → R s (run op s).1)
    (h : (system run init).Reaches (Calls C) s) : ∀ u, s.opened = some u → R s.committed u := by
  induction h with
  | init =>
    intro u hu
    cases hu
  | @step s t e hs hC hstep ih =>
    have hview := invariant_view hinit hcall hs
    cases e with
    | call op =>
      have hstep : step run s (.call op) = some t := hstep
      have hC : ∀ u, s.opened = some u → C op u := hC
      unfold step at hstep
      cases hopened : s.opened with
      | none =>
        rw [hopened] at hstep
        cases hstep
        intro u hu
        cases hu
      | some v =>
        rw [Store.view, hopened, Option.getD_some] at hview
        rw [hopened] at hstep
        cases hstep
        intro u hu
        obtain rfl := Option.some.inj hu
        exact htrans _ _ _ (ih v hopened) (hrun op v hview (.inl (hC v hopened)))
    | begin =>
      have hstep : step run s .begin = some t := hstep
      unfold step at hstep
      cases hopened : s.opened with
      | none =>
        rw [hopened] at hstep
        cases hstep
        intro u hu
        obtain rfl := Option.some.inj hu
        exact hrefl _
      | some v =>
        rw [hopened] at hstep
        cases hstep
    | commit =>
      obtain ⟨u, hu, rfl⟩ := Option.map_eq_some_iff.mp hstep
      intro v hv
      cases hv
    | rollback =>
      obtain ⟨u, hu, rfl⟩ := Option.map_eq_some_iff.mp hstep
      intro v hv
      cases hv

/-- What is committed next is related to what is committed. -/
theorem related_committed (hinit : I init) (hcall : ∀ op s, I s → (C op s ∨ ∃ a, (run op s).2 = .ok a) → I (run op s).1)
    (hrefl : ∀ a, R a a) (htrans : ∀ a b c, R a b → R b c → R a c)
    (hrun : ∀ op s, I s → (C op s ∨ ∃ a, (run op s).2 = .ok a) → R s (run op s).1)
    (h : (system run init).Reaches (Calls C) s) {e : Event O}
    (hstep : step run s e = some t) : R s.committed t.committed := by
  cases e with
  | call op =>
    have hcommitted := (invariant hinit hcall h).1
    unfold step at hstep
    cases hopened : s.opened with
    | none =>
      rw [hopened] at hstep
      cases hstep
      change R s.committed (alone s.committed (run op s.committed))
      unfold alone
      cases hresult : (run op s.committed).2 with
      | ok a => exact hrun op _ hcommitted (.inr ⟨a, hresult⟩)
      | error => exact hrefl _
    | some v =>
      rw [hopened] at hstep
      cases hstep
      exact hrefl _
  | begin =>
    unfold step at hstep
    cases hopened : s.opened with
    | none =>
      rw [hopened] at hstep
      cases hstep
      exact hrefl _
    | some v =>
      rw [hopened] at hstep
      cases hstep
  | commit =>
    obtain ⟨u, hu, rfl⟩ := Option.map_eq_some_iff.mp hstep
    exact related_opened hinit hcall hrefl htrans hrun h u hu
  | rollback =>
    obtain ⟨u, -, rfl⟩ := Option.map_eq_some_iff.mp hstep
    exact hrefl _

end
end Persatrix.Transactions

/-!
## Transactions of statements

A transaction is a sequence of statements. One that fails ends it, and nothing remains of those
before it. A statement may fail for a reason of its own, whatever it was to do.
-/
namespace Persatrix
variable {S E A B : Type}

/-- Beside the state, the number of statements that run before one fails for a reason of its own,
if one does. -/
abbrev Tx (S E : Type) := StateT (Option ℕ × S) (Except E)

namespace Tx

/-- One statement, with the error of its failing. -/
def statement (broken : E) (run : S → Except E (A × S)) : Tx S E A := fun (fault, s) =>
  match fault with
  | some 0 => .error broken
  | none => (run s).map fun (a, t) => (a, none, t)
  | some (n + 1) => (run s).map fun (a, t) => (a, some n, t)

def fail (e : E) : Tx S E A := fun _ => .error e

/-- `f` for each of a list, in its order. -/
def each (f : B → Tx S E Unit) : List B → Tx S E Unit
  | [] => pure ()
  | b :: l => do
    f b
    each f l

def transaction (fault : Option ℕ) (body : Tx S E A) (s : S) : S × Except E A :=
  match body (fault, s) with
  | .ok (a, _, t) => (t, .ok a)
  | .error e => (s, .error e)

/-- What holds after a transaction that had `P` before: `Q` of what it returns, or `R` of its
error. -/
def Triple (P : S → Prop) (body : Tx S E A) (Q : A → S → Prop) (R : E → Prop) : Prop :=
  ∀ fault s, P s → match body (fault, s) with
    | .ok (a, _, t) => Q a t
    | .error e => R e

variable {P P' : S → Prop} {Q : A → S → Prop} {R : E → Prop} {body : Tx S E A}

theorem Triple.pure {a : A} (h : ∀ s, P s → Q a s) : Triple P (pure a : Tx S E A) Q R :=
  fun _ s hs => h s hs

theorem Triple.fail {e : E} (h : R e) : Triple P (fail e : Tx S E A) Q R := fun _ _ _ => h

theorem Triple.bind {f : A → Tx S E B} {Q' : B → S → Prop} (h : Triple P body Q R)
    (hf : ∀ a, Triple (Q a) (f a) Q' R) : Triple P (body >>= f) Q' R := by
  intro fault s hs
  have hbody := h fault s hs
  change match (body (fault, s)).bind (fun p => f p.1 p.2) with
    | .ok (a, _, t) => Q' a t
    | .error e => R e
  cases hrun : body (fault, s) with
  | error e =>
    rw [hrun] at hbody
    exact hbody
  | ok p =>
    rw [hrun] at hbody
    exact hf p.1 p.2.1 p.2.2 hbody

theorem Triple.statement {broken : E} {run : S → Except E (A × S)} (hbroken : R broken)
    (h : ∀ s, P s → match run s with
      | .ok (a, t) => Q a t
      | .error e => R e) : Triple P (statement broken run) Q R := by
  intro fault s hs
  have hrun := h s hs
  unfold Tx.statement
  match fault with
  | some 0 => exact hbroken
  | none =>
    dsimp only
    cases hresult : run s <;> rw [hresult] at hrun <;> exact hrun
  | some (n + 1) =>
    dsimp only
    cases hresult : run s <;> rw [hresult] at hrun <;> exact hrun

theorem Triple.weaken (h : Triple P body Q R) (hP : ∀ s, P' s → P s) : Triple P' body Q R :=
  fun fault s hs => h fault s (hP s hs)

theorem Triple.ite {c : Prop} [Decidable c] {body' : Tx S E A} (hthen : c → Triple P body Q R)
    (helse : ¬c → Triple P body' Q R) : Triple P (if c then body else body') Q R := by
  by_cases hc : c
  · rw [if_pos hc]
    exact hthen hc
  · rw [if_neg hc]
    exact helse hc

/-- What one round of a loop keeps, the loop keeps. -/
theorem Triple.each {f : B → Tx S E Unit} {l : List B}
    (h : ∀ b ∈ l, Triple P (f b) (fun _ => P) R) : Triple P (each f l) (fun _ => P) R := by
  induction l with
  | nil => exact Triple.pure fun s hs => hs
  | cons b l ih =>
    have hl : ∀ b' ∈ l, Triple P (f b') (fun _ => P) R := fun b' hb' =>
      h b' (List.mem_cons_of_mem b hb')
    exact (h b List.mem_cons_self).bind fun _ => ih hl

theorem Triple.transaction (h : Triple P body Q R) (fault : Option ℕ) {s : S} (hs : P s) :
    (∀ a, (transaction fault body s).2 = .ok a → Q a (transaction fault body s).1) ∧
    ∀ e, (transaction fault body s).2 = .error e → R e := by
  have hbody := h fault s hs
  unfold Tx.transaction
  cases hrun : body (fault, s) with
  | error e =>
    rw [hrun] at hbody
    refine ⟨fun a ha => (by cases ha), fun e' he => ?_⟩
    cases he
    exact hbody
  | ok p =>
    rw [hrun] at hbody
    refine ⟨fun a ha => ?_, fun e he => (by cases he)⟩
    cases ha
    exact hbody

/-- Nothing remains of a transaction that fails. -/
theorem transaction_error {fault : Option ℕ} {s : S} {e : E}
    (h : (transaction fault body s).2 = .error e) : (transaction fault body s).1 = s := by
  unfold transaction at h ⊢
  cases hrun : body (fault, s) with
  | error e' => rfl
  | ok p =>
    rw [hrun] at h
    cases h

end Tx
end Persatrix
