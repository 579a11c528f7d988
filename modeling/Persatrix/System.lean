/-!
# Transition systems with guarded, executable steps

`step s e` is `some t` when event `e` may be taken in state `s` and leads to
`t`, and `none` when it may not. A run is a list of events; `exec` replays it.
`Reaches C` collects the states reached by runs all of whose steps satisfy the
side condition `C`, so that a statement about every run and a statement about
the runs meeting a condition use one induction rule.
-/
namespace Persatrix

structure System (S E : Type) where
  init : S
  step : S → E → Option S

namespace System
variable {S E : Type} (sys : System S E)

def execFrom (s : S) (run : List E) : Option S := run.foldlM sys.step s

def exec (run : List E) : Option S := sys.execFrom sys.init run

@[simp] theorem execFrom_nil (s : S) : sys.execFrom s [] = some s := rfl

@[simp] theorem execFrom_cons (s : S) (e : E) (run : List E) :
    sys.execFrom s (e :: run) = (sys.step s e).bind fun t => sys.execFrom t run := rfl

/-- States reached by runs whose every step satisfies `C`. -/
inductive Reaches (C : S → E → Prop) : S → Prop
  | init : Reaches C sys.init
  | step {s t : S} {e : E} : Reaches C s → C s e → sys.step s e = some t → Reaches C t

def Reachable : S → Prop := sys.Reaches fun _ _ => True

variable {sys}

/-- An invariant may use the side condition of the step it is carried over. -/
theorem Reaches.invariant {C : S → E → Prop} {I : S → Prop} (init : I sys.init)
    (step : ∀ s e t, I s → C s e → sys.step s e = some t → I t)
    {s : S} (h : sys.Reaches C s) : I s := by
  induction h with
  | init => exact init
  | step _ hc hs ih => exact step _ _ _ ih hc hs

theorem Reachable.invariant {I : S → Prop} (init : I sys.init)
    (step : ∀ s e t, I s → sys.step s e = some t → I t)
    {s : S} (h : sys.Reachable s) : I s :=
  Reaches.invariant init (fun s e t hs _ => step s e t hs) h

theorem Reaches.mono {C D : S → E → Prop} (hCD : ∀ s e, C s e → D s e) {s : S}
    (h : sys.Reaches C s) : sys.Reaches D s := by
  induction h with
  | init => exact .init
  | step _ hc hs ih => exact .step ih (hCD _ _ hc) hs

theorem Reachable.next {s t : S} {e : E} (h : sys.Reachable s)
    (hs : sys.step s e = some t) : sys.Reachable t := Reaches.step h trivial hs

theorem reachable_execFrom {run : List E} {s t : S} (hs : sys.Reachable s)
    (h : sys.execFrom s run = some t) : sys.Reachable t := by
  induction run generalizing s with
  | nil =>
    cases h
    exact hs
  | cons e run ih =>
    rw [execFrom_cons] at h
    obtain ⟨u, hu, ht⟩ := Option.bind_eq_some_iff.mp h
    exact ih (hs.next hu) ht

theorem reachable_exec {run : List E} {s : S} (h : sys.exec run = some s) :
    sys.Reachable s := reachable_execFrom .init h

theorem exists_of_exec {run : List E} {p : S → Prop} [DecidablePred p]
    (h : (sys.exec run).map (fun s => decide (p s)) = some true) :
    ∃ s, sys.exec run = some s ∧ p s := by
  obtain ⟨s, hexec, hp⟩ := Option.map_eq_some_iff.mp h
  exact ⟨s, hexec, of_decide_eq_true hp⟩

/-- The system that takes only the steps that satisfy `C`. -/
def guarded (C : S → E → Prop) [∀ s e, Decidable (C s e)] (sys : System S E) : System S E where
  init := sys.init
  step := fun s e => if C s e then sys.step s e else none

theorem Reachable.of_guarded {C : S → E → Prop} [∀ s e, Decidable (C s e)] {s : S}
    (h : (sys.guarded C).Reachable s) : sys.Reaches C s := by
  induction h with
  | init => exact .init
  | @step s t e _ _ hs ih =>
    unfold guarded at hs
    dsimp only at hs
    by_cases hc : C s e
    · rw [if_pos hc] at hs
      exact .step ih hc hs
    · rw [if_neg hc] at hs
      cases hs

/-- The system that also keeps a log of what can be observed of its steps. -/
def logged {O : Type} (note : S → E → S → List O) (sys : System S E) : System (S × List O) E where
  init := (sys.init, [])
  step := fun p e => (sys.step p.1 e).map fun t => (t, p.2 ++ note p.1 e t)

theorem logged_step {O : Type} {note : S → E → S → List O} {p q : S × List O} {e : E}
    (h : (sys.logged note).step p e = some q) :
    sys.step p.1 e = some q.1 ∧ q.2 = p.2 ++ note p.1 e q.1 := by
  obtain ⟨t, ht, rfl⟩ := Option.map_eq_some_iff.mp h
  exact ⟨ht, rfl⟩

theorem Reachable.of_logged {O : Type} {note : S → E → S → List O} {p : S × List O}
    (h : (sys.logged note).Reachable p) : sys.Reachable p.1 := by
  induction h with
  | init => exact .init
  | step _ _ hs ih => exact ih.next (logged_step hs).1

/-- Keeping a log does not hinder the system. -/
theorem Reachable.exists_log {O : Type} (note : S → E → S → List O) {s : S}
    (h : sys.Reachable s) : ∃ log, (sys.logged note).Reachable (s, log) := by
  induction h with
  | init => exact ⟨[], .init⟩
  | @step s t e _ _ hs ih =>
    obtain ⟨log, hlog⟩ := ih
    refine ⟨log ++ note s e t, hlog.next (e := e) ?_⟩
    simp [logged, hs]

end System
end Persatrix
