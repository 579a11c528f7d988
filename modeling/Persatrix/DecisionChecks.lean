import Persatrix.DecisionPipeline

/-!
# What the checks of a record say

The check of an action's outcome as one statement, and what each step of the pipeline gives when
no coroutine that it is handed raises as it is closed.
-/
namespace Persatrix.Decision

theorem bind_eq_ok {α β : Type} {x : Except PyError α} {f : α → Except PyError β} {b : β} :
    (x >>= f) = .ok b ↔ ∃ a, x = .ok a ∧ f a = .ok b := by
  cases x with
  | error e =>
    constructor
    · intro h
      cases h
    · rintro ⟨_, h, -⟩
      cases h
  | ok a =>
    constructor
    · exact fun h => ⟨a, rfl, h⟩
    · rintro ⟨_, h, hf⟩
      cases h
      exact hf

theorem raiseIf_ok {p : Prop} [Decidable p] {u : Unit} : raiseIf p = .ok u ↔ ¬p := by
  unfold raiseIf
  split
  · next hp => simp [hp]
  · next hp => simp [hp]

/-! ### Rejections -/

/-- The ids of an iteration, where all of them are texts. -/
def idTexts (it : Iteration PyValue) : Option (List Text) :=
  match candidateIDs it with
  | .ok ids => ids.mapM PyValue.text?
  | .error _ => none

/-- The iteration names different candidates, and not the one that is selected. -/
def Rejects (candidates : List DecisionCandidate) (selectedID : PyValue)
    (it : Iteration PyValue) : Prop :=
  ∃ ids, idTexts it = some ids ∧ ids.Nodup ∧
    (∀ t ∈ ids, t ∈ candidates.map DecisionCandidate.candidateID) ∧
    ∀ id, selectedID = .str id → id ∉ ids

theorem hashError_of_texts {ids : List PyValue} {texts : List Text}
    (h : ids.mapM PyValue.text? = some texts) : ids.findSome? PyValue.hashError = none := by
  induction ids generalizing texts with
  | nil => rfl
  | cons v ids ih =>
    rw [List.mapM_cons] at h
    obtain ⟨t, ht, hrest⟩ := Option.bind_eq_some_iff.mp h
    obtain ⟨ts, hts, -⟩ := Option.bind_eq_some_iff.mp hrest
    rw [List.findSome?_cons]
    cases v with
    | str s => exact ih hts
    | none => cases ht
    | bool _ => cases ht
    | int _ => cases ht
    | float _ => cases ht
    | actionClass _ => cases ht
    | verdict _ => cases ht
    | rejection _ _ => cases ht
    | object _ _ _ _ _ => cases ht

theorem checkRejected_ok {candidates : List DecisionCandidate} {ids : List PyValue}
    {texts : List Text} : checkRejected candidates ids = .ok texts ↔
      ids.mapM PyValue.text? = some texts ∧ texts.Nodup ∧
        ∀ t ∈ texts, t ∈ candidates.map DecisionCandidate.candidateID := by
  constructor
  · intro h
    unfold checkRejected at h
    split at h
    · cases h
    · split at h
      · cases h
      · next texts' htexts =>
          split at h
          · next hgood =>
              cases h
              exact ⟨htexts, hgood.1, hgood.2⟩
          · cases h
  · rintro ⟨htexts, hnodup, hmem⟩
    rw [checkRejected, hashError_of_texts htexts, htexts]
    exact if_pos ⟨hnodup, hmem⟩

/-! ### The outcome of an action -/

/-- The outcome selects a candidate under its own class, or defers for a reason. -/
structure Settled (mode : PolicyMode) (candidates : List DecisionCandidate) (o : DecisionOutcome) :
    Prop where
  unscored : mode = .manual → o.confidence.isNone = true
  selected : o.selectedID = .none ∨ ∃ id, o.selectedID = .str id ∧
    (classOf candidates id).any (isClass o.actionClass) = true
  acts : o.actionClass.isNone = false ∧ o.verdict.isNone = true
  defers : o.selectedID = .none → deferred o = .ok true
  truthful : ∃ b, deferred o = .ok b

theorem checkSelected_ok {candidates : List DecisionCandidate} {rejected : List Text}
    {selectedID actionClass : PyValue} {u : Unit} :
    checkSelected candidates rejected selectedID actionClass = .ok u ↔
      selectedID = .none ∨ ∃ id, selectedID = .str id ∧ id ∉ rejected ∧
        (classOf candidates id).any (isClass actionClass) = true := by
  cases selectedID with
  | none => simp [checkSelected]
  | str id =>
    simp only [checkSelected]
    by_cases hid : id ∈ rejected
    · simp [hid]
    · simp [hid]
  | object hash truth first second candidateID =>
    cases hash <;> simp [checkSelected, PyValue.hashError]
  | bool b => simp [checkSelected, PyValue.hashError]
  | int n => simp [checkSelected, PyValue.hashError]
  | float x => simp [checkSelected, PyValue.hashError]
  | actionClass a => simp [checkSelected, PyValue.hashError]
  | verdict v => simp [checkSelected, PyValue.hashError]
  | rejection a b => simp [checkSelected, PyValue.hashError]

theorem isNone_iff {v : PyValue} : v.isNone = true ↔ v = .none := by
  cases v <;> simp [PyValue.isNone]

theorem checkOutcome_ok {mode : PolicyMode} {candidates : List DecisionCandidate}
    {o : DecisionOutcome} : checkOutcome mode candidates o .action none = .ok () ↔
      Settled mode candidates o ∧ Rejects candidates o.selectedID o.rejected.first := by
  unfold checkOutcome
  simp only [bind_eq_ok, raiseIf_ok, checkRejected_ok, checkSelected_ok]
  constructor
  · rintro ⟨-, hscored, ids, hids, texts, ⟨htexts, hnodup, hmem⟩, -, hselected, d, hd, -, hacts, -, -,
      hdefers⟩
    refine ⟨⟨fun hmode => ?_, ?_, ?_, fun hnone => ?_, d, hd⟩, texts, ?_, hnodup, hmem, ?_⟩
    · simpa [hmode] using hscored
    · rcases hselected with hnone | ⟨id, hid, -, hclass⟩
      · exact .inl hnone
      · exact .inr ⟨id, hid, hclass⟩
    · simpa using hacts
    · rw [hd]
      simpa [hnone, PyValue.isNone] using hdefers
    · rw [idTexts, hids]
      exact htexts
    · intro id hid
      rcases hselected with hnone | ⟨id', hid', hnot, -⟩
      · rw [hid] at hnone
        cases hnone
      · rw [hid] at hid'
        cases hid'
        exact hnot
  · rintro ⟨h, texts, htexts, hnodup, hmem, hnot⟩
    unfold idTexts at htexts
    split at htexts
    · next ids hids =>
        obtain ⟨d, hd⟩ := h.truthful
        refine ⟨(), fun hscored => ?_, ids, hids, texts, ⟨htexts, hnodup, hmem⟩, (), ?_, d, hd, (),
          ?_, (), by simp, fun hdefers => ?_⟩
        · rw [h.unscored hscored.1] at hscored
          cases hscored.2
        · rcases h.selected with hnone | ⟨id, hid, hclass⟩
          · exact .inl hnone
          · exact .inr ⟨id, hid, hnot id hid, hclass⟩
        · simp [h.acts]
        · have htrue := h.defers (isNone_iff.mp hdefers.1)
          rw [hd, hdefers.2] at htrue
          cases htrue
    · cases htexts

/-! ### What the callbacks answer -/

def Answer.passes : Answer → Bool
  | .value .none => true
  | _ => false

/-- The reason code that the answer is. -/
def Answer.refusal : Answer → Option Text
  | .value (.str s) => if isReasonCode s then some s else none
  | _ => none

/-- The answer is a coroutine that raises as it is closed. -/
def Answer.hangs : Answer → Bool
  | .coroutine false => true
  | _ => false

theorem ask_hangs {context : DecisionContext} {k : Check} {c : DecisionCandidate}
    (h : (k context c).hangs = true) : ask context k c = .error .other := by
  unfold ask
  cases hanswer : k context c with
  | coroutine closes =>
    cases closes with
    | true => simp [hanswer, Answer.hangs] at h
    | false => rfl
  | raises => simp [hanswer, Answer.hangs] at h
  | value v => simp [hanswer, Answer.hangs] at h

theorem ask_eq {context : DecisionContext} {k : Check} {c : DecisionCandidate}
    (h : (k context c).hangs = false) : ask context k c = .ok
      (if (k context c).passes then .passes
      else
        match (k context c).refusal with
        | some reason => .refuses reason
        | none => .broke) := by
  unfold ask
  cases hanswer : k context c with
  | coroutine closes =>
    cases closes with
    | true => rfl
    | false => simp [hanswer, Answer.hangs] at h
  | raises => rfl
  | value v =>
    cases v with
    | str s =>
      by_cases hcode : isReasonCode s = true
      · simp [Answer.passes, Answer.refusal, hcode]
      · simp [Answer.passes, Answer.refusal, hcode]
    | none => rfl
    | bool _ => rfl
    | int _ => rfl
    | float _ => rfl
    | actionClass _ => rfl
    | verdict _ => rfl
    | rejection _ _ => rfl
    | object _ _ _ _ _ => rfl

theorem refusal_of_passes {a : Answer} (h : a.passes = true) : a.refusal = none := by
  cases a with
  | raises => cases h
  | coroutine closes => cases h
  | value v =>
    cases v with
    | none => rfl
    | _ => cases h

/-- No check that is asked about the candidate, until an answer stops the asking, answers with a
coroutine that raises as it is closed. -/
def Closes (context : DecisionContext) (c : DecisionCandidate) (stops : Answer → Bool) :
    List Check → Bool
  | [] => true
  | k :: checks =>
    !(k context c).hangs && (stops (k context c) || Closes context c stops checks)

def refuses (a : Answer) : Bool := a.refusal.isSome

def holds (a : Answer) : Bool := !a.passes

/-- The reason for which the constraints remove a candidate. -/
def removal (context : DecisionContext) (constraints : List Check) (c : DecisionCandidate) :
    Option Text :=
  match constraints.findSome? fun k => (k context c).refusal with
  | some reason => some reason
  | none =>
    if constraints.all fun k => (k context c).passes then none else some (lit "constraint_error")

section AskAll
variable {context : DecisionContext} {c : DecisionCandidate} {constraints : List Check}

theorem askAll_hangs (h : Closes context c refuses constraints = false) (broke : Bool) :
    askAll context c constraints broke = .error .other := by
  induction constraints generalizing broke with
  | nil => cases h
  | cons k constraints ih =>
    rw [askAll]
    cases hhangs : (k context c).hangs with
    | true =>
      rw [ask_hangs hhangs]
      rfl
    | false =>
      rw [ask_eq hhangs]
      simp only [Closes, hhangs, Bool.not_false, Bool.true_and, Bool.or_eq_false_iff] at h
      have hnone : (k context c).refusal = none := by simpa [refuses] using h.1
      cases (k context c).passes with
      | true => exact ih h.2 broke
      | false =>
        rw [hnone]
        exact ih h.2 true

theorem askAll_eq (h : Closes context c refuses constraints = true) (broke : Bool) :
    ∃ b, askAll context c constraints broke =
        .ok (constraints.findSome? fun k => (k context c).refusal, b) ∧
      ((constraints.findSome? fun k => (k context c).refusal) = none →
        b = (broke || !constraints.all fun k => (k context c).passes)) := by
  induction constraints generalizing broke with
  | nil => exact ⟨broke, rfl, by simp⟩
  | cons k constraints ih =>
    simp only [Closes, Bool.and_eq_true, Bool.not_eq_true'] at h
    rw [askAll, ask_eq h.1, List.findSome?_cons]
    cases hpasses : (k context c).passes with
    | true =>
      have hnone := refusal_of_passes hpasses
      have hrest : Closes context c refuses constraints = true := by
        simpa [refuses, hnone] using h.2
      obtain ⟨b, hb, hbroke⟩ := ih hrest broke
      rw [hnone]
      refine ⟨b, hb, fun hfind => ?_⟩
      rw [hbroke hfind, List.all_cons, hpasses, Bool.true_and]
    | false =>
      cases hrefusal : (k context c).refusal with
      | some reason => exact ⟨broke, rfl, fun hfind => by cases hfind⟩
      | none =>
        have hrest : Closes context c refuses constraints = true := by
          simpa [refuses, hrefusal] using h.2
        obtain ⟨b, hb, hbroke⟩ := ih hrest true
        refine ⟨b, hb, fun hfind => ?_⟩
        rw [hbroke hfind, List.all_cons, hpasses]
        simp

end AskAll

/-- The rejections that the constraints make, in the runtime's order. -/
def removals (context : DecisionContext) (constraints : List Check)
    (candidates : List DecisionCandidate) : List PyValue :=
  candidates.filterMap fun c =>
    (removal context constraints c).map fun reason => .rejection c.candidateID reason

/-- The candidates that every constraint lets through. -/
def cleared (context : DecisionContext) (constraints : List Check)
    (candidates : List DecisionCandidate) : List DecisionCandidate :=
  candidates.filter fun c => constraints.all fun k => (k context c).passes

theorem removal_eq_none {context : DecisionContext} {constraints : List Check}
    {c : DecisionCandidate} : removal context constraints c = none ↔
      (constraints.all fun k => (k context c).passes) = true := by
  unfold removal
  split
  · next reason hfind =>
      obtain ⟨k, hk, hrefusal⟩ := List.exists_of_findSome?_eq_some hfind
      constructor
      · intro hnone
        cases hnone
      · intro hall
        rw [refusal_of_passes (List.all_eq_true.mp hall k hk)] at hrefusal
        cases hrefusal
  · split
    · next hall => exact ⟨fun _ => hall, fun _ => rfl⟩
    · next hall => exact ⟨(fun hnone => by cases hnone), fun hall' => absurd hall' hall⟩

section Constrain
variable {context : DecisionContext} {constraints : List Check}

theorem constrain_hangs {candidates : List DecisionCandidate}
    (h : ¬∀ c ∈ candidates, Closes context c refuses constraints = true) :
    constrain context constraints candidates = .error .other := by
  induction candidates with
  | nil => exact absurd (fun c hc => by cases hc) h
  | cons c candidates ih =>
    rw [constrain]
    cases hcloses : Closes context c refuses constraints with
    | false =>
      rw [askAll_hangs hcloses]
      rfl
    | true =>
      obtain ⟨b, hb, -⟩ := askAll_eq hcloses false
      rw [hb, ih fun hrest => h (List.forall_mem_cons.mpr ⟨hcloses, hrest⟩)]
      rfl

theorem constrain_eq {candidates : List DecisionCandidate}
    (h : ∀ c ∈ candidates, Closes context c refuses constraints = true) :
    ∃ broke, constrain context constraints candidates =
      .ok (cleared context constraints candidates, removals context constraints candidates,
        broke) := by
  induction candidates with
  | nil => exact ⟨false, rfl⟩
  | cons c candidates ih =>
    rw [List.forall_mem_cons] at h
    obtain ⟨b, hb, hbroke⟩ := askAll_eq h.1 false
    obtain ⟨brokeAny, hrest⟩ := ih h.2
    rw [constrain, hb, hrest]
    cases hfind : constraints.findSome? fun k => (k context c).refusal with
    | some reason =>
      have hremoval : removal context constraints c = some reason := by rw [removal, hfind]
      have hnot : (constraints.all fun k => (k context c).passes) = false := by
        rw [Bool.eq_false_iff]
        intro hall
        rw [removal_eq_none.mpr hall] at hremoval
        cases hremoval
      refine ⟨brokeAny, ?_⟩
      simp [removals, cleared, hremoval, hnot, bind, Except.bind, pure, Except.pure]
    | none =>
      rw [hbroke hfind]
      cases hall : constraints.all fun k => (k context c).passes with
      | true =>
        have hremoval := removal_eq_none.mpr hall
        refine ⟨brokeAny, ?_⟩
        simp [removals, cleared, hremoval, hall, bind, Except.bind, pure, Except.pure]
      | false =>
        have hremoval : removal context constraints c = some (lit "constraint_error") := by
          rw [removal, hfind, hall]
          rfl
        refine ⟨true, ?_⟩
        simp [removals, cleared, hremoval, hall, bind, Except.bind, pure, Except.pure]

end Constrain

section Held
variable {context : DecisionContext} {c : DecisionCandidate} {gates : List Check}

theorem held_hangs (h : Closes context c holds gates = false) :
    held context c gates = .error .other := by
  induction gates with
  | nil => cases h
  | cons g gates ih =>
    rw [held]
    cases hhangs : (g context c).hangs with
    | true =>
      rw [ask_hangs hhangs]
      rfl
    | false =>
      rw [ask_eq hhangs]
      simp only [Closes, hhangs, Bool.not_false, Bool.true_and, Bool.or_eq_false_iff] at h
      have hpasses : (g context c).passes = true := by simpa [holds] using h.1
      rw [hpasses]
      exact ih h.2

/-- The gates let the candidate run, or the first that does not gives a reason code. -/
theorem held_eq (h : Closes context c holds gates = true) :
    ∃ reason, held context c gates = .ok reason ∧
      (reason = none ↔ (gates.all fun g => (g context c).passes) = true) ∧
      ∀ r, reason = some r → isReasonCode r = true := by
  induction gates with
  | nil => exact ⟨none, rfl, by simp, by simp⟩
  | cons g gates ih =>
    simp only [Closes, Bool.and_eq_true, Bool.not_eq_true'] at h
    rw [held, ask_eq h.1, List.all_cons]
    cases hpasses : (g context c).passes with
    | true =>
      have hrest : Closes context c holds gates = true := by
        simpa [holds, hpasses] using h.2
      obtain ⟨reason, hreason, hnone, hcode⟩ := ih hrest
      exact ⟨reason, hreason, by simpa using hnone, hcode⟩
    | false =>
      cases hrefusal : (g context c).refusal with
      | none =>
        refine ⟨some (lit "approval_gate_error"), rfl, by simp, fun r hr => ?_⟩
        cases hr
        decide
      | some reason =>
        refine ⟨some reason, rfl, by simp, fun r hr => ?_⟩
        cases hr
        unfold Answer.refusal at hrefusal
        split at hrefusal
        · split at hrefusal
          · next hcode =>
              cases hrefusal
              exact hcode
          · cases hrefusal
        · cases hrefusal

end Held
end Persatrix.Decision
