import Persatrix.DecisionFailsClosed

/-!
# When the pipeline returns

An outcome that the checks accept may still hold values that later steps break on. `Usable` says
which do not, and `Answerable` what the callbacks may do: the pipeline then returns a record that
fails closed, and otherwise it raises.
-/
namespace Persatrix.Decision
variable {context : DecisionContext} {candidates survivors : List DecisionCandidate}
  {constraints gates : List Check} {policy : Policy} {o o' : DecisionOutcome}

/-! ### The last step -/

/-- The record of the outcome can be made. -/
structure Finishes (survivors : List DecisionCandidate) (o : DecisionOutcome) : Prop where
  reason : ReasonOK o.reason
  confidence : ConfidenceOK o.confidence
  rejected : Rejects survivors o.selectedID o.rejected.second

theorem rejects_nil : Rejects survivors .none ([], none) :=
  ⟨[], rfl, List.nodup_nil, (fun t ht => by cases ht), fun id hid => by cases hid⟩

theorem finishes_deferral {reason : Text} (hreason : isReasonCode reason = true) :
    Finishes survivors (deferral reason (.tuple [])) :=
  ⟨reasonOK_code hreason, ⟨.none, rfl⟩, rejects_nil⟩

/-- The candidate that a gate holds joins the rejections of the policy. -/
theorem rejects_held {c : DecisionCandidate} (hc : c ∈ survivors) {rejected : List PyValue}
    {reason : Text} :
    Rejects survivors .none (rejected ++ [.rejection c.candidateID reason], none) ↔
      Rejects survivors (.str c.candidateID) (rejected, none) := by
  have hlast : [PyValue.rejection c.candidateID reason].mapM idText = some [c.candidateID] := rfl
  constructor
  · rintro ⟨ids, htexts, hnodup, hmem, -⟩
    rw [idTexts_of_ended, mapM_append_eq_some] at htexts
    obtain ⟨a, b, ha, hb, rfl⟩ := htexts
    rw [hlast, Option.some.injEq] at hb
    subst hb
    refine ⟨a, by rw [idTexts_of_ended]; exact ha, hnodup.of_append_left,
      fun t ht => hmem t (List.mem_append_left _ ht), fun id hid hin => ?_⟩
    cases hid
    exact (List.disjoint_of_nodup_append hnodup) hin (List.mem_singleton_self _)
  · rintro ⟨ids, htexts, hnodup, hmem, hnot⟩
    rw [idTexts_of_ended] at htexts
    refine ⟨ids ++ [c.candidateID], ?_, ?_, fun t ht => ?_, fun id hid => by cases hid⟩
    · rw [idTexts_of_ended, mapM_append_eq_some]
      exact ⟨_, _, htexts, hlast, rfl⟩
    · refine List.nodup_append.mpr ⟨hnodup, List.nodup_singleton _, ?_⟩
      rintro t ht _ hlast rfl
      rw [List.mem_singleton.mp hlast] at ht
      exact hnot _ rfl ht
    · rcases List.mem_append.mp ht with ht | ht
      · exact hmem t ht
      · rw [List.mem_singleton.mp ht]
        exact List.mem_map_of_mem hc

/-! ### The gates -/

/-- The candidate that an outcome selects. -/
def chosen (survivors : List DecisionCandidate) (o : DecisionOutcome) : Option DecisionCandidate :=
  o.selectedID.text?.bind fun id => survivors.find? fun c => c.candidateID = id

/-- No gate holds what the outcome selects. -/
def passed (context : DecisionContext) (gates : List Check) (survivors : List DecisionCandidate)
    (o : DecisionOutcome) : Bool :=
  (chosen survivors o).all fun c => gates.all fun g => (g context c).passes

theorem chosen_eq_some {mode : PolicyMode} (hset : Settled mode survivors o)
    {c : DecisionCandidate} (h : chosen survivors o = some c) :
    c ∈ survivors ∧ o.selectedID = .str c.candidateID := by
  obtain ⟨id, hid, hfind⟩ := Option.bind_eq_some_iff.mp h
  have hcid : c.candidateID = id := by simpa using List.find?_some hfind
  refine ⟨List.mem_of_find?_eq_some hfind, ?_⟩
  rcases hset.selected with hnone | ⟨id', hid', -⟩
  · rw [hnone] at hid
    cases hid
  · rw [hid'] at hid ⊢
    cases hid
    rw [hcid]

theorem rejects_ended {selectedID : PyValue} {it : Iteration PyValue}
    (h : Rejects survivors selectedID it) : it = (it.1, none) := by
  obtain ⟨l, e⟩ := it
  cases e with
  | none => rfl
  | some e =>
    obtain ⟨ids, htexts, -⟩ := h
    rw [idTexts_of_error] at htexts
    cases htexts

theorem gate_returns {mode : PolicyMode} (hset : Settled mode survivors o) :
    (∃ o', gate context survivors o gates = .ok o' ∧ Finishes survivors o') ↔
      Rejects survivors o.selectedID o.rejected.second ∧
      (∀ c ∈ chosen survivors o, Closes context c holds gates = true) ∧
      (passed context gates survivors o = true → ReasonOK o.reason ∧ ConfidenceOK o.confidence) := by
  unfold gate passed
  rw [← chosen]
  cases hchosen : chosen survivors o with
  | none =>
    constructor
    · rintro ⟨o', h, hfin⟩
      cases h
      exact ⟨hfin.rejected, (fun c hc => by cases hc), fun _ => ⟨hfin.reason, hfin.confidence⟩⟩
    · rintro ⟨hrejects, -, hstands⟩
      exact ⟨o, rfl, (hstands rfl).1, (hstands rfl).2, hrejects⟩
  | some c =>
    obtain ⟨hc, hid⟩ := chosen_eq_some hset hchosen
    simp only [Option.mem_def, Option.some.injEq, forall_eq', Option.all_some]
    by_cases hcloses : Closes context c holds gates = true
    · obtain ⟨reason, hheld, hpass, hcode⟩ := held_eq hcloses
      rw [hheld]
      cases reason with
      | none =>
        have hall := hpass.mp rfl
        constructor
        · rintro ⟨o', h, hfin⟩
          cases h
          exact ⟨hfin.rejected, hcloses, fun _ => ⟨hfin.reason, hfin.confidence⟩⟩
        · rintro ⟨hrejects, -, hstands⟩
          exact ⟨o, rfl, (hstands hall).1, (hstands hall).2, hrejects⟩
      | some reason =>
        have hnot : ¬(gates.all fun g => (g context c).passes) = true := fun hall => by
          cases hpass.mpr hall
        have hcode := hcode reason rfl
        constructor
        · rintro ⟨o', h, hfin⟩
          obtain ⟨_, hreason, h⟩ := bind_eq_ok.mp h
          cases hreason
          obtain ⟨rejected, hsecond, h⟩ := bind_eq_ok.mp h
          rw [construct_deferral hcode] at h
          cases h
          refine ⟨?_, hcloses, fun hall => absurd hall hnot⟩
          rw [items_eq_ok.mp hsecond, hid]
          exact (rejects_held hc).mp hfin.rejected
        · rintro ⟨hrejects, -, -⟩
          have hended := rejects_ended hrejects
          refine ⟨_, bind_eq_ok.mpr ⟨_, rfl, bind_eq_ok.mpr
            ⟨_, items_eq_ok.mpr hended, construct_deferral hcode _⟩⟩, ?_⟩
          rw [hended, hid] at hrejects
          exact ⟨reasonOK_code hcode, ⟨.none, rfl⟩, (rejects_held hc).mpr hrejects⟩
    · rw [held_hangs (Bool.eq_false_iff.mpr hcloses)]
      constructor
      · rintro ⟨o', h, -⟩
        cases h
      · rintro ⟨-, hcloses', -⟩
        exact absurd hcloses' hcloses

/-! ### The policy's outcome -/

/-- No step behind the checks breaks on the values of the outcome. -/
structure Usable (context : DecisionContext) (proposal : Text)
    (survivors : List DecisionCandidate) (gates : List Check) (o : DecisionOutcome) : Prop where
  rejected : Rejects survivors o.selectedID o.rejected.second
  closes : ∀ c ∈ chosen survivors o, Closes context c holds gates = true
  labels : mislabelled proposal o = true → ConfidenceOK o.confidence
  stands : passed context gates survivors o = true →
    ConfidenceOK o.confidence ∧ (mislabelled proposal o = true ∨ ReasonOK o.reason)

theorem confidenceOK_iff {v x : PyValue} (h : checkConfidence v = .ok x) :
    ConfidenceOK x ↔ ConfidenceOK v :=
  ⟨fun _ => ⟨x, h⟩, fun _ => ⟨x, checkConfidence_idem h⟩⟩

theorem usable_iff {mode : PolicyMode} {proposal : Text} (hset : Settled mode survivors o) :
    (∃ o', (relabel proposal o >>= fun picked => gate context survivors picked gates) = .ok o' ∧
      Finishes survivors o') ↔ Usable context proposal survivors gates o := by
  unfold relabel
  cases hlabel : mislabelled proposal o with
  | false =>
    refine (gate_returns hset).trans ⟨?_, fun h => ⟨h.rejected, h.closes, fun hpass => ?_⟩⟩
    · rintro ⟨hrejects, hcloses, hstands⟩
      refine ⟨hrejects, hcloses, (by simp [hlabel]), fun hpass => ?_⟩
      exact ⟨(hstands hpass).2, .inr (hstands hpass).1⟩
    · obtain ⟨hconfidence, hreason⟩ := h.stands hpass
      rw [hlabel] at hreason
      exact ⟨hreason.resolve_left Bool.false_ne_true, hconfidence⟩
  | true =>
    have hcode := isReasonCode_lits.2.2.2.2
    constructor
    · rintro ⟨o', h, hfin⟩
      obtain ⟨picked, hpicked, h⟩ := bind_eq_ok.mp h
      obtain ⟨-, x, hx, rfl⟩ := construct_ok.mp hpicked
      have hset' := (hset.reason hcode).confidence hx o.rejected
      obtain ⟨hrejects, hcloses, -⟩ := (gate_returns hset').mp ⟨o', h, hfin⟩
      exact ⟨hrejects, hcloses, fun _ => ⟨x, hx⟩, fun _ => ⟨⟨x, hx⟩, .inl hlabel⟩⟩
    · intro h
      obtain ⟨x, hx⟩ := h.labels hlabel
      have hset' := (hset.reason hcode).confidence hx o.rejected
      have hstands : ReasonOK (.str proposalRemoved) ∧ ConfidenceOK x :=
        ⟨reasonOK_code hcode, (confidenceOK_iff hx).mpr ⟨x, hx⟩⟩
      obtain ⟨o', hgate, hfin⟩ := (gate_returns hset').mpr ⟨h.rejected, h.closes, fun _ => hstands⟩
      exact ⟨o', bind_eq_ok.mpr ⟨_, construct_ok.mpr ⟨hstands.1, x, hx, rfl⟩, hgate⟩, hfin⟩

/-- What a policy may answer. -/
def Answers (context : DecisionContext) (proposal : Text) (survivors : List DecisionCandidate)
    (gates : List Check) : PolicyAnswer → Prop
  | .raises => True
  | .value => True
  | .coroutine closes => closes = true
  | .outcome o =>
    checkOutcome context.mode survivors o .action none ≠ .error .other ∧
      (checkOutcome context.mode survivors o .action none = .ok () →
        Usable context proposal survivors gates o)

/-- What the callbacks may do. -/
structure Answerable (context : DecisionContext) (candidates : List DecisionCandidate)
    (policy : Policy) (constraints gates : List Check) : Prop where
  closes : ∀ c ∈ candidates, Closes context c refuses constraints = true
  answers : ∀ c ∈ candidates.head?, cleared context constraints candidates ≠ [] →
    Answers context c.candidateID (cleared context constraints candidates) gates
      (policy context (cleared context constraints candidates))

theorem pick_returns {proposal : Text} :
    (∃ o', (pick context survivors policy >>= fun picked =>
        relabel proposal picked >>= fun picked => gate context survivors picked gates) = .ok o' ∧
      Finishes survivors o') ↔ Answers context proposal survivors gates (policy context survivors) := by
  have hcode := isReasonCode_lits.2.2.2.1
  have hlabel : relabel proposal policyBroke = .ok policyBroke :=
    if_neg (by simp [mislabelled, policyBroke, deferral, PyValue.text?])
  have hbroke : ∃ o', (relabel proposal policyBroke >>= fun picked =>
      gate context survivors picked gates) = .ok o' ∧ Finishes survivors o' := by
    rw [hlabel]
    exact ⟨policyBroke, rfl, finishes_deferral hcode⟩
  unfold pick
  cases policy context survivors with
  | raises => exact ⟨fun _ => trivial, fun _ => hbroke⟩
  | value => exact ⟨fun _ => trivial, fun _ => hbroke⟩
  | coroutine closes =>
    cases closes with
    | true => exact ⟨fun _ => rfl, fun _ => hbroke⟩
    | false => exact ⟨(by rintro ⟨o', h, -⟩; cases h), fun h => by cases h⟩
  | outcome o =>
    simp only [Answers]
    cases hcheck : checkOutcome context.mode survivors o .action none with
    | ok _ =>
      refine (usable_iff (checkOutcome_ok.mp hcheck).1).trans ⟨fun h => ?_, fun h => h.2 rfl⟩
      exact ⟨(by simp), fun _ => h⟩
    | error e =>
      cases e with
      | valueError => exact ⟨fun _ => ⟨(by simp), (by simp)⟩, fun _ => hbroke⟩
      | other =>
        constructor
        · rintro ⟨o', h, -⟩
          cases h
        · intro h
          exact absurd rfl h.1

theorem settle_returns {broke : Bool} (h : survivors.Sublist candidates) :
    (∃ o', settle context candidates survivors broke policy gates = .ok o' ∧
      Finishes survivors o') ↔
      ∀ c ∈ candidates.head?, survivors ≠ [] →
        Answers context c.candidateID survivors gates (policy context survivors) := by
  cases candidates with
  | nil => exact ⟨(fun _ c hc => by cases hc),
      fun _ => ⟨_, rfl, finishes_deferral isReasonCode_lits.1⟩⟩
  | cons proposal candidates =>
    cases survivors with
    | nil =>
      have hcode := isReasonCode_emptied broke
      exact ⟨(fun _ c _ hne => absurd rfl hne),
        fun _ => ⟨_, construct_deferral hcode _, finishes_deferral hcode⟩⟩
    | cons c survivors =>
      refine pick_returns.trans ⟨fun h d hd _ => ?_, fun h => h proposal rfl (by simp)⟩
      cases hd
      exact h

section Decide
variable {recordID : Text} {recordedAt : ℚ}

theorem decide_eq {removed : List PyValue} {broke : Bool}
    (hids : (candidates.map DecisionCandidate.candidateID).Nodup)
    (hconstrain : constrain context constraints candidates = .ok (survivors, removed, broke)) :
    decide context candidates policy constraints gates recordID recordedAt =
      (settle context candidates survivors broke policy gates >>= fun outcome =>
        finish context candidates removed outcome recordID recordedAt) := by
  unfold decide
  rw [show checkCandidates candidates = .ok () from if_pos hids, hconstrain]
  rfl

theorem decide_hangs (hids : (candidates.map DecisionCandidate.candidateID).Nodup)
    (h : ¬∀ c ∈ candidates, Closes context c refuses constraints = true) :
    decide context candidates policy constraints gates recordID recordedAt = .error .other := by
  unfold decide
  rw [show checkCandidates candidates = .ok () from if_pos hids, constrain_hangs h]
  rfl

theorem decide_returns (hids : (candidates.map DecisionCandidate.candidateID).Nodup) :
    (∃ r, decide context candidates policy constraints gates recordID recordedAt = .ok r) ↔
      Answerable context candidates policy constraints gates := by
  by_cases hcloses : ∀ c ∈ candidates, Closes context c refuses constraints = true
  · obtain ⟨broke, hconstrain⟩ := constrain_eq hcloses
    have hsub : (cleared context constraints candidates).Sublist candidates := List.filter_sublist
    rw [decide_eq hids hconstrain]
    constructor
    · rintro ⟨r, h⟩
      obtain ⟨o', ho', hfinish⟩ := bind_eq_ok.mp h
      refine ⟨hcloses, (settle_returns hsub).mp ⟨o', ho', ?_⟩⟩
      obtain ⟨hreason, hrejects, x, hx, -⟩ := (finish_ok hids (settle_settled ho').1).mp hfinish
      exact ⟨hreason, ⟨x, hx⟩, hrejects⟩
    · intro h
      obtain ⟨o', ho', hfin⟩ := (settle_returns hsub).mpr h.answers
      obtain ⟨x, hx⟩ := hfin.confidence
      exact ⟨_, bind_eq_ok.mpr ⟨o', ho', (finish_ok hids (settle_settled ho').1).mpr
        ⟨hfin.reason, hfin.rejected, x, hx, rfl⟩⟩⟩
  · rw [decide_hangs hids hcloses]
    constructor
    · rintro ⟨r, h⟩
      cases h
    · intro h
      exact absurd h.closes hcloses

end Decide

/-! ### What is returned -/

/-- The record selects only what every callback let through, names the candidates that the
constraints removed, once each, and otherwise defers for a reason. -/
structure FailsClosed (context : DecisionContext) (candidates : List DecisionCandidate)
    (policy : Policy) (constraints gates : List Check) (r : DecisionRecord) : Prop where
  checked : checkRecord r = .ok ()
  settles : r.context = context ∧ r.candidates = candidates
  selects : ∀ id, r.outcome.selectedID = .str id →
    ∃ c ∈ candidates, c.candidateID = id ∧
      (∀ k ∈ constraints, (k context c).passes = true) ∧
      (∀ g ∈ gates, (g context c).passes = true) ∧
      r.outcome.actionClass = .actionClass c.actionClass ∧
      ∃ o, policy context (cleared context constraints candidates) = .outcome o ∧
        o.selectedID = .str id ∧ o.actionClass = .actionClass c.actionClass
  rejects : ∃ rest ids, r.outcome.rejected =
      .tuple (removals context constraints candidates ++ rest) ∧
    (removals context constraints candidates ++ rest).mapM idText = some ids ∧ ids.Nodup
  defers : (∀ id, r.outcome.selectedID ≠ .str id) → r.outcome.selectedID = .none ∧
    r.outcome.actionClass = .actionClass .defer ∧
    ∃ reason, r.outcome.reason = .str reason ∧ isReasonCode reason = true

/-- A reason that the constructor takes and that is true is a reason code. -/
theorem ReasonOK.code {v : PyValue} (h : ReasonOK v) (htruth : v.truth = .ok true) :
    ∃ reason, v = .str reason ∧ isReasonCode reason = true := by
  cases v with
  | none => cases htruth
  | str s =>
    refine ⟨s, rfl, ?_⟩
    by_contra hcode
    simp only [ReasonOK, checkReason, if_neg hcode] at h
    cases h
  | bool _ => cases h
  | int _ => cases h
  | float _ => cases h
  | actionClass _ => cases h
  | verdict _ => cases h
  | rejection _ _ => cases h
  | object _ _ _ _ _ => cases h

theorem isClass_iff {v : PyValue} {a : ActionClass} : isClass v a = true ↔ v = .actionClass a := by
  cases v <;> simp [isClass, eq_comm]

theorem Settled.deferral {mode : PolicyMode} (h : Settled mode candidates o)
    (hreason : ReasonOK o.reason) (hnone : o.selectedID = .none) :
    o.actionClass = .actionClass .defer ∧
      ∃ reason, o.reason = .str reason ∧ isReasonCode reason = true := by
  have hdefers := h.defers hnone
  unfold deferred at hdefers
  split at hdefers
  · next hclass => exact ⟨isClass_iff.mp hclass, hreason.code hdefers⟩
  · cases hdefers

theorem decide_failsClosed {recordID : Text} {recordedAt : ℚ} {r : DecisionRecord}
    (hids : (candidates.map DecisionCandidate.candidateID).Nodup)
    (h : decide context candidates policy constraints gates recordID recordedAt = .ok r) :
    FailsClosed context candidates policy constraints gates r := by
  have hcloses := ((decide_returns hids).mp ⟨r, h⟩).closes
  obtain ⟨broke, hconstrain⟩ := constrain_eq hcloses
  rw [decide_eq hids hconstrain] at h
  obtain ⟨o', ho', hfinish⟩ := bind_eq_ok.mp h
  obtain ⟨hset, hpicked⟩ := settle_settled ho'
  obtain ⟨hreason, hrejects, x, hx, rfl⟩ := (finish_ok hids hset).mp hfinish
  have hselected : ∀ id, o'.selectedID = .str id →
      ∃ c ∈ cleared context constraints candidates, c.candidateID = id := fun id hid => by
    obtain ⟨c, hc, hcid, -⟩ := hpicked id hid
    exact ⟨c, hc, hcid⟩
  rw [rejects_ended hrejects] at hrejects
  have hall := (rejects_iff hids hselected).mpr hrejects
  refine ⟨?_, ⟨rfl, rfl⟩, fun id hid => ?_, ?_, fun hnot => ?_⟩
  · refine bind_eq_ok.mpr ⟨(), if_pos hids, ?_⟩
    exact checkOutcome_ok.mpr ⟨(hset.all hids).confidence hx _, hall⟩
  · obtain ⟨c, hc, hcid, hgates, o, hpolicy, ho, hclass⟩ := hpicked id hid
    obtain ⟨hc, hpass⟩ := List.mem_filter.mp hc
    obtain ⟨d, hfind, hdid, hdclass⟩ := hset.candidate hid
    have hd : d ∈ candidates := List.mem_of_mem_filter (List.mem_of_find?_eq_some hfind)
    have hsame : d = c := List.inj_on_of_nodup_map hids hd hc (hdid.trans hcid.symm)
    subst hsame
    exact ⟨d, hd, hcid, List.all_eq_true.mp hpass, hgates, hdclass, o, hpolicy, ho, hclass⟩
  · obtain ⟨ids, htexts, hnodup, -⟩ := hall
    rw [idTexts_of_ended] at htexts
    exact ⟨o'.rejected.second.1, ids, rfl, htexts, hnodup⟩
  · have hnone : o'.selectedID = .none := by
      rcases hset.selected with hnone | ⟨id, hid, -⟩
      · exact hnone
      · exact absurd hid (hnot id)
    obtain ⟨hclass, hcode⟩ := hset.deferral hreason hnone
    exact ⟨hnone, hclass, hcode⟩

/-- The pipeline returns a record that fails closed exactly when its callbacks are answerable. -/
theorem decide_failsClosed_iff (context : DecisionContext) (candidates : List DecisionCandidate)
    (policy : Policy) (constraints gates : List Check) (recordID : Text) (recordedAt : ℚ)
    (hids : (candidates.map DecisionCandidate.candidateID).Nodup) :
    (∃ r, decide context candidates policy constraints gates recordID recordedAt = .ok r ∧
      FailsClosed context candidates policy constraints gates r) ↔
      Answerable context candidates policy constraints gates := by
  constructor
  · rintro ⟨r, h, -⟩
    exact (decide_returns hids).mp ⟨r, h⟩
  · intro h
    obtain ⟨r, hr⟩ := (decide_returns hids).mpr h
    exact ⟨r, hr, decide_failsClosed hids hr⟩

section Example

def replying : DecisionContext :=
  ⟨.preAct, lit "a", .manual, none, none, none, none, none, none, none, none⟩

def reply : DecisionCandidate where
  candidateID := lit "reply"
  actionClass := .respond
  action := lit "reply"
  toolName := none
  argumentNames := []
  target := none
  contentHash := none
  hash_ok := by simp

def picksReply (rejected : PyValue) : Policy := fun _ _ =>
  .outcome ⟨.actionClass .respond, .str (lit "reply"), .none, .none, rejected, .str [], .none⟩

/-- What is picked, and let through by a constraint and a gate, is selected. -/
theorem decide_failsClosed_iff_reply :
    ∃ r, decide replying [reply] (picksReply (.tuple [])) [fun _ _ => .value .none]
        [fun _ _ => .value .none] (lit "r") 0 = .ok r ∧
      FailsClosed replying [reply] (picksReply (.tuple [])) [fun _ _ => .value .none]
        [fun _ _ => .value .none] r := by
  have hids : ([reply].map DecisionCandidate.candidateID).Nodup := List.nodup_singleton _
  have hrejects : Rejects [reply] (.str (lit "reply")) ([], none) :=
    ⟨[], rfl, List.nodup_nil, (fun t ht => by cases ht), (fun id _ hin => by cases hin)⟩
  refine (decide_failsClosed_iff _ _ _ _ _ _ _ hids).mpr ⟨fun c _ => rfl, fun c hc _ => ?_⟩
  cases hc
  change _ ∧ _
  refine ⟨(fun h => by cases h), fun _ => ?_⟩
  exact ⟨hrejects, (fun d _ => rfl), (fun _ => ⟨.none, rfl⟩), fun _ => ⟨⟨.none, rfl⟩, .inr rfl⟩⟩

/-- An outcome whose rejections are `None` is raised on. -/
theorem decide_not_failsClosed : ¬∀ (context : DecisionContext)
    (candidates : List DecisionCandidate) (policy : Policy) (constraints gates : List Check)
    (recordID : Text) (recordedAt : ℚ), (candidates.map DecisionCandidate.candidateID).Nodup →
      ∃ r, decide context candidates policy constraints gates recordID recordedAt = .ok r ∧
        FailsClosed context candidates policy constraints gates r := by
  intro h
  obtain ⟨r, hr, -⟩ := h replying [reply] (picksReply .none) [] [] (lit "r") 0
    (List.nodup_singleton _)
  cases hr

end Example

end Persatrix.Decision
