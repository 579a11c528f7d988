import Persatrix.DecisionChecks

/-!
# The pipeline fails closed

A pick that runs was let through by every constraint and every gate, and where the pipeline returns
everything else defers. It returns unless a coroutine raises as it is closed or the policy's outcome
holds values that the checks, or a constructor, break on.
-/
namespace Persatrix.Decision
variable {context : DecisionContext} {candidates : List DecisionCandidate}
  {constraints gates : List Check} {policy : Policy} {o : DecisionOutcome}

/-! ### The constructor -/

def ReasonOK (v : PyValue) : Prop := checkReason v = .ok ()

def ConfidenceOK (v : PyValue) : Prop := ∃ x, checkConfidence v = .ok x

theorem construct_ok {o' : DecisionOutcome} : construct o = .ok o' ↔
    ReasonOK o.reason ∧ ∃ x, checkConfidence o.confidence = .ok x ∧ o' = { o with confidence := x } := by
  unfold construct
  simp only [bind_eq_ok]
  constructor
  · rintro ⟨_, hreason, x, hx, hpure⟩
    cases hpure
    exact ⟨hreason, x, hx, rfl⟩
  · rintro ⟨hreason, x, hx, rfl⟩
    exact ⟨(), hreason, x, hx, rfl⟩

theorem reasonOK_code {s : Text} (h : isReasonCode s = true) : ReasonOK (.str s) := if_pos h

theorem isNone_checkConfidence {v x : PyValue} (h : checkConfidence v = .ok x) :
    x.isNone = v.isNone := by
  unfold checkConfidence at h
  split at h
  · cases h
    rfl
  · split at h
    · cases h
      rfl
    · cases h
  · split at h
    · cases h
      rfl
    · cases h
  · cases h

/-- What the constructor changes is in no other check. -/
theorem Settled.confidence {mode : PolicyMode} (h : Settled mode candidates o) {x : PyValue}
    (hx : checkConfidence o.confidence = .ok x) (rejected : PyValue) :
    Settled mode candidates { o with confidence := x, rejected } where
  unscored hmode := (isNone_checkConfidence hx).trans (h.unscored hmode)
  selected := h.selected
  acts := h.acts
  defers := h.defers
  truthful := h.truthful

theorem settled_deferral {mode : PolicyMode} {reason : Text} (hreason : isReasonCode reason = true)
    (rejected : PyValue) : Settled mode candidates (deferral reason rejected) := by
  have htrue : deferred (deferral reason rejected) = .ok true := by
    cases reason with
    | nil => cases hreason
    | cons c s => rfl
  exact ⟨fun _ => rfl, .inl rfl, ⟨rfl, rfl⟩, fun _ => htrue, true, htrue⟩

theorem construct_deferral {reason : Text} (hreason : isReasonCode reason = true)
    (rejected : PyValue) : construct (deferral reason rejected) = .ok (deferral reason rejected) :=
  construct_ok.mpr ⟨reasonOK_code hreason, .none, rfl, rfl⟩

/-! ### Iterations -/

/-- The attribute `candidate_id`, where it is a text. -/
def idText (v : PyValue) : Option Text :=
  match v.candidateID with
  | .ok id => id.text?
  | .error _ => none

theorem idTexts_of_ended (l : List PyValue) : idTexts (l, none) = l.mapM idText := by
  induction l with
  | nil => rfl
  | cons v l ih =>
    unfold idTexts candidateIDs at ih ⊢
    rw [List.mapM_cons, List.mapM_cons, ← ih, idText]
    cases v.candidateID with
    | error e => rfl
    | ok id =>
      cases l.mapM PyValue.candidateID with
      | error e =>
        change none = id.text?.bind fun _ => none
        cases id.text? <;> rfl
      | ok ids =>
        change (id :: ids).mapM PyValue.text? = _
        rw [List.mapM_cons]

theorem idTexts_of_error (l : List PyValue) (e : PyError) : idTexts (l, some e) = none := by
  unfold idTexts candidateIDs
  cases l.mapM PyValue.candidateID <;> rfl

theorem items_eq_ok {it : Iteration PyValue} {l : List PyValue} :
    items it = .ok l ↔ it = (l, none) := by
  obtain ⟨m, e⟩ := it
  cases e with
  | some e => simp [items]
  | none => simp [items]

theorem mapM_append_eq_some {l m : List PyValue} {ids : List Text} :
    (l ++ m).mapM idText = some ids ↔
      ∃ a b, l.mapM idText = some a ∧ m.mapM idText = some b ∧ a ++ b = ids := by
  rw [List.mapM_append]
  constructor
  · intro h
    obtain ⟨a, ha, h⟩ := Option.bind_eq_some_iff.mp h
    obtain ⟨b, hb, h⟩ := Option.bind_eq_some_iff.mp h
    exact ⟨a, b, ha, hb, Option.some.inj h⟩
  · rintro ⟨a, b, ha, hb, rfl⟩
    rw [ha, hb]
    rfl

/-! ### The candidates that are removed -/

def removedIDs (context : DecisionContext) (constraints : List Check)
    (candidates : List DecisionCandidate) : List Text :=
  (candidates.filter fun c => !constraints.all fun k => (k context c).passes).map
    DecisionCandidate.candidateID

theorem idText_removals : (removals context constraints candidates).mapM idText =
    some (removedIDs context constraints candidates) := by
  induction candidates with
  | nil => rfl
  | cons c candidates ih =>
    unfold removals removedIDs at ih ⊢
    rw [List.filterMap_cons, List.filter_cons]
    cases hall : constraints.all fun k => (k context c).passes with
    | true =>
      rw [removal_eq_none.mpr hall]
      exact ih
    | false =>
      cases hremoval : removal context constraints c with
      | none =>
        rw [removal_eq_none.mp hremoval] at hall
        cases hall
      | some reason =>
        simp only [Option.map_some, Bool.not_false, if_true, List.map_cons]
        rw [List.mapM_cons, ih]
        rfl

theorem mem_removedIDs {id : Text} (hids : (candidates.map DecisionCandidate.candidateID).Nodup)
    {c : DecisionCandidate} (hc : c ∈ candidates) (hid : c.candidateID = id) :
    id ∈ removedIDs context constraints candidates ↔ c ∉ cleared context constraints candidates := by
  subst hid
  constructor
  · intro hmem hclear
    obtain ⟨d, hd, hsame⟩ := List.mem_map.mp hmem
    obtain ⟨hd, hnot⟩ := List.mem_filter.mp hd
    rw [List.inj_on_of_nodup_map hids hd hc hsame, (List.mem_filter.mp hclear).2] at hnot
    cases hnot
  · intro hclear
    refine List.mem_map_of_mem (List.mem_filter.mpr ⟨hc, ?_⟩)
    rw [Bool.not_eq_true']
    rw [Bool.eq_false_iff]
    exact fun hall => hclear (List.mem_filter.mpr ⟨hc, hall⟩)

theorem nodup_removedIDs (hids : (candidates.map DecisionCandidate.candidateID).Nodup) :
    (removedIDs context constraints candidates).Nodup :=
  hids.sublist (List.filter_sublist.map _)

/-! ### The record -/

theorem classOf_cleared (hids : (candidates.map DecisionCandidate.candidateID).Nodup) {id : Text}
    {a : ActionClass} (h : classOf (cleared context constraints candidates) id = some a) :
    classOf candidates id = some a := by
  obtain ⟨c, hfind, rfl⟩ := Option.map_eq_some_iff.mp h
  have hid : c.candidateID = id := by simpa using List.find?_some hfind
  have hc : c ∈ candidates := List.mem_of_mem_filter (List.mem_of_find?_eq_some hfind)
  obtain ⟨d, hd⟩ : ∃ d, (candidates.find? fun c => c.candidateID = id) = some d := by
    rw [← Option.isSome_iff_exists, List.find?_isSome]
    exact ⟨c, hc, by simpa using hid⟩
  have hdid : d.candidateID = id := by simpa using List.find?_some hd
  have hsame : d = c := List.inj_on_of_nodup_map hids (List.mem_of_find?_eq_some hd) hc
    (hdid.trans hid.symm)
  rw [classOf, hd, hsame]
  rfl

theorem Settled.all {mode : PolicyMode} (hids : (candidates.map DecisionCandidate.candidateID).Nodup)
    (h : Settled mode (cleared context constraints candidates) o) : Settled mode candidates o where
  unscored := h.unscored
  selected := by
    rcases h.selected with hnone | ⟨id, hid, hclass⟩
    · exact .inl hnone
    · obtain ⟨a, ha, hisclass⟩ : ∃ a, classOf (cleared context constraints candidates) id = some a ∧
          isClass o.actionClass a = true := by
        cases hclassOf : classOf (cleared context constraints candidates) id with
        | none => simp [hclassOf] at hclass
        | some a => exact ⟨a, rfl, by simpa [hclassOf] using hclass⟩
      refine .inr ⟨id, hid, ?_⟩
      rw [classOf_cleared hids ha]
      exact hisclass
  acts := h.acts
  defers := h.defers
  truthful := h.truthful

/-- The removed candidates and the others that are rejected are different candidates. -/
theorem rejects_iff (hids : (candidates.map DecisionCandidate.candidateID).Nodup)
    {selectedID : PyValue} {rejected : List PyValue}
    (hselected : ∀ id, selectedID = .str id →
      ∃ c ∈ cleared context constraints candidates, c.candidateID = id) :
    Rejects candidates selectedID (removals context constraints candidates ++ rejected, none) ↔
      Rejects (cleared context constraints candidates) selectedID (rejected, none) := by
  constructor
  · rintro ⟨ids, htexts, hnodup, hmem, hnot⟩
    rw [idTexts_of_ended, mapM_append_eq_some] at htexts
    obtain ⟨a, b, ha, hb, rfl⟩ := htexts
    rw [idText_removals, Option.some.injEq] at ha
    subst ha
    refine ⟨b, by rw [idTexts_of_ended]; exact hb, hnodup.of_append_right, fun t ht => ?_,
      fun id hid ht => hnot id hid (List.mem_append_right _ ht)⟩
    obtain ⟨c, hc, hcid⟩ := List.mem_map.mp (hmem t (List.mem_append_right _ ht))
    have hclear : c ∈ cleared context constraints candidates := by
      by_contra hnotclear
      exact (List.disjoint_of_nodup_append hnodup) ((mem_removedIDs hids hc hcid).mpr hnotclear) ht
    exact List.mem_map.mpr ⟨c, hclear, hcid⟩
  · rintro ⟨ids, htexts, hnodup, hmem, hnot⟩
    rw [idTexts_of_ended] at htexts
    refine ⟨removedIDs context constraints candidates ++ ids, ?_, ?_, fun t ht => ?_, ?_⟩
    · rw [idTexts_of_ended, mapM_append_eq_some]
      exact ⟨_, _, idText_removals, htexts, rfl⟩
    · refine List.nodup_append.mpr ⟨nodup_removedIDs hids, hnodup, ?_⟩
      rintro t hremoved _ ht rfl
      obtain ⟨c, hc, hcid⟩ := List.mem_map.mp (hmem t ht)
      exact (mem_removedIDs hids (List.mem_of_mem_filter hc) hcid).mp hremoved hc
    · rcases List.mem_append.mp ht with ht | ht
      · exact (List.filter_sublist.map _).subset ht
      · exact (List.filter_sublist.map _).subset (hmem t ht)
    · intro id hid hin
      rcases List.mem_append.mp hin with hin | hin
      · obtain ⟨c, hc, hcid⟩ := hselected id hid
        exact (mem_removedIDs hids (List.mem_of_mem_filter hc) hcid).mp hin hc
      · exact hnot id hid hin

/-- The candidate that a settled outcome selects. -/
theorem Settled.candidate {mode : PolicyMode} (h : Settled mode candidates o) {id : Text}
    (hid : o.selectedID = .str id) :
    ∃ c, (candidates.find? fun c => c.candidateID = id) = some c ∧ c.candidateID = id ∧
      o.actionClass = .actionClass c.actionClass := by
  rcases h.selected with hnone | ⟨id', hid', hclass⟩
  · rw [hid] at hnone
    cases hnone
  · rw [hid] at hid'
    cases hid'
    unfold classOf at hclass
    cases hfind : candidates.find? fun c => c.candidateID = id with
    | none => simp [hfind] at hclass
    | some c =>
      refine ⟨c, rfl, by simpa using List.find?_some hfind, ?_⟩
      simp only [hfind, Option.map_some, Option.any_some] at hclass
      unfold isClass at hclass
      split at hclass
      · next b hb =>
          rw [hb, ← of_decide_eq_true hclass]
      · cases hclass

/-- When the record of a settled outcome is made, and what it is. -/
theorem finish_ok {recordID : Text} {recordedAt : ℚ} {r : DecisionRecord}
    (hids : (candidates.map DecisionCandidate.candidateID).Nodup)
    (h : Settled context.mode (cleared context constraints candidates) o) :
    finish context candidates (removals context constraints candidates) o recordID recordedAt
        = .ok r ↔
      ReasonOK o.reason ∧
        Rejects (cleared context constraints candidates) o.selectedID o.rejected.second ∧
        ∃ x, checkConfidence o.confidence = .ok x ∧ r = ⟨context, candidates,
          { o with
            confidence := x
            rejected := .tuple
              (removals context constraints candidates ++ o.rejected.second.1) },
          .action, none, recordID, recordedAt⟩ := by
  have hselected : ∀ id, o.selectedID = .str id →
      ∃ c ∈ cleared context constraints candidates, c.candidateID = id := fun id hid => by
    obtain ⟨c, hfind, hcid, -⟩ := h.candidate hid
    exact ⟨c, List.mem_of_find?_eq_some hfind, hcid⟩
  have hcandidates : checkCandidates candidates = .ok () := if_pos hids
  unfold finish
  simp only [bind_eq_ok, construct_ok, items_eq_ok]
  constructor
  · rintro ⟨rejected, hsecond, _, ⟨hreason, x, hx, rfl⟩, _, hcheck, hr⟩
    cases hr
    simp only [checkRecord, bind_eq_ok] at hcheck
    obtain ⟨_, -, hcheck⟩ := hcheck
    refine ⟨hreason, ?_, x, hx, by rw [hsecond]⟩
    rw [hsecond]
    exact (rejects_iff hids hselected).mp (checkOutcome_ok.mp hcheck).2
  · rintro ⟨hreason, hrejects, x, hx, rfl⟩
    obtain ⟨ids, htexts, hgood⟩ := hrejects
    have hended : o.rejected.second = (o.rejected.second.1, none) := by
      cases hsecond : o.rejected.second with
      | mk l e =>
        cases e with
        | none => rfl
        | some e =>
          rw [hsecond, idTexts_of_error] at htexts
          cases htexts
    refine ⟨_, hended, _, ⟨hreason, x, hx, rfl⟩, (), ?_, rfl⟩
    simp only [checkRecord, bind_eq_ok]
    refine ⟨(), hcandidates, checkOutcome_ok.mpr ⟨(h.all hids).confidence hx _, ?_⟩⟩
    refine (rejects_iff hids hselected).mpr ?_
    rw [← hended]
    exact ⟨ids, htexts, hgood⟩

end Persatrix.Decision

/-!
## What the pipeline settles on

The outcome that is settled on selects a candidate only if the policy picked it and every gate let
it run, and otherwise defers. When the pipeline returns is said of the policy's answer.
-/
namespace Persatrix.Decision
variable {context : DecisionContext} {candidates survivors : List DecisionCandidate}
  {constraints gates : List Check} {policy : Policy} {o o' : DecisionOutcome}

theorem isReasonCode_lits : isReasonCode (lit "no_candidate") = true ∧
    isReasonCode (lit "constraint_error") = true ∧
    isReasonCode (lit "no_permitted_candidate") = true ∧
    isReasonCode (lit "policy_error") = true ∧ isReasonCode proposalRemoved = true := by
  decide

theorem isReasonCode_emptied (broke : Bool) :
    isReasonCode (if broke then lit "constraint_error" else lit "no_permitted_candidate") = true := by
  cases broke with
  | true => exact isReasonCode_lits.2.1
  | false => exact isReasonCode_lits.2.2.1

/-- What the constructor keeps as a confidence it keeps again. -/
theorem checkConfidence_idem {v x : PyValue} (h : checkConfidence v = .ok x) :
    checkConfidence x = .ok x := by
  unfold checkConfidence at h
  split at h
  · cases h
    rfl
  · next n =>
      split at h
      · next hn =>
          cases h
          refine if_pos ?_
          exact_mod_cast hn
      · cases h
  · split at h
    · next hx =>
        cases h
        exact if_pos hx
    · cases h
  · cases h

theorem Settled.reason {mode : PolicyMode} (h : Settled mode candidates o) {reason : Text}
    (hreason : isReasonCode reason = true) :
    Settled mode candidates { o with reason := .str reason } where
  unscored := h.unscored
  selected := h.selected
  acts := h.acts
  defers hnone := by
    have hdefers := h.defers hnone
    unfold deferred at hdefers ⊢
    split
    · cases reason with
      | nil => cases hreason
      | cons c s => rfl
    · next hclass =>
        rw [if_neg hclass] at hdefers
        exact hdefers
  truthful := by
    unfold deferred
    split
    · exact ⟨_, rfl⟩
    · exact ⟨_, rfl⟩

/-! ### The policy's pick -/

theorem pick_settled (h : pick context survivors policy = .ok o) :
    Settled context.mode survivors o ∧
      (o = policyBroke ∨ policy context survivors = .outcome o) := by
  have hbroke : Settled context.mode survivors policyBroke :=
    settled_deferral isReasonCode_lits.2.2.2.1 _
  unfold pick at h
  cases hanswer : policy context survivors with
  | raises =>
    rw [hanswer] at h
    cases h
    exact ⟨hbroke, .inl rfl⟩
  | value =>
    rw [hanswer] at h
    cases h
    exact ⟨hbroke, .inl rfl⟩
  | coroutine closes =>
    rw [hanswer] at h
    cases closes with
    | true =>
      cases h
      exact ⟨hbroke, .inl rfl⟩
    | false => cases h
  | outcome picked =>
    simp only [hanswer] at h
    cases hcheck : checkOutcome context.mode survivors picked .action none with
    | ok _ =>
      rw [hcheck] at h
      cases h
      exact ⟨(checkOutcome_ok.mp hcheck).1, .inr rfl⟩
    | error e =>
      rw [hcheck] at h
      cases e with
      | valueError =>
        cases h
        exact ⟨hbroke, .inl rfl⟩
      | other => cases h

/-- Another label leaves the pick as it is. -/
theorem relabel_keeps {mode : PolicyMode} {proposal : Text} (hset : Settled mode survivors o)
    (h : relabel proposal o = .ok o') : Settled mode survivors o' ∧ o'.selectedID = o.selectedID ∧
      o'.actionClass = o.actionClass ∧ o'.rejected = o.rejected := by
  unfold relabel at h
  split at h
  · obtain ⟨-, x, hx, rfl⟩ := construct_ok.mp h
    exact ⟨(hset.reason isReasonCode_lits.2.2.2.2).confidence hx o.rejected, rfl, rfl, rfl⟩
  · cases h
    exact ⟨hset, rfl, rfl, rfl⟩

/-- What is left selected behind the gates was selected before them, and each let it run. -/
theorem gate_settled {mode : PolicyMode} (hset : Settled mode survivors o)
    (h : gate context survivors o gates = .ok o') : Settled mode survivors o' ∧
      ∀ id, o'.selectedID = .str id → o' = o ∧
        ∃ c, (survivors.find? fun c => c.candidateID = id) = some c ∧
          ∀ g ∈ gates, (g context c).passes = true := by
  unfold gate at h
  cases hsel : o.selectedID.text?.bind fun id => survivors.find? fun c => c.candidateID = id with
  | none =>
    rw [hsel] at h
    cases h
    refine ⟨hset, fun id hid => ?_⟩
    obtain ⟨c, hfind, -⟩ := hset.candidate hid
    rw [hid] at hsel
    rw [show PyValue.text? (.str id) = some id from rfl, Option.bind_some, hfind] at hsel
    cases hsel
  | some c =>
    simp only [hsel, bind_eq_ok] at h
    obtain ⟨reason, hheld, h⟩ := h
    have hcloses : Closes context c holds gates = true := by
      rw [← Bool.not_eq_false]
      intro hhangs
      rw [held_hangs hhangs] at hheld
      cases hheld
    obtain ⟨reason', hheld', hpass, hcode⟩ := held_eq hcloses
    rw [hheld] at hheld'
    cases hheld'
    cases reason with
    | none =>
      cases h
      refine ⟨hset, fun id hid => ⟨rfl, c, ?_, List.all_eq_true.mp (hpass.mp rfl)⟩⟩
      rw [hid] at hsel
      exact hsel
    | some reason =>
      simp only [bind_eq_ok] at h
      obtain ⟨rejected, -, h⟩ := h
      rw [construct_deferral (hcode reason rfl)] at h
      cases h
      exact ⟨settled_deferral (hcode reason rfl) _, fun id hid => by cases hid⟩

/-- What a selection is made of. -/
def PickedBy (context : DecisionContext) (survivors : List DecisionCandidate) (policy : Policy)
    (gates : List Check) (id : Text) : Prop :=
  ∃ c ∈ survivors, c.candidateID = id ∧ (∀ g ∈ gates, (g context c).passes = true) ∧
    ∃ o, policy context survivors = .outcome o ∧ o.selectedID = .str id ∧
      o.actionClass = .actionClass c.actionClass

theorem settle_settled {broke : Bool}
    (h : settle context candidates survivors broke policy gates = .ok o) :
    Settled context.mode survivors o ∧
      ∀ id, o.selectedID = .str id → PickedBy context survivors policy gates id := by
  unfold settle at h
  split at h
  · cases h
    exact ⟨settled_deferral isReasonCode_lits.1 _, fun id hid => by cases hid⟩
  · rw [construct_deferral (isReasonCode_emptied broke)] at h
    cases h
    exact ⟨settled_deferral (isReasonCode_emptied broke) _, fun id hid => by cases hid⟩
  · simp only [bind_eq_ok] at h
    obtain ⟨picked, hpick, labelled, hlabel, hgate⟩ := h
    obtain ⟨hset, hpolicy⟩ := pick_settled hpick
    obtain ⟨hset', hid', hclass', -⟩ := relabel_keeps hset hlabel
    obtain ⟨hfinal, hgates⟩ := gate_settled hset' hgate
    refine ⟨hfinal, fun id hid => ?_⟩
    obtain ⟨rfl, c, hfind, hpass⟩ := hgates id hid
    obtain ⟨d, hfind', hcid, hdclass⟩ := hset'.candidate hid
    rw [hfind] at hfind'
    cases hfind'
    refine ⟨c, List.mem_of_find?_eq_some hfind, hcid, hpass, picked, ?_, hid' ▸ hid,
      hclass' ▸ hdclass⟩
    rcases hpolicy with rfl | hpolicy
    · rw [hid'] at hid
      cases hid
    · exact hpolicy

end Persatrix.Decision
