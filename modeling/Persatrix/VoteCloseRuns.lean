import Persatrix.VoteClose
import Persatrix.InteractionRuns

/-!
# What the votes of a voter close

What a discharge closes was open when its park was made and belongs to the conversation that the vote
judged. A park closes records once, and under one id of a scope records are closed once, as long as no
vote on a conversation is published that was voted on before the one last voted on in its scope.
-/
namespace Persatrix.Interactions

def parkMade : VoteNote → Option PendingVoteClose
  | .parked p _ => some p
  | .discharged _ => none

/-- An outcome that has closed records. -/
def closing : VoteNote → Option Discharge
  | .parked _ _ => none
  | .discharged d => if d.closed = [] then none else some d

def parks (log : List VoteNote) : List PendingVoteClose := log.filterMap parkMade

def closings (log : List VoteNote) : List Discharge := log.filterMap closing

theorem closings_singleton (d : Discharge) :
    closings [.discharged d] = if d.closed = [] then [] else [d] := by
  by_cases h : d.closed = []
  · rw [if_pos h]
    exact List.filterMap_cons_none (if_pos h)
  · rw [if_neg h]
    exact List.filterMap_cons_some (if_neg h)

/-- The park is in the log, with the records that were open in its scope then. -/
structure ParkedWith (log : List VoteNote) (p : PendingVoteClose) (records : List Interaction) :
    Prop where
  noted : ∃ q, VoteNote.parked q records ∈ log ∧ q.token = p.token ∧ q.scope = p.scope
  scope : ∀ r ∈ records, r.scope = p.scope

/-- What an outcome has closed. -/
structure ClosesJudged (log : List VoteNote) (d : Discharge) : Prop where
  parked : ∃ records, ParkedWith log d.park records ∧
    ∀ r ∈ d.closed, r.interactionID ∈ records.map Interaction.interactionID
  scope : ∀ r ∈ d.closed, r.scope = d.park.scope
  live : ∀ r ∈ d.closed, r.replayed = false
  wire : ∀ r ∈ d.closed, r.wireInteractionID = "" ∨ r.wireInteractionID = d.anchor
  published : d.published = true
  ordinary : d.synthesisReply = false

theorem ParkedWith.append {log : List VoteNote} {p : PendingVoteClose} {records : List Interaction}
    (h : ParkedWith log p records) (notes : List VoteNote) :
    ParkedWith (log ++ notes) p records := by
  obtain ⟨q, hq, htoken, hscope⟩ := h.noted
  exact ⟨⟨q, List.mem_append_left _ hq, htoken, hscope⟩, h.scope⟩

theorem ClosesJudged.append {log : List VoteNote} {d : Discharge} (h : ClosesJudged log d)
    (notes : List VoteNote) : ClosesJudged (log ++ notes) d := by
  obtain ⟨records, hrecords, hclosed⟩ := h.parked
  exact ⟨⟨records, hrecords.append notes, hclosed⟩, h.scope, h.live, h.wire, h.published,
    h.ordinary⟩

/-- The parks and closings of a run so far. -/
structure Recorded (s : Voter) (log : List VoteNote) : Prop where
  covered : ∀ c p, s.pendingVoteCloses c = some p → p.siblingIDs ≠ [] ∧
    ∃ records, ParkedWith log p records ∧ p.siblingIDs = records.map Interaction.interactionID
  before : ∀ p ∈ parks log, p.token < s.nextToken
  parkTokens : ((parks log).map PendingVoteClose.token).Nodup
  spent : ∀ d ∈ closings log, d.park.token < s.nextToken ∧
    ∀ c p, s.pendingVoteCloses c = some p → p.token ≠ d.park.token
  tokens : ((closings log).map fun d => d.park.token).Nodup
  judged : ∀ d ∈ closings log, ClosesJudged log d

/-- A step that leaves at most parks that were there, and closes nothing. -/
theorem Recorded.shrink {s t : Voter} {log notes : List VoteNote} (h : Recorded s log)
    (hparks : parks notes = []) (hclosings : closings notes = [])
    (hnext : t.nextToken = s.nextToken)
    (hpending : ∀ c p, t.pendingVoteCloses c = some p → ∃ q, s.pendingVoteCloses c = some q ∧
      q.token = p.token ∧ q.scope = p.scope ∧ q.siblingIDs = p.siblingIDs) :
    Recorded t (log ++ notes) := by
  have hall : parks (log ++ notes) = parks log := by
    unfold parks at hparks ⊢
    rw [List.filterMap_append, hparks, List.append_nil]
  have hsame : closings (log ++ notes) = closings log := by
    unfold closings at hclosings ⊢
    rw [List.filterMap_append, hclosings, List.append_nil]
  constructor
  · intro c p hp
    obtain ⟨q, hq, htoken, hscope, hsiblings⟩ := hpending c p hp
    obtain ⟨hne, records, hrecords, hids⟩ := h.covered c q hq
    rw [hsiblings] at hne hids
    obtain ⟨⟨u, hu, hutoken, huscope⟩, hall⟩ := hrecords.append notes
    exact ⟨hne, records,
      ⟨⟨u, hu, hutoken.trans htoken, huscope.trans hscope⟩, fun r hr => (hall r hr).trans hscope⟩,
      hids⟩
  · rw [hall, hnext]
    exact h.before
  · rw [hall]
    exact h.parkTokens
  · rw [hsame, hnext]
    intro d hd
    refine ⟨(h.spent d hd).1, fun c p hp => ?_⟩
    obtain ⟨q, hq, htoken, -⟩ := hpending c p hp
    exact htoken ▸ (h.spent d hd).2 c q hq
  · rw [hsame]
    exact h.tokens
  · rw [hsame]
    exact fun d hd => (h.judged d hd).append notes

theorem Recorded.park {s : Voter} {log : List VoteNote} {tracker : Tracker} {channelID : String}
    {p : PendingVoteClose} (h : Recorded s log) (made : ParkMade s tracker p)
    (votes : List (String × ℕ)) :
    Recorded { s with
      tracker := tracker
      pendingVoteCloses := Function.update s.pendingVoteCloses channelID (some p)
      nextToken := s.nextToken + 1
      votes := votes } (log ++ [.parked p (tracker.recordsForScope p.scope)]) := by
  set notes : List VoteNote := [.parked p (tracker.recordsForScope p.scope)] with hnotes
  have hall : parks (log ++ notes) = parks log ++ [p] := List.filterMap_append
  have hsame : closings (log ++ notes) = closings log := by
    unfold closings
    rw [List.filterMap_append]
    exact List.append_nil _
  constructor
  · intro c q hq
    dsimp only at hq
    rcases eq_or_ne c channelID with rfl | hne
    · rw [Function.update_self] at hq
      cases hq
      refine ⟨made.nonempty, tracker.recordsForScope p.scope, ⟨⟨p, ?_, rfl, rfl⟩, ?_⟩,
        made.siblings⟩
      · exact List.mem_append_right _ (List.mem_singleton.mpr rfl)
      · exact fun r hr => of_decide_eq_true (List.mem_filter.mp hr).2
    · rw [Function.update_of_ne hne] at hq
      obtain ⟨hsiblings, records, hrecords, hids⟩ := h.covered c q hq
      exact ⟨hsiblings, records, hrecords.append notes, hids⟩
  · rw [hall]
    intro q hq
    rcases List.mem_append.mp hq with hold | hnew
    · exact (h.before q hold).trans (Nat.lt_succ_self _)
    · rw [List.mem_singleton.mp hnew, made.token]
      exact Nat.lt_succ_self _
  · rw [hall, List.map_append, List.nodup_append]
    refine ⟨h.parkTokens, List.nodup_singleton _, fun a ha b hb => ?_⟩
    obtain ⟨q, hq, rfl⟩ := List.mem_map.mp ha
    rw [List.mem_singleton.mp hb, made.token]
    exact (h.before q hq).ne
  · rw [hsame]
    intro d hd
    obtain ⟨hlt, hnone⟩ := h.spent d hd
    refine ⟨hlt.trans (Nat.lt_succ_self _), fun c q hq => ?_⟩
    dsimp only at hq
    rcases eq_or_ne c channelID with rfl | hne
    · rw [Function.update_self] at hq
      cases hq
      rw [made.token]
      exact hlt.ne'
    · rw [Function.update_of_ne hne] at hq
      exact hnone c q hq
  · rw [hsame]
    exact h.tokens
  · rw [hsame]
    exact fun d hd => (h.judged d hd).append notes

/-- The outcome of a vote takes the park away, and notes what it has closed. -/
theorem Recorded.discharge {s t : Voter} {log : List VoteNote} {channelID : String}
    {p : PendingVoteClose} {synthesisReply : Bool} {closed : List Interaction} (h : Recorded s log)
    (hcounts : Counts s) (found : s.pendingVoteCloses channelID = some p)
    (ordinary : closed ≠ [] → synthesisReply = false)
    (judged : ∀ r ∈ closed, Judged p (Voter.anchor s.tracker p) r)
    (hnext : t.nextToken = s.nextToken)
    (hpending : t.pendingVoteCloses = Function.update s.pendingVoteCloses channelID none) :
    Recorded t (log ++
      [.discharged ⟨true, synthesisReply, p, Voter.anchor s.tracker p, closed⟩]) := by
  set d : Discharge := ⟨true, synthesisReply, p, Voter.anchor s.tracker p, closed⟩ with hd
  by_cases hnil : closed = []
  · refine h.shrink rfl ?_ hnext fun c q hq => ?_
    · rw [closings_singleton]
      exact if_pos hnil
    · rw [hpending] at hq
      exact ⟨q, (update_none_eq_some hq).2, rfl, rfl, rfl⟩
  · have hall : parks (log ++ [.discharged d]) = parks log := by
      unfold parks
      rw [List.filterMap_append]
      exact List.append_nil _
    have hclosings : closings (log ++ [.discharged d]) = closings log ++ [d] := by
      have hsingle := closings_singleton d
      rw [if_neg hnil] at hsingle
      rw [← hsingle]
      exact List.filterMap_append
    have hgone : ∀ c q, t.pendingVoteCloses c = some q → q.token ≠ p.token := by
      intro c q hq
      rw [hpending] at hq
      obtain ⟨hne, hq⟩ := update_none_eq_some hq
      exact (hcounts.other found hne hq).2
    obtain ⟨hsiblings, records, hrecords, hids⟩ := h.covered channelID p found
    have hjudged : ClosesJudged (log ++ [.discharged d]) d := by
      refine ⟨⟨records, hrecords.append _, fun r hr => ?_⟩, fun r hr => (judged r hr).scope,
        fun r hr => (judged r hr).live, fun r hr => (judged r hr).wire, rfl, ordinary hnil⟩
      rcases (judged r hr).sibling with hnone | hmem
      · exact absurd hnone hsiblings
      · rwa [← hids]
    constructor
    · intro c q hq
      rw [hpending] at hq
      obtain ⟨hne, others, hothers, hotherIDs⟩ := h.covered c q (update_none_eq_some hq).2
      exact ⟨hne, others, hothers.append _, hotherIDs⟩
    · rw [hall, hnext]
      exact h.before
    · rw [hall]
      exact h.parkTokens
    · rw [hclosings, hnext]
      intro e he
      rcases List.mem_append.mp he with hold | hnew
      · refine ⟨(h.spent e hold).1, fun c q hq => ?_⟩
        rw [hpending] at hq
        exact (h.spent e hold).2 c q (update_none_eq_some hq).2
      · rw [List.mem_singleton.mp hnew]
        exact ⟨hcounts.pending channelID p found, hgone⟩
    · rw [hclosings, List.map_append, List.nodup_append]
      refine ⟨h.tokens, List.nodup_singleton _, fun a ha b hb => ?_⟩
      obtain ⟨e, he, rfl⟩ := List.mem_map.mp ha
      rw [List.mem_singleton.mp hb]
      exact ((h.spent e he).2 channelID p found).symm
    · rw [hclosings]
      intro e he
      rcases List.mem_append.mp he with hold | hnew
      · exact (h.judged e hold).append _
      · rw [List.mem_singleton.mp hnew]
        exact hjudged

theorem ordinary_of_closes {s : Voter} {p : PendingVoteClose} {synthesisReply : Bool}
    (h : s.closes p synthesisReply = true) : synthesisReply = false := by
  unfold Voter.closes at h
  simp only [Bool.and_eq_true, Bool.not_eq_true'] at h
  exact h.1.1

theorem recorded_step {s t : Voter} {e : VoterEvent} {log notes : List VoteNote}
    (hstep : VoterStep s e t notes) (hcounts : Counts s) (h : Recorded s log) :
    Recorded t (log ++ notes) := by
  cases hstep with
  | quiet _ tracker => exact h.shrink rfl rfl rfl fun c p hp => ⟨p, hp, rfl, rfl, rfl⟩
  | park _ tracker channelID p made => exact h.park made _
  | missed channelID token published synthesisReply sent missing =>
    exact h.shrink rfl rfl rfl fun c p hp => ⟨p, hp, rfl, rfl, rfl⟩
  | failed channelID p synthesisReply sent found =>
    refine h.shrink rfl rfl rfl fun c q hq => ?_
    unfold Voter.fail at hq
    dsimp only at hq
    rcases eq_or_ne c channelID with rfl | hne
    · rw [Function.update_self] at hq
      split_ifs at hq
      cases hq
      exact ⟨p, found, rfl, rfl, rfl⟩
    · rw [Function.update_of_ne hne] at hq
      exact ⟨q, hq, rfl, rfl, rfl⟩
  | published channelID p synthesisReply closed sent found closes judged =>
    exact h.discharge hcounts found (fun hne => ordinary_of_closes (closes hne)) judged rfl rfl

/-- What an outcome reports, it reports on a conversation that its scope was not voted on before, or
on the one last voted on there. -/
def CountedOnce (s : Voter) : VoterEvent → Prop
  | .outcome channelID token true _ =>
    ∀ p ∈ s.parkOf channelID token,
      (p.scope, Voter.anchor s.tracker p) ∈ s.counted →
        s.voteClosedWireIDs p.scope = some (Voter.anchor s.tracker p)
  | _ => True

instance : (s : Voter) → (e : VoterEvent) → Decidable (CountedOnce s e)
  | s, .outcome channelID token true _ =>
    inferInstanceAs (Decidable (∀ p ∈ s.parkOf channelID token,
      (p.scope, Voter.anchor s.tracker p) ∈ s.counted →
        s.voteClosedWireIDs p.scope = some (Voter.anchor s.tracker p)))
  | _, .outcome _ _ false _ => isTrue trivial
  | _, .event _ _ => isTrue trivial
  | _, .flush _ => isTrue trivial

/-- The conversations whose records an outcome has closed. -/
def closedConversations (log : List VoteNote) : List (String × String) :=
  ((closings log).filter fun d => d.anchor ≠ "").map fun d => (d.park.scope, d.anchor)

/-- Under one id of a scope records are closed once. -/
structure ClosedOnce (s : Voter) (log : List VoteNote) : Prop where
  counted : ∀ w ∈ closedConversations log, w ∈ s.counted
  once : (closedConversations log).Nodup

theorem closedConversations_append {log notes : List VoteNote} (h : closings notes = []) :
    closedConversations (log ++ notes) = closedConversations log := by
  unfold closedConversations
  unfold closings at h ⊢
  rw [List.filterMap_append, h, List.append_nil]

/-- An outcome that closes is on a conversation other than the one last voted on. -/
theorem not_last_of_closes {s : Voter} {p : PendingVoteClose} {synthesisReply : Bool}
    (h : s.closes p synthesisReply = true) (hanchor : Voter.anchor s.tracker p ≠ "") :
    s.voteClosedWireIDs p.scope ≠ some (Voter.anchor s.tracker p) := by
  unfold Voter.closes at h
  simp only [Bool.and_eq_true, Bool.not_eq_true', Bool.and_eq_false_iff,
    decide_eq_false_iff_not] at h
  rcases h.1.2 with hblank | hlast
  · exact absurd hanchor hblank
  · exact hlast

theorem closedOnce_step {s t : Voter} {e : VoterEvent} {log notes : List VoteNote}
    (hstep : VoterStep s e t notes) (honce : CountedOnce s e) (h : ClosedOnce s log) :
    ClosedOnce t (log ++ notes) := by
  have hquiet : closings notes = [] → t.counted = s.counted → ClosedOnce t (log ++ notes) := by
    intro hnone hcounted
    constructor
    · rw [closedConversations_append hnone, hcounted]
      exact h.counted
    · rw [closedConversations_append hnone]
      exact h.once
  cases hstep with
  | quiet _ tracker => exact hquiet rfl rfl
  | park _ tracker channelID p made => exact hquiet rfl rfl
  | missed channelID token published synthesisReply sent missing => exact hquiet rfl rfl
  | failed channelID p synthesisReply sent found => exact hquiet rfl rfl
  | published channelID p synthesisReply closed sent found closes judged =>
    set a := Voter.anchor s.tracker p with ha
    set d : Discharge := ⟨true, synthesisReply, p, a, closed⟩ with hd
    have hgrown : ∀ w ∈ s.counted, w ∈ (s.publish channelID p synthesisReply).counted := by
      intro w hw
      unfold Voter.publish
      dsimp only
      split_ifs
      · exact List.mem_cons_of_mem _ hw
      · exact hw
    have hkept : closedConversations [.discharged d] = [] →
        ClosedOnce { s.publish channelID p synthesisReply with
          votes := s.votes.erase (channelID, p.token) } (log ++ [.discharged d]) := by
      intro hnone
      have hsame : closedConversations (log ++ [.discharged d]) = closedConversations log := by
        unfold closedConversations closings at hnone ⊢
        rw [List.filterMap_append, List.filter_append, List.map_append, hnone, List.append_nil]
      constructor
      · rw [hsame]
        exact fun w hw => hgrown w (h.counted w hw)
      · rw [hsame]
        exact h.once
    by_cases hnil : closed = []
    · refine hkept ?_
      unfold closedConversations
      rw [closings_singleton, if_pos hnil]
      rfl
    by_cases hblank : a = ""
    · refine hkept ?_
      unfold closedConversations
      rw [closings_singleton, if_neg hnil, List.filter_cons_of_neg (by simpa using hblank)]
      rfl
    have hadded : closedConversations (log ++ [.discharged d]) =
        closedConversations log ++ [(p.scope, a)] := by
      have hsingle := closings_singleton d
      rw [if_neg hnil] at hsingle
      unfold closedConversations
      unfold closings at hsingle ⊢
      rw [List.filterMap_append, List.filter_append, List.map_append, hsingle,
        List.filter_cons_of_pos (by simpa using hblank)]
      rfl
    have hfresh : (p.scope, a) ∉ s.counted := by
      intro hmem
      have hpark : p ∈ s.parkOf channelID p.token :=
        Option.filter_eq_some_iff.mpr ⟨found, decide_eq_true rfl⟩
      exact not_last_of_closes (closes hnil) hblank (honce p hpark hmem)
    have hcounted : (s.publish channelID p synthesisReply).counted =
        (p.scope, a) :: s.counted := if_pos hblank
    constructor
    · rw [hadded]
      intro w hw
      rcases List.mem_append.mp hw with hold | hnew
      · exact hgrown w (h.counted w hold)
      · rw [List.mem_singleton.mp hnew]
        dsimp only
        rw [hcounted]
        exact List.mem_cons_self
    · rw [hadded, List.nodup_append]
      refine ⟨h.once, List.nodup_singleton _, fun w hw v hv => ?_⟩
      rw [List.mem_singleton.mp hv]
      exact fun heq => hfresh (heq ▸ h.counted w hw)

/-- A failure closes nothing, and takes a park away with its last vote. -/
structure FailsQuietly (s t : Voter) : Prop where
  tracker : t.tracker = s.tracker
  last : ∀ c p, s.pendingVoteCloses c = some p → t.pendingVoteCloses c = none →
    ∀ v ∈ t.votes, v.2 ≠ p.token

theorem failsQuietly_of_step {s t : Voter} {channelID : String} {token : ℕ}
    {synthesisReply : Bool} {notes : List VoteNote} (hcounts : Counts s)
    (hstep : VoterStep s (.outcome channelID token false synthesisReply) t notes)
    (htracker : t.tracker = s.tracker) : FailsQuietly s t := by
  refine ⟨htracker, fun c p hp hgone v hv hvp => ?_⟩
  have hkept : s.pendingVoteCloses c ≠ none := by
    rw [hp]
    exact Option.some_ne_none p
  cases hstep with
  | quiet _ tracker => exact hkept hgone
  | park _ tracker channel q made =>
    rcases eq_or_ne c channel with rfl | hne
    · dsimp only at hgone
      rw [Function.update_self] at hgone
      cases hgone
    · dsimp only at hgone
      rw [Function.update_of_ne hne] at hgone
      exact hkept hgone
  | missed _ _ _ _ sent missing => exact hkept hgone
  | failed _ q _ sent found =>
    unfold Voter.fail at hgone
    dsimp only at hgone hv
    rcases eq_or_ne c channelID with rfl | hne
    · rw [Function.update_self] at hgone
      cases hp.symm.trans found
      split_ifs at hgone with hmore
      have hcount := hcounts.inFlight c p hp
      have hhome : v = (c, p.token) :=
        Prod.ext (hcounts.home v (List.mem_of_mem_erase hv) c p hp hvp) hvp
      rw [hhome] at hv
      have hleft : 0 < (s.votes.erase (c, p.token)).count (c, p.token) :=
        List.count_pos_iff.mpr hv
      rw [List.count_erase_self] at hleft
      omega
    · rw [Function.update_of_ne hne] at hgone
      exact hkept hgone

theorem tracker_of_failure {cfg : Config} {s t : Voter} {channelID : String} {token : ℕ}
    {synthesisReply : Bool}
    (h : (voteSystem cfg).step s (.outcome channelID token false synthesisReply) = some t) :
    t.tracker = s.tracker := by
  unfold voteSystem Voter.step at h
  dsimp only at h
  split_ifs at h
  cases h
  unfold Voter.discharge
  dsimp only
  split
  · rfl
  · rw [if_neg Bool.false_ne_true]
    rfl

/-- What the closes of a voter are to the votes that were counted. -/
structure VotesMatch (cfg : Config) (s : Voter) (log : List VoteNote) : Prop where
  judged : ∀ d ∈ closings log, ClosesJudged log d
  parkTokens : ((parks log).map PendingVoteClose.token).Nodup
  tokens : ((closings log).map fun d => d.park.token).Nodup
  once : (closedConversations log).Nodup
  failed : ∀ channelID token synthesisReply t,
    (voteSystem cfg).step s (.outcome channelID token false synthesisReply) = some t →
      FailsQuietly s t

theorem counts_init : Counts {} :=
  ⟨nofun, nofun, nofun, nofun, nofun⟩

theorem recorded_init : Recorded {} [] :=
  ⟨nofun, nofun, List.nodup_nil, nofun, List.nodup_nil, nofun⟩

theorem closedOnce_init : ClosedOnce {} [] := ⟨nofun, List.nodup_nil⟩

/-- A step of a run with its notes. -/
theorem voterStep_of_logged {cfg : Config} {q r : Voter × List VoteNote} {e : VoterEvent}
    (h : ((voteSystem cfg).logged (voteNotes cfg)).step q e = some r) :
    ∃ notes, VoterStep q.1 e r.1 notes ∧ r.2 = q.2 ++ notes := by
  obtain ⟨hstep, hlog⟩ := System.logged_step h
  exact ⟨_, voterStep_of_step hstep, hlog⟩

theorem counts_of_reaches {cfg : Config} {C : Voter × List VoteNote → VoterEvent → Prop}
    {q : Voter × List VoteNote} (h : ((voteSystem cfg).logged (voteNotes cfg)).Reaches C q) :
    Counts q.1 := by
  refine h.invariant (I := fun q => Counts q.1) counts_init fun q e r hcounts _ hstep => ?_
  obtain ⟨notes, hvoter, -⟩ := voterStep_of_logged hstep
  exact counts_step hvoter hcounts

theorem recorded_of_reaches {cfg : Config} {C : Voter × List VoteNote → VoterEvent → Prop}
    {q : Voter × List VoteNote} (h : ((voteSystem cfg).logged (voteNotes cfg)).Reaches C q) :
    Recorded q.1 q.2 := by
  induction h with
  | init => exact recorded_init
  | step hreached _ hstep ih =>
    obtain ⟨notes, hvoter, hlog⟩ := voterStep_of_logged hstep
    rw [hlog]
    exact recorded_step hvoter (counts_of_reaches hreached) ih

theorem votes_match_counted (cfg : Config) {q : Voter × List VoteNote}
    (h : ((voteSystem cfg).logged (voteNotes cfg)).Reaches (fun q e => CountedOnce q.1 e) q) :
    VotesMatch cfg q.1 q.2 := by
  have hcounts := counts_of_reaches h
  have hrecorded := recorded_of_reaches h
  have honce : ClosedOnce q.1 q.2 := by
    refine h.invariant (I := fun q => ClosedOnce q.1 q.2) closedOnce_init
      fun q e r hclosed hcounted hstep => ?_
    obtain ⟨notes, hvoter, hlog⟩ := voterStep_of_logged hstep
    rw [hlog]
    exact closedOnce_step hvoter hcounted hclosed
  refine ⟨hrecorded.judged, hrecorded.parkTokens, hrecorded.tokens, honce.once, ?_⟩
  intro channelID token synthesisReply t hstep
  exact failsQuietly_of_step hcounts (voterStep_of_step hstep) (tracker_of_failure hstep)

/-- The agent answers a message of a conversation with a vote to end it, which is published. -/
def votedRound (wireID previousID : String) (token : ℕ) : List VoterEvent :=
  [.event (roomMessage "ada" false wireID previousID) [⟨true, "group:planning"⟩],
    .outcome "group:planning" token true false]

/-- Two conversations in turn, each closed by the vote of the agent. -/
theorem votes_match_two_rounds :
    ∃ q : Voter × List VoteNote, (closedConversations q.2).length = 2 ∧
      VotesMatch roomConfig q.1 q.2 := by
  obtain ⟨q, hexec, hlength⟩ : ∃ q,
      (((voteSystem roomConfig).logged (voteNotes roomConfig)).guarded
        fun q e => CountedOnce q.1 e).exec
          (votedRound "w1" "" 0 ++ votedRound "w2" "w1" 1) = some q ∧
        (closedConversations q.2).length = 2 := System.exists_of_exec (by decide)
  exact ⟨q, hlength, votes_match_counted roomConfig
    (System.reachable_exec hexec).of_guarded⟩

/-- A message of the first conversation comes late, and its vote closes records under the id of the
first conversation again. -/
theorem votes_close_twice :
    ¬ ∀ (cfg : Config) (q : Voter × List VoteNote),
      ((voteSystem cfg).logged (voteNotes cfg)).Reachable q → VotesMatch cfg q.1 q.2 := by
  intro h
  obtain ⟨q, hexec, htwice⟩ : ∃ q,
      ((voteSystem roomConfig).logged (voteNotes roomConfig)).exec
        (votedRound "w1" "" 0 ++ votedRound "w2" "w1" 1 ++ votedRound "w1" "" 2) = some q ∧
        ¬ (closedConversations q.2).Nodup := System.exists_of_exec (by decide)
  exact htwice (h roomConfig q (System.reachable_exec hexec)).once

end Persatrix.Interactions
