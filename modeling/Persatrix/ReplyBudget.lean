import Persatrix.EndVote
import Persatrix.EndVoteQuorum
import Mathlib.Tactic.Ring

/-!
# The reply budget and its composition with end votes

What `replyBudgetMu` guards, the gate that runs before a publish is stored, and a commit
through both layers: the gate, the store, the end-vote hook. The store may refuse a
publish, and then the reserved slot is released. Votes do not pass the gate.
-/
namespace Persatrix.Channels

def exemptPrincipalParticipantType (principal : String) : Option String :=
  if principal = "human" then some "user" else none

structure ReplyBudgetLayer where
  replyBudgets : GoMap String ℤ := ∅
  replyCounts : GoMap String (GoMap String ℤ) := ∅
  exemptParticipantTypes : GoMap String Unit := ∅

/-- `ErrParticipantBudgetExhausted` with what its text names. -/
structure BudgetExhausted where
  participant : String
  replies : ℤ
  interactionID : String
deriving DecidableEq

namespace ReplyBudgetLayer

def setReplyBudget (l : ReplyBudgetLayer) (channelID : String) (k : ℤ) : ReplyBudgetLayer :=
  { l with replyBudgets := l.replyBudgets.insert channelID (if k < 0 then 0 else k) }

def replyBudgetFor (l : ReplyBudgetLayer) (channelID : String) : ℤ :=
  (l.replyBudgets.lookup channelID).getD 0

def setExemptPrincipals (l : ReplyBudgetLayer) (principals : List String) : ReplyBudgetLayer :=
  { l with
    exemptParticipantTypes :=
      (principals.filterMap exemptPrincipalParticipantType).foldl
        (fun set pt => set.insert pt ()) ∅ }

def isExemptParticipantType (l : ReplyBudgetLayer) (participantType : String) : Bool :=
  if participantType = "" then false
  else (l.exemptParticipantTypes.lookup participantType).isSome

/-- The replies counted for a participant in an interaction. -/
def counted (l : ReplyBudgetLayer) (interactionID senderID : String) : ℤ :=
  (((l.replyCounts.lookup interactionID).getD ∅).lookup senderID).getD 0

def reserve (l : ReplyBudgetLayer) (interactionID senderID : String) : ReplyBudgetLayer :=
  let counts := (l.replyCounts.lookup interactionID).getD ∅
  let counts := counts.insert senderID (l.counted interactionID senderID + 1)
  { l with replyCounts := l.replyCounts.insert interactionID counts }

/-- On admission, the layer and whether a slot was reserved. -/
def enforceReplyBudget (l : ReplyBudgetLayer) (msg : ChannelMessage) :
    Except BudgetExhausted (ReplyBudgetLayer × Bool) :=
  let interactionID := msg.interactionID
  if interactionID = "" then .ok (l, false)
  else if msg.isVote then .ok (l, false)
  else
    let k := l.replyBudgetFor msg.channelID
    if k ≤ 0 ∨ l.isExemptParticipantType (readParticipantType msg.metadata) then .ok (l, false)
    else if k ≤ l.counted interactionID msg.senderID then
      .error ⟨msg.senderID, k, interactionID⟩
    else .ok (l.reserve interactionID msg.senderID, true)

def releaseReplyReservation (l : ReplyBudgetLayer) (interactionID sender : String) :
    ReplyBudgetLayer :=
  match l.replyCounts.lookup interactionID with
  | none => l
  | some counts =>
    let held := (counts.lookup sender).getD 0
    if held = 0 then l
    else
      let counts := if held - 1 = 0 then counts.erase sender else counts.insert sender (held - 1)
      { l with
        replyCounts :=
          if counts.keys.length = 0 then l.replyCounts.erase interactionID
          else l.replyCounts.insert interactionID counts }

def discardInteractionReplyBudget (l : ReplyBudgetLayer) (interactionID : String) :
    ReplyBudgetLayer :=
  if interactionID = "" then l else { l with replyCounts := l.replyCounts.erase interactionID }

/-- The gate and the store; `stored` says whether the store takes the message. The `Bool`
of the result says whether it is in the history of the channel. -/
def publishWithReplyBudget (l : ReplyBudgetLayer) (msg : ChannelMessage) (stored : Bool) :
    ReplyBudgetLayer × Bool :=
  match l.enforceReplyBudget msg with
  | .error _ => (l, false)
  | .ok (l, reserved) =>
    if stored then (l, true)
    else (if reserved then l.releaseReplyReservation msg.interactionID msg.senderID else l, false)

end ReplyBudgetLayer

structure Governance where
  votes : EndVoteLayer := {}
  replies : ReplyBudgetLayer := {}

inductive CommitOutcome where
  | rejected
  | closed
  | suppressed
  | fannedOut
deriving DecidableEq

namespace Governance

/-- The two layers of a commit. A late publish has its reply counter dropped again. -/
def commit (g : Governance) (autonomous : Bool) (msg : ChannelMessage) (stored : Bool) :
    Governance × CommitOutcome :=
  let (replies, persisted) := g.replies.publishWithReplyBudget msg stored
  let g := { g with replies := replies }
  if persisted then
    let (votes, outcome) := g.votes.processEndVoteLocked msg
    let g := { g with votes := votes }
    if outcome.closes then
      ({ g with replies := g.replies.discardInteractionReplyBudget msg.interactionID }, .closed)
    else if outcome = .postClose then
      ({ g with replies := g.replies.discardInteractionReplyBudget msg.interactionID },
        .suppressed)
    else if outcome.suppresses autonomous then (g, .suppressed)
    else (g, .fannedOut)
  else (g, .rejected)

/-- A run of publishes, each with the answer of the store. -/
def run (g : Governance) (autonomous : Bool) :
    List (ChannelMessage × Bool) → Governance × List CommitOutcome
  | [] => (g, [])
  | (msg, stored) :: rest =>
    let (g, outcome) := g.commit autonomous msg stored
    let (g, outcomes) := g.run autonomous rest
    (g, outcome :: outcomes)

end Governance
end Persatrix.Channels

/-!
## How often a participant is fanned out

The replies of a participant are counted against the budget, and a vote is fanned out
unless it repeats a live one. Two votes of a participant that are both fanned out are at
least a window apart, so the length of the history bounds how many there are.
-/
namespace Persatrix.Channels

/-- The votes of a participant that do not repeat a live one. -/
def freshVotes (w : ℤ) (sender : String) : History → ℕ
  | [] => 0
  | (s, vote) :: older =>
    freshVotes w sender older +
      if vote ∧ s = sender ∧ repeatsLive w ((s, vote) :: older) = false then 1 else 0

theorem freshVotes_of_sinceVote {w : ℤ} (sender : String) (h : History) :
    match sinceVote sender h with
    | none => freshVotes w sender h = 0
    | some d => ((freshVotes w sender h : ℤ) - 1) * w ≤ h.length - 1 - d := by
  induction h with
  | nil => rfl
  | cons p older ih =>
    obtain ⟨s, vote⟩ := p
    by_cases hvote : vote = true ∧ s = sender
    · obtain ⟨rfl, rfl⟩ := hvote
      rw [sinceVote_vote]
      cases hsince : sinceVote s older with
      | none =>
        rw [hsince] at ih
        have hfresh : freshVotes w s ((s, true) :: older) = 1 := by
          simp [freshVotes, repeatsLive, hsince, ih]
        rw [hfresh]
        simp
      | some d =>
        rw [hsince] at ih
        dsimp only at ih ⊢
        by_cases hlive : (d : ℤ) + 1 < w
        · have hsame : freshVotes w s ((s, true) :: older) = freshVotes w s older := by
            simp [freshVotes, repeatsLive, hsince, hlive]
          rw [hsame, List.length_cons]
          push_cast
          omega
        · have hmore : freshVotes w s ((s, true) :: older) = freshVotes w s older + 1 := by
            simp [freshVotes, repeatsLive, hsince, hlive]
          rw [hmore, List.length_cons]
          push_cast
          have hsplit : ((freshVotes w s older : ℤ) + 1 - 1) * w =
              ((freshVotes w s older : ℤ) - 1) * w + w := by ring
          rw [hsplit]
          omega
    · have hsame : freshVotes w sender ((s, vote) :: older) = freshVotes w sender older := by
        rw [freshVotes, if_neg (fun hc => hvote ⟨hc.1, hc.2.1⟩), Nat.add_zero]
      rw [sinceVote_other older hvote, hsame]
      cases hsince : sinceVote sender older with
      | none =>
        rw [hsince] at ih
        exact ih
      | some d =>
        rw [hsince] at ih
        dsimp only [Option.map_some] at ih ⊢
        rw [List.length_cons]
        push_cast
        omega

theorem freshVotes_le {w : ℤ} (hw : 0 < w) (sender : String) {h : History} (hne : h ≠ []) :
    (freshVotes w sender h : ℤ) ≤ 1 + ((h.length : ℤ) - 1) / w := by
  have hpos : 0 < h.length := List.length_pos_iff.mpr hne
  have hnonneg : 0 ≤ ((h.length : ℤ) - 1) / w := Int.ediv_nonneg (by omega) (Int.le_of_lt hw)
  have hspread := freshVotes_of_sinceVote (w := w) sender h
  cases hsince : sinceVote sender h with
  | none =>
    rw [hsince] at hspread
    dsimp only at hspread
    rw [hspread]
    push_cast
    omega
  | some d =>
    rw [hsince] at hspread
    dsimp only at hspread
    have hle : (freshVotes w sender h : ℤ) - 1 ≤ ((h.length : ℤ) - 1) / w := by
      apply (Int.le_ediv_iff_mul_le hw).mpr
      omega
    omega

namespace ReplyBudgetLayer
variable (l : ReplyBudgetLayer) (interactionID sender : String)

theorem counted_insert (counts : GoMap String ℤ) (id' sender' : String) :
    ({ l with replyCounts := l.replyCounts.insert interactionID counts } :
        ReplyBudgetLayer).counted id' sender' =
      if id' = interactionID then (counts.lookup sender').getD 0 else l.counted id' sender' := by
  unfold counted
  rw [GoMap.lookup_insert]
  split_ifs <;> rfl

theorem counted_erase (id' sender' : String) :
    ({ l with replyCounts := l.replyCounts.erase interactionID } :
        ReplyBudgetLayer).counted id' sender' =
      if id' = interactionID then 0 else l.counted id' sender' := by
  unfold counted
  rw [GoMap.lookup_erase]
  split_ifs <;> rfl

/-- A released slot is given back to its sender only. -/
theorem counted_release (sender' : String) :
    (l.releaseReplyReservation interactionID sender).counted interactionID sender' =
      if sender' = sender ∧ l.counted interactionID sender ≠ 0
        then l.counted interactionID sender - 1 else l.counted interactionID sender' := by
  unfold releaseReplyReservation
  cases hcounts : l.replyCounts.lookup interactionID with
  | none =>
    have hzero : l.counted interactionID sender = 0 := by
      unfold counted
      rw [hcounts]
      rfl
    rw [if_neg (fun hc => hc.2 hzero)]
  | some counts =>
    have hlookup : ∀ s, l.counted interactionID s = (counts.lookup s).getD 0 := by
      intro s
      unfold counted
      rw [hcounts]
      rfl
    dsimp only
    rw [← hlookup sender]
    by_cases hheld : l.counted interactionID sender = 0
    · rw [if_pos hheld, if_neg (fun hc => hc.2 hheld)]
    · rw [if_neg hheld]
      have hkept : ∀ s, (((if l.counted interactionID sender - 1 = 0 then counts.erase sender
          else counts.insert sender (l.counted interactionID sender - 1)) :
          GoMap String ℤ).lookup s).getD 0 =
          if s = sender ∧ l.counted interactionID sender ≠ 0
            then l.counted interactionID sender - 1 else l.counted interactionID s := by
        intro s
        rw [hlookup s]
        by_cases hlast : l.counted interactionID sender - 1 = 0
        · rw [if_pos hlast, GoMap.lookup_erase]
          by_cases hs : s = sender
          · rw [if_pos hs, if_pos ⟨hs, hheld⟩, hlast]
            rfl
          · rw [if_neg hs, if_neg (fun hc => hs hc.1)]
        · rw [if_neg hlast, GoMap.lookup_insert]
          by_cases hs : s = sender
          · rw [if_pos hs, if_pos ⟨hs, hheld⟩]
            rfl
          · rw [if_neg hs, if_neg (fun hc => hs hc.1)]
      generalize hnext : (if l.counted interactionID sender - 1 = 0 then counts.erase sender
          else counts.insert sender (l.counted interactionID sender - 1)) = next at hkept ⊢
      rw [← hkept sender']
      by_cases hempty : next.keys.length = 0
      · have hnone : next.lookup sender' = none := by
          apply AList.lookup_eq_none.mpr
          rw [AList.mem_keys, List.length_eq_zero_iff.mp hempty]
          exact List.not_mem_nil
        rw [if_pos hempty, hnone]
        exact (l.counted_erase interactionID interactionID sender').trans (if_pos rfl)
      · rw [if_neg hempty]
        exact (l.counted_insert interactionID next interactionID sender').trans (if_pos rfl)

theorem counted_reserve (sender' : String) :
    (l.reserve interactionID sender).counted interactionID sender' =
      l.counted interactionID sender' + if sender' = sender then 1 else 0 := by
  unfold reserve
  dsimp only
  rw [counted_insert, if_pos rfl, GoMap.lookup_insert]
  split_ifs with hs
  · rw [hs]
    rfl
  · rw [add_zero]
    rfl

/-- A slot that is reserved and released leaves every counter as it was. -/
theorem counted_release_reserve (hnonneg : 0 ≤ l.counted interactionID sender)
    (sender' : String) :
    ((l.reserve interactionID sender).releaseReplyReservation interactionID sender).counted
        interactionID sender' = l.counted interactionID sender' := by
  rw [counted_release]
  have hheld : (l.reserve interactionID sender).counted interactionID sender =
      l.counted interactionID sender + 1 := by rw [counted_reserve, if_pos rfl]
  rw [hheld]
  by_cases hs : sender' = sender
  · rw [if_pos ⟨hs, by omega⟩, hs]
    omega
  · rw [if_neg (fun hc => hs hc.1), counted_reserve, if_neg hs, add_zero]

@[simp] theorem reserve_replyBudgets :
    (l.reserve interactionID sender).replyBudgets = l.replyBudgets := rfl

@[simp] theorem reserve_exempt :
    (l.reserve interactionID sender).exemptParticipantTypes = l.exemptParticipantTypes := rfl

theorem release_config :
    (l.releaseReplyReservation interactionID sender).replyBudgets = l.replyBudgets ∧
      (l.releaseReplyReservation interactionID sender).exemptParticipantTypes =
        l.exemptParticipantTypes := by
  unfold releaseReplyReservation
  cases l.replyCounts.lookup interactionID with
  | none => exact ⟨rfl, rfl⟩
  | some counts =>
    dsimp only
    split_ifs <;> exact ⟨rfl, rfl⟩

/-- The three ways through the gate for a tracked publish on a capped channel. -/
theorem enforceReplyBudget_cases {l : ReplyBudgetLayer} {msg : ChannelMessage} {k : ℤ}
    (hid : msg.interactionID ≠ "") (hk : 0 < k) (hbudget : l.replyBudgetFor msg.channelID = k) :
    (l.enforceReplyBudget msg = .ok (l, false) ∧ (msg.isVote = true ∨
        l.isExemptParticipantType (readParticipantType msg.metadata) = true)) ∨
      (∃ e, l.enforceReplyBudget msg = .error e) ∨
      (l.enforceReplyBudget msg = .ok (l.reserve msg.interactionID msg.senderID, true) ∧
        msg.isVote = false ∧ l.counted msg.interactionID msg.senderID < k) := by
  unfold enforceReplyBudget
  dsimp only
  rw [if_neg hid, hbudget]
  by_cases hvote : msg.isVote = true
  · rw [if_pos hvote]
    exact .inl ⟨rfl, .inl hvote⟩
  · rw [if_neg hvote]
    by_cases hexempt : l.isExemptParticipantType (readParticipantType msg.metadata) = true
    · rw [if_pos (.inr hexempt)]
      exact .inl ⟨rfl, .inr hexempt⟩
    · rw [if_neg (fun hc => hc.elim (fun hle => absurd hk (not_lt.mpr hle)) hexempt)]
      by_cases hfull : k ≤ l.counted msg.interactionID msg.senderID
      · rw [if_pos hfull]
        exact .inr (.inl ⟨_, rfl⟩)
      · rw [if_neg hfull]
        exact .inr (.inr ⟨rfl, Bool.eq_false_iff.mpr hvote, not_le.mp hfull⟩)

/-- What a commit needs to know of the counter of one participant. -/
structure Within (l : ReplyBudgetLayer) (interactionID participant : String) (k : ℤ) : Prop where
  nonneg : ∀ s, 0 ≤ l.counted interactionID s
  le : l.counted interactionID participant ≤ k

/-- A publish that is kept counts for its sender, unless it is a vote. -/
theorem publishWithReplyBudget_spec {l : ReplyBudgetLayer} {msg : ChannelMessage} {k : ℤ}
    {participant : String} (stored : Bool) (hid : msg.interactionID ≠ "") (hk : 0 < k)
    (hbudget : l.replyBudgetFor msg.channelID = k)
    (hexempt : msg.senderID = participant →
      l.isExemptParticipantType (readParticipantType msg.metadata) = false)
    (hl : l.Within msg.interactionID participant k) :
    let r := l.publishWithReplyBudget msg stored
    r.1.replyBudgets = l.replyBudgets ∧
      r.1.exemptParticipantTypes = l.exemptParticipantTypes ∧
      r.1.Within msg.interactionID participant k ∧
      l.counted msg.interactionID participant +
          (if r.2 = true ∧ msg.isVote = false ∧ msg.senderID = participant then 1 else 0) =
        r.1.counted msg.interactionID participant := by
  dsimp only
  unfold publishWithReplyBudget
  rcases enforceReplyBudget_cases hid hk hbudget with ⟨hgate, hwhy⟩ | ⟨e, hgate⟩ |
      ⟨hgate, hvote, hlt⟩
  · -- nothing is reserved: a vote, or another sender
    have hnot : ¬ (msg.isVote = false ∧ msg.senderID = participant) := by
      rintro ⟨hvote, hsender⟩
      rcases hwhy with hv | he
      · rw [hvote] at hv
        cases hv
      · rw [hexempt hsender] at he
        cases he
    rw [hgate]
    cases stored with
    | true => exact ⟨rfl, rfl, hl, by rw [if_neg (fun hc => hnot hc.2), add_zero]; rfl⟩
    | false => exact ⟨rfl, rfl, hl, by rw [if_neg (fun hc => hnot hc.2), add_zero]; rfl⟩
  · rw [hgate]
    exact ⟨rfl, rfl, hl, by rw [if_neg (fun hc => Bool.false_ne_true hc.1), add_zero]⟩
  · rw [hgate]
    cases stored with
    | true =>
      refine ⟨rfl, rfl, ⟨?_, ?_⟩, ?_⟩
      · intro s
        have hs := hl.nonneg s
        simp only [if_true, counted_reserve]
        split_ifs <;> omega
      · have hle := hl.le
        simp only [if_true, counted_reserve]
        split_ifs with hsender
        · subst hsender
          omega
        · omega
      · simp only [if_true, counted_reserve, hvote, true_and, eq_comm]
    | false =>
      obtain ⟨hbudgets, htypes⟩ := release_config (l.reserve msg.interactionID msg.senderID)
        msg.interactionID msg.senderID
      have hsame := l.counted_release_reserve msg.interactionID msg.senderID
        (hl.nonneg msg.senderID)
      refine ⟨hbudgets, htypes, ⟨?_, ?_⟩, ?_⟩
      · intro s
        exact (hsame s).symm ▸ hl.nonneg s
      · exact (hsame participant).symm ▸ hl.le
      · rw [if_neg (fun hc => Bool.false_ne_true hc.1), add_zero]
        exact (hsame participant).symm

end ReplyBudgetLayer

/-- The interaction all publishes of a run belong to, and what bounds it. -/
structure Bounded where
  interactionID : String
  budget : ℤ
  quorum : ℤ
  window : ℤ
  participant : String

namespace Governance

/-- A publish of the interaction, by a sender who is not exempt if it is the participant. -/
structure Fits (g : Governance) (b : Bounded) (msg : ChannelMessage) : Prop where
  stamped : msg.interactionID = b.interactionID
  budget : g.replies.replyBudgetFor msg.channelID = b.budget
  params : g.votes.resolvedEndVoteParamsLocked msg.channelID = (b.quorum, b.window)
  notExempt : msg.senderID = b.participant →
    g.replies.isExemptParticipantType (readParticipantType msg.metadata) = false

/-- The interaction is open after the history `h`. -/
structure Open (g : Governance) (b : Bounded) (h : History) : Prop where
  tracked : b.interactionID ≠ ""
  budget_pos : 0 < b.budget
  follows : g.votes.Follows b.interactionID b.quorum b.window h
  notReached : reached b.quorum b.window h = false
  within : g.replies.Within b.interactionID b.participant b.budget

/-- Replies counted and fresh votes cast, which a fanned-out publish adds to. -/
def spent (g : Governance) (b : Bounded) (h : History) : ℤ :=
  g.replies.counted b.interactionID b.participant + freshVotes b.window b.participant h

/-- The configuration of both layers is left alone. -/
structure SameConfig (g g' : Governance) : Prop where
  budgets : g'.replies.replyBudgets = g.replies.replyBudgets
  exempt : g'.replies.exemptParticipantTypes = g.replies.exemptParticipantTypes
  params : ∀ channelID, g'.votes.resolvedEndVoteParamsLocked channelID =
    g.votes.resolvedEndVoteParamsLocked channelID

theorem SameConfig.fits {g g' : Governance} (hsame : SameConfig g g') {b : Bounded}
    {msg : ChannelMessage} (h : g.Fits b msg) : g'.Fits b msg where
  stamped := h.stamped
  budget := by
    unfold ReplyBudgetLayer.replyBudgetFor
    rw [hsame.budgets]
    exact h.budget
  params := (hsame.params msg.channelID).trans h.params
  notExempt := by
    unfold ReplyBudgetLayer.isExemptParticipantType
    rw [hsame.exempt]
    exact h.notExempt

def isFannedOut (participant : String) (msg : ChannelMessage) (outcome : CommitOutcome) : Bool :=
  decide (msg.senderID = participant) && decide (outcome = .fannedOut)

/-- One commit that leaves the interaction open. -/
theorem commit_spec {g : Governance} {b : Bounded} {h : History} {msg : ChannelMessage}
    (stored : Bool) (hfits : g.Fits b msg) (hg : g.Open b h)
    (hopen : (g.commit false msg stored).2 ≠ .closed) :
    SameConfig g (g.commit false msg stored).1 ∧
      ∃ h', (g.commit false msg stored).1.Open b h' ∧
        h'.length = h.length + (if (g.commit false msg stored).2 = .rejected then 0 else 1) ∧
        g.spent b h + (if isFannedOut b.participant msg (g.commit false msg stored).2
            then 1 else 0) ≤ (g.commit false msg stored).1.spent b h' := by
  have hid : msg.interactionID ≠ "" := hfits.stamped ▸ hg.tracked
  obtain ⟨hbudgets, hexempt, hwithin, hcounted⟩ := ReplyBudgetLayer.publishWithReplyBudget_spec
    stored hid hg.budget_pos hfits.budget hfits.notExempt (hfits.stamped ▸ hg.within)
  rw [hfits.stamped] at hwithin hcounted
  generalize hpublished : g.replies.publishWithReplyBudget msg stored = published
    at hbudgets hexempt hwithin hcounted
  obtain ⟨replies, persisted⟩ := published
  dsimp only at hbudgets hexempt hwithin hcounted
  cases persisted with
  | false =>
    have hcommit : g.commit false msg stored = ({ g with replies := replies }, .rejected) := by
      unfold commit
      rw [hpublished]
      rfl
    rw [if_neg (fun hc => Bool.false_ne_true hc.1), add_zero] at hcounted
    rw [hcommit]
    refine ⟨⟨hbudgets, hexempt, fun _ => rfl⟩, h, ?_, by simp, ?_⟩
    · exact ⟨hg.tracked, hg.budget_pos, hg.follows, hg.notReached, hwithin⟩
    · simp [spent, isFannedOut, hcounted]
  | true =>
    have hanswers := EndVoteLayer.processEndVoteLocked_answers hid hfits.params
      (hfits.stamped ▸ hg.follows)
    rw [hfits.stamped] at hanswers
    have hconfig := EndVoteLayer.processEndVoteLocked_resolved g.votes msg
    have hpost : (g.votes.processEndVoteLocked msg).2 ≠ .postClose := by
      intro hpost
      have hsuppress := hanswers.suppresses true
      have hclose := hanswers.closes
      rw [hpost, hg.notReached] at hclose
      rw [hpost] at hsuppress
      simp only [EndVoteOutcome.closes, EndVoteOutcome.suppresses, Bool.not_false,
        Bool.true_and, Bool.not_true, Bool.and_false, Bool.or_false] at hclose hsuppress
      rw [reached, hg.notReached, ← hclose] at hsuppress
      cases hsuppress
    generalize hprocessed : g.votes.processEndVoteLocked msg = processed
      at hanswers hconfig hpost
    obtain ⟨votes, outcome⟩ := processed
    dsimp only at hanswers hconfig hpost
    have hcommit : g.commit false msg stored =
        (if outcome.closes then
          ({ votes := votes,
             replies := replies.discardInteractionReplyBudget msg.interactionID }, .closed)
        else if outcome.suppresses false then ({ votes := votes, replies := replies }, .suppressed)
        else ({ votes := votes, replies := replies }, .fannedOut)) := by
      unfold commit
      rw [hpublished]
      dsimp only
      rw [if_pos rfl, hprocessed]
      dsimp only
      rw [if_neg hpost]
    rw [hcommit] at hopen ⊢
    have hcloses : outcome.closes = false := by
      rw [Bool.eq_false_iff]
      intro hc
      rw [if_pos hc] at hopen
      exact hopen rfl
    rw [hcloses, if_neg Bool.false_ne_true]
    have hquorum : reached b.quorum b.window (msg.publish :: h) = false := by
      have hc := hanswers.closes
      rw [hcloses, hg.notReached, Bool.not_false, Bool.true_and] at hc
      rw [reached, hg.notReached, ← hc]
      rfl
    have hsuppresses : outcome.suppresses false =
        repeatsLive b.window (msg.publish :: h) := by
      rw [hanswers.suppresses false, hquorum]
      simp
    have hnext : ({ votes := votes, replies := replies } : Governance).Open b
        (msg.publish :: h) :=
      ⟨hg.tracked, hg.budget_pos, hanswers.follows, hquorum, hwithin⟩
    have hsame : SameConfig g { votes := votes, replies := replies } :=
      ⟨hbudgets, hexempt, hconfig⟩
    rw [hsuppresses]
    by_cases hrepeats : repeatsLive b.window (msg.publish :: h) = true
    · rw [if_pos hrepeats]
      refine ⟨hsame, msg.publish :: h, hnext, by simp, ?_⟩
      unfold spent
      simp only [isFannedOut, freshVotes, ChannelMessage.publish, ← hcounted]
      simp
      omega
    · rw [if_neg hrepeats]
      refine ⟨hsame, msg.publish :: h, hnext, by simp, ?_⟩
      have hfresh : repeatsLive b.window ((msg.senderID, msg.isVote) :: h) = false :=
        Bool.eq_false_iff.mpr hrepeats
      unfold spent
      simp only [isFannedOut, freshVotes, ChannelMessage.publish, ← hcounted, hfresh]
      by_cases hsender : msg.senderID = b.participant
      · cases hvote : msg.isVote <;> simp [hsender] <;> omega
      · simp [hsender]

/-- The publishes of a run that a participant was fanned out for. -/
def fannedOutBy (participant : String) (pubs : List (ChannelMessage × Bool))
    (outcomes : List CommitOutcome) : ℕ :=
  (pubs.zip outcomes).countP fun x => isFannedOut participant x.1.1 x.2

/-- The publishes of a run that entered the history. -/
def persisted (outcomes : List CommitOutcome) : ℕ :=
  outcomes.countP fun outcome => decide (outcome ≠ .rejected)

theorem run_spec {g : Governance} {b : Bounded} {h : History}
    (pubs : List (ChannelMessage × Bool)) (hfits : ∀ x ∈ pubs, g.Fits b x.1) (hg : g.Open b h)
    (hopen : .closed ∉ (g.run false pubs).2) :
    ∃ h', (g.run false pubs).1.Open b h' ∧
      h'.length = h.length + persisted (g.run false pubs).2 ∧
      g.spent b h + fannedOutBy b.participant pubs (g.run false pubs).2 ≤
        (g.run false pubs).1.spent b h' := by
  induction pubs generalizing g h with
  | nil => exact ⟨h, hg, rfl, by simp [fannedOutBy, run]⟩
  | cons x pubs ih =>
    obtain ⟨msg, stored⟩ := x
    have hrun : g.run false ((msg, stored) :: pubs) =
        (((g.commit false msg stored).1.run false pubs).1,
          (g.commit false msg stored).2 :: ((g.commit false msg stored).1.run false pubs).2) :=
      rfl
    rw [hrun] at hopen ⊢
    dsimp only at hopen ⊢
    obtain ⟨hhead, htail⟩ := List.ne_and_not_mem_of_not_mem_cons hopen
    have hfit : g.Fits b msg := hfits (msg, stored) List.mem_cons_self
    obtain ⟨hsame, h₁, hg₁, hlen₁, hspent₁⟩ := commit_spec stored hfit hg (Ne.symm hhead)
    have hfits₁ : ∀ x ∈ pubs, (g.commit false msg stored).1.Fits b x.1 := by
      intro x hx
      exact hsame.fits (hfits x (List.mem_cons_of_mem _ hx))
    obtain ⟨h₂, hg₂, hlen₂, hspent₂⟩ := ih hfits₁ hg₁ htail
    refine ⟨h₂, hg₂, ?_, ?_⟩
    · rw [hlen₂, hlen₁, persisted, persisted, List.countP_cons, Nat.add_assoc,
        Nat.add_comm _ (ite _ _ _)]
      by_cases hrejected : (g.commit false msg stored).2 = .rejected <;> simp [hrejected]
    · rw [fannedOutBy, List.zip_cons_cons, List.countP_cons]
      rw [fannedOutBy] at hspent₂
      push_cast
      omega

/-- A new interaction, on channels with one budget, quorum and window, in which the
participant never counts as exempt. -/
structure Fresh (g : Governance) (b : Bounded) (pubs : List (ChannelMessage × Bool)) : Prop where
  tracked : b.interactionID ≠ ""
  budget_pos : 0 < b.budget
  window_pos : 0 < b.window
  noVotes : g.votes.endVotes.lookup b.interactionID = none
  notClosed : g.votes.closedInteractions.lookup b.interactionID = none
  noReplies : g.replies.replyCounts.lookup b.interactionID = none
  fits : ∀ x ∈ pubs, g.Fits b x.1

/-- While the interaction stays open, a participant is fanned out for at most `budget`
replies, one vote, and one more vote for each window of publishes after the first. -/
theorem fanned_out_bound {g : Governance} {b : Bounded} {pubs : List (ChannelMessage × Bool)}
    (h : g.Fresh b pubs) (hopen : .closed ∉ (g.run false pubs).2) :
    (fannedOutBy b.participant pubs (g.run false pubs).2 : ℤ) ≤
      b.budget + 1 + ((persisted (g.run false pubs).2 : ℤ) - 1) / b.window := by
  have hcounted : ∀ s, g.replies.counted b.interactionID s = 0 := by
    intro s
    unfold ReplyBudgetLayer.counted
    rw [h.noReplies]
    rfl
  have hg : g.Open b [] := by
    refine ⟨h.tracked, h.budget_pos, ⟨?_, ?_⟩, rfl, ⟨?_, ?_⟩⟩
    · rw [h.notClosed]
      rfl
    · intro _
      rw [h.noVotes]
      intro s
      rfl
    · intro s
      exact le_of_eq (hcounted s).symm
    · rw [hcounted]
      exact Int.le_of_lt h.budget_pos
  obtain ⟨h', hg', hlen, hspent⟩ := run_spec pubs h.fits hg hopen
  have hreplies := hg'.within.le
  have hbefore : g.spent b [] = 0 := by
    unfold spent
    rw [hcounted]
    rfl
  rw [List.length_nil, Nat.zero_add] at hlen
  rw [← hlen]
  unfold spent at hspent hbefore
  by_cases hne : h' = []
  · subst hne
    have hfloor : -1 ≤ (-1) / b.window := by
      have hw := h.window_pos
      apply (Int.le_ediv_iff_mul_le hw).mpr
      omega
    have hvotes : freshVotes b.window b.participant [] = 0 := rfl
    rw [hvotes] at hspent hbefore
    simp only [List.length_nil, Nat.cast_zero, zero_sub]
    omega
  · have hvotes := freshVotes_le h.window_pos b.participant hne
    omega

def budgetOne : Governance where
  replies := ({} : ReplyBudgetLayer).setReplyBudget "group:dev" 1

/-- Alice replies and votes, two others reply, and Alice votes again when her first vote is
no longer in the window. -/
def staleRevote : List (ChannelMessage × Bool) :=
  [(trackedPublish "int-1" "alice" false, true), (trackedPublish "int-1" "alice" true, true),
    (trackedPublish "int-1" "bob" false, true), (trackedPublish "int-1" "carol" false, true),
    (trackedPublish "int-1" "alice" true, true)]

theorem fanned_out_bound_stale_revote :
    (fannedOutBy "alice" staleRevote (budgetOne.run false staleRevote).2 : ℤ) ≤
      1 + 1 + ((persisted (budgetOne.run false staleRevote).2 : ℤ) - 1) / 3 := by
  refine @fanned_out_bound budgetOne ⟨"int-1", 1, 2, 3, "alice"⟩ staleRevote ?_ (by decide)
  refine ⟨by decide, by decide, by decide, rfl, rfl, rfl, ?_⟩
  intro x hx
  simp only [staleRevote, List.mem_cons, List.not_mem_nil, or_false] at hx
  rcases hx with rfl | rfl | rfl | rfl | rfl <;>
    exact ⟨by decide, by decide, by decide, fun _ => by decide⟩

/-- With a budget of one reply, three publishes of Alice are fanned out while the
interaction stays open. -/
theorem stale_revote_exceeds :
    budgetOne.replies.replyBudgetFor "group:dev" = 1 ∧
      .closed ∉ (budgetOne.run false staleRevote).2 ∧
      ¬ fannedOutBy "alice" staleRevote (budgetOne.run false staleRevote).2 ≤ 1 + 1 := by
  decide

end Governance
end Persatrix.Channels
