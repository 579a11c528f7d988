import Persatrix.EndVote
import Mathlib.Data.Finset.Image
import Mathlib.Order.Bounds.Defs

/-!
# When an interaction closes

A history is the list of the publishes of one interaction, newest first, each with its
sender and whether it is a vote. What the accumulator holds is a function of the
history, whatever turn the first vote was counted at, because only distances between
turns are compared.
-/
namespace Persatrix.Channels

abbrev History := List (String × Bool)

/-- The number of publishes after the latest vote of a sender. -/
def sinceVote (sender : String) : History → Option ℕ
  | [] => none
  | (s, vote) :: older =>
    if vote ∧ s = sender then some 0 else (sinceVote sender older).map (· + 1)

/-- The senders whose latest vote is among the last `w` publishes. -/
def liveVoters (w : ℤ) (h : History) : Finset String :=
  (h.map Prod.fst).toFinset.filter fun s => (sinceVote s h).any fun d : ℕ => decide ((d : ℤ) < w)

/-- The newest publish is a vote, and at least `k` senders have a live one. -/
def QuorumAt (k w : ℤ) (h : History) : Prop :=
  (h.head?.any Prod.snd) = true ∧ k ≤ (liveVoters w h).card

instance (k w : ℤ) (h : History) : Decidable (QuorumAt k w h) :=
  inferInstanceAs (Decidable (_ ∧ _))

/-- Some publish made the quorum. -/
def reached (k w : ℤ) : History → Bool
  | [] => false
  | p :: older => reached k w older || decide (QuorumAt k w (p :: older))

/-- The newest publish is a vote of a sender with a live vote. -/
def repeatsLive (w : ℤ) : History → Bool
  | [] => false
  | (s, vote) :: older => vote && (sinceVote s older).any fun d : ℕ => decide ((d : ℤ) + 1 < w)

theorem sinceVote_vote (s : String) (h : History) : sinceVote s ((s, true) :: h) = some 0 := by
  simp [sinceVote]

theorem sinceVote_other {s sender : String} {vote : Bool} (h : History)
    (hne : ¬ (vote = true ∧ s = sender)) :
    sinceVote sender ((s, vote) :: h) = (sinceVote sender h).map (· + 1) := by
  rw [sinceVote, if_neg hne]

/-- The publish at the distance of the latest vote has that sender. -/
theorem getElem?_of_sinceVote {s : String} {h : History} {d : ℕ} (hd : sinceVote s h = some d) :
    h[d]? = some (s, true) := by
  induction h generalizing d with
  | nil => cases hd
  | cons p older ih =>
    obtain ⟨sender, vote⟩ := p
    by_cases hvote : vote = true ∧ sender = s
    · obtain ⟨rfl, rfl⟩ := hvote
      rw [sinceVote_vote] at hd
      cases hd
      rfl
    · rw [sinceVote_other older hvote] at hd
      obtain ⟨e, he, rfl⟩ := Option.map_eq_some_iff.mp hd
      rw [List.getElem?_cons_succ]
      exact ih he

theorem mem_liveVoters {w : ℤ} {h : History} {s : String} :
    s ∈ liveVoters w h ↔ ∃ d : ℕ, sinceVote s h = some d ∧ (d : ℤ) < w := by
  unfold liveVoters
  rw [Finset.mem_filter, Option.any_eq_true]
  constructor
  · rintro ⟨_, d, hd, hlt⟩
    exact ⟨d, hd, of_decide_eq_true hlt⟩
  · rintro ⟨d, hd, hlt⟩
    have hmem := List.mem_of_getElem? (getElem?_of_sinceVote hd)
    exact ⟨List.mem_toFinset.mpr (List.mem_map.mpr ⟨_, hmem, rfl⟩), d, hd, decide_eq_true hlt⟩

/-- At most one sender voted at each of the last `w` publishes. -/
theorem card_liveVoters_le {w : ℤ} (hw : 0 ≤ w) (h : History) :
    ((liveVoters w h).card : ℤ) ≤ w := by
  have hle : (liveVoters w h).card ≤ (Finset.range w.toNat).card := by
    apply Finset.card_le_card_of_injOn fun s => (sinceVote s h).getD 0
    · intro s hs
      obtain ⟨d, hd, hlt⟩ := mem_liveVoters.mp hs
      simp only [hd, Option.getD_some, Finset.coe_range, Set.mem_Iio]
      omega
    · intro s hs t ht hst
      obtain ⟨d, hd, _⟩ := mem_liveVoters.mp hs
      obtain ⟨e, he, _⟩ := mem_liveVoters.mp ht
      simp only [hd, he, Option.getD_some] at hst
      subst hst
      have hs' := getElem?_of_sinceVote hd
      rw [getElem?_of_sinceVote he] at hs'
      cases hs'
      rfl
  rw [Finset.card_range] at hle
  omega

theorem not_quorumAt_of_lt {k w : ℤ} (hw : 0 ≤ w) (hlt : w < k) (h : History) :
    ¬ QuorumAt k w h := by
  intro hq
  have hcard := card_liveVoters_le hw h
  have hk := hq.2
  omega

/-- What an accumulator says of the history: each stamp is at the distance of the latest
vote, and no accumulator means no votes. -/
def Tracks (h : History) : Option InteractionEndVotes → Prop
  | none => ∀ s, sinceVote s h = none
  | some state => ∀ s, state.votes.lookup s = (sinceVote s h).map fun d : ℕ => state.turn - (d : ℤ)

theorem Tracks.empty {h : History} (ht : Tracks h none) : Tracks h (some {}) := by
  intro s
  rw [ht s]
  rfl

theorem Tracks.skip {h : History} (ht : Tracks h none) (s : String) :
    Tracks ((s, false) :: h) none := by
  intro t
  rw [sinceVote_other h (by simp), ht t]
  rfl

theorem Tracks.spam {h : History} {state : InteractionEndVotes} (ht : Tracks h (some state))
    (w : ℤ) (s : String) (vote : Bool) :
    (state.countPublish w s vote).2 = repeatsLive w ((s, vote) :: h) := by
  cases vote with
  | false => rfl
  | true =>
    simp only [InteractionEndVotes.countPublish, if_true, repeatsLive, Bool.true_and]
    rw [ht s]
    cases sinceVote s h with
    | none => rfl
    | some d =>
      simp only [Option.map_some, Option.any_some]
      congr 1
      apply propext
      omega

theorem Tracks.count {h : History} {state : InteractionEndVotes} (ht : Tracks h (some state))
    (w : ℤ) (s : String) (vote : Bool) :
    Tracks ((s, vote) :: h) (some (state.countPublish w s vote).1) := by
  intro t
  have hlater : ((sinceVote t h).map (· + 1)).map (fun d : ℕ => state.turn + 1 - (d : ℤ)) =
      state.votes.lookup t := by
    rw [ht t, Option.map_map]
    congr 1
    funext d
    simp only [Function.comp_apply]
    omega
  cases vote with
  | false =>
    rw [sinceVote_other h (by simp)]
    exact hlater.symm
  | true =>
    simp only [InteractionEndVotes.countPublish, if_true]
    rw [GoMap.lookup_insert]
    by_cases hst : t = s
    · subst hst
      rw [if_pos rfl, sinceVote_vote]
      simp
    · rw [if_neg hst, sinceVote_other h (fun hv => hst hv.2.symm)]
      exact hlater.symm

theorem Tracks.recentVotes {h : History} {state : InteractionEndVotes}
    (ht : Tracks h (some state)) (w : ℤ) : state.recentVotes w = (liveVoters w h).card := by
  apply GoMap.count_eq_card
  intro s
  rw [mem_liveVoters, ht s]
  constructor
  · rintro ⟨d, hd, hlt⟩
    refine ⟨state.turn - d, by rw [hd]; rfl, decide_eq_true ?_⟩
    omega
  · rintro ⟨v, hv, hlt⟩
    obtain ⟨d, hd, rfl⟩ := Option.map_eq_some_iff.mp hv
    have := of_decide_eq_true hlt
    exact ⟨d, hd, by omega⟩

def ChannelMessage.publish (msg : ChannelMessage) : String × Bool := (msg.senderID, msg.isVote)

namespace EndVoteLayer

/-- The hook of a router that counts turns from the first publish of an interaction. -/
def processFromStartLocked (l : EndVoteLayer) (msg : ChannelMessage) :
    EndVoteLayer × EndVoteOutcome :=
  let interactionID := msg.interactionID
  if interactionID = "" then (l, .untracked)
  else if (l.closedInteractions.lookup interactionID).isSome then (l, .postClose)
  else l.countVoteLocked msg ((l.endVotes.lookup interactionID).getD {})

/-- The layer after a history of one interaction with quorum `k` and window `w`. -/
structure Follows (l : EndVoteLayer) (interactionID : String) (k w : ℤ) (h : History) : Prop where
  closed : (l.closedInteractions.lookup interactionID).isSome = reached k w h
  tracks : reached k w h = false → Tracks h (l.endVotes.lookup interactionID)

/-- What both hooks return: the layer follows the longer history, and the outcome is read
off the history. -/
structure Answers (r : EndVoteLayer × EndVoteOutcome) (interactionID : String) (k w : ℤ)
    (p : String × Bool) (h : History) : Prop where
  follows : r.1.Follows interactionID k w (p :: h)
  closes : r.2.closes = (!reached k w h && decide (QuorumAt k w (p :: h)))
  suppresses : ∀ autonomous, r.2.suppresses autonomous =
    (reached k w (p :: h) || (repeatsLive w (p :: h) && !autonomous))

theorem resolved_pos (l : EndVoteLayer) (channelID : String) :
    0 < (l.resolvedEndVoteParamsLocked channelID).1 ∧
      0 < (l.resolvedEndVoteParamsLocked channelID).2 := by
  unfold resolvedEndVoteParamsLocked defaultEndVoteThreshold defaultEndVoteWindow
  dsimp only
  split_ifs <;> omega

theorem tombstone_resolved (l : EndVoteLayer) (interactionID channelID : String) :
    (l.tombstoneInteractionLocked interactionID).1.resolvedEndVoteParamsLocked channelID =
      l.resolvedEndVoteParamsLocked channelID := by
  unfold tombstoneInteractionLocked
  split_ifs <;> rfl

theorem countVoteLocked_resolved (l : EndVoteLayer) (msg : ChannelMessage)
    (state : InteractionEndVotes) (channelID : String) :
    (l.countVoteLocked msg state).1.resolvedEndVoteParamsLocked channelID =
      l.resolvedEndVoteParamsLocked channelID := by
  unfold countVoteLocked
  dsimp only
  split_ifs
  · rw [tombstone_resolved]
    rfl
  · rfl

theorem processEndVoteLocked_resolved (l : EndVoteLayer) (msg : ChannelMessage)
    (channelID : String) :
    (l.processEndVoteLocked msg).1.resolvedEndVoteParamsLocked channelID =
      l.resolvedEndVoteParamsLocked channelID := by
  unfold processEndVoteLocked
  dsimp only
  split_ifs
  · rfl
  · rfl
  · rename_i hvote
    cases l.endVotes.lookup msg.interactionID with
    | some state => exact l.countVoteLocked_resolved msg state channelID
    | none => exact l.countVoteLocked_resolved msg {} channelID
  · cases l.endVotes.lookup msg.interactionID with
    | some state => exact l.countVoteLocked_resolved msg state channelID
    | none => rfl

theorem processFromStartLocked_resolved (l : EndVoteLayer) (msg : ChannelMessage)
    (channelID : String) :
    (l.processFromStartLocked msg).1.resolvedEndVoteParamsLocked channelID =
      l.resolvedEndVoteParamsLocked channelID := by
  unfold processFromStartLocked
  dsimp only
  split_ifs
  · rfl
  · rfl
  · exact l.countVoteLocked_resolved msg _ channelID

section step
variable {l : EndVoteLayer} {msg : ChannelMessage} {k w : ℤ} {h : History}

/-- Counting a publish of an interaction that is still open. -/
theorem countVoteLocked_answers {state : InteractionEndVotes}
    (hopen : l.closedInteractions.lookup msg.interactionID = none)
    (hparams : l.resolvedEndVoteParamsLocked msg.channelID = (k, w))
    (hreached : reached k w h = false) (ht : Tracks h (some state)) :
    Answers (l.countVoteLocked msg state) msg.interactionID k w msg.publish h := by
  have hcounted := ht.count w msg.senderID msg.isVote
  have hspam := ht.spam w msg.senderID msg.isVote
  have hclosed : (msg.isVote && decide
        (k ≤ (state.countPublish w msg.senderID msg.isVote).1.recentVotes w)) =
      decide (QuorumAt k w (msg.publish :: h)) := by
    rw [hcounted.recentVotes]
    rw [Bool.eq_iff_iff, Bool.and_eq_true, decide_eq_true_eq, decide_eq_true_eq]
    exact Iff.rfl
  let stored : EndVoteLayer :=
    { l with
      endVotes := l.endVotes.insert msg.interactionID
        (state.countPublish w msg.senderID msg.isVote).1 }
  have hresult : l.countVoteLocked msg state =
      (if decide (QuorumAt k w (msg.publish :: h)) = true
        then (stored.tombstoneInteractionLocked msg.interactionID).1 else stored,
       .counted (decide (QuorumAt k w (msg.publish :: h)))
         (repeatsLive w (msg.publish :: h))) := by
    unfold countVoteLocked
    rw [hparams]
    dsimp only
    rw [hclosed, hspam]
    rfl
  rw [hresult]
  by_cases hq : QuorumAt k w (msg.publish :: h)
  · refine ⟨⟨?_, ?_⟩, ?_, ?_⟩
    · simp [stored, tombstoneInteractionLocked, hopen, reached, hq]
    · intro hnot
      simp [reached, hq] at hnot
    · simp [EndVoteOutcome.closes, hreached, hq]
    · intro autonomous
      simp [EndVoteOutcome.suppresses, reached, hq]
  · refine ⟨⟨?_, ?_⟩, ?_, ?_⟩
    · simp [stored, hopen, reached, hreached, hq]
    · intro _
      simp only [stored, hq, decide_false, Bool.false_eq_true, if_false]
      rw [GoMap.lookup_insert, if_pos rfl]
      exact hcounted
    · simp [EndVoteOutcome.closes, hreached, hq]
    · intro autonomous
      simp [EndVoteOutcome.suppresses, reached, hreached, hq]

theorem postClose_answers (hl : l.Follows msg.interactionID k w h)
    (hreached : reached k w h = true) :
    Answers (l, EndVoteOutcome.postClose) msg.interactionID k w msg.publish h := by
  have hnext : reached k w (msg.publish :: h) = true := by simp [reached, hreached]
  refine ⟨⟨?_, ?_⟩, ?_, ?_⟩
  · rw [hnext]
    exact hl.closed.trans hreached
  · intro hnot
    rw [hnext] at hnot
    cases hnot
  · simp [EndVoteOutcome.closes, hreached]
  · intro autonomous
    simp [EndVoteOutcome.suppresses, hnext]

theorem processEndVoteLocked_answers (hid : msg.interactionID ≠ "")
    (hparams : l.resolvedEndVoteParamsLocked msg.channelID = (k, w))
    (hl : l.Follows msg.interactionID k w h) :
    Answers (l.processEndVoteLocked msg) msg.interactionID k w msg.publish h := by
  unfold processEndVoteLocked
  dsimp only
  rw [if_neg hid, hl.closed]
  cases hreached : reached k w h with
  | true => exact postClose_answers hl hreached
  | false =>
    rw [if_neg (by decide)]
    have hopen : l.closedInteractions.lookup msg.interactionID = none := by
      have hclosed := hl.closed
      rw [hreached] at hclosed
      exact Option.isSome_eq_false_iff.mp hclosed |> Option.isNone_iff_eq_none.mp
    have ht := hl.tracks hreached
    cases hstate : l.endVotes.lookup msg.interactionID with
    | some state =>
      rw [hstate] at ht
      exact countVoteLocked_answers hopen hparams hreached ht
    | none =>
      rw [hstate] at ht
      dsimp only
      by_cases hvote : msg.isVote = true
      · rw [if_pos hvote]
        exact countVoteLocked_answers hopen hparams hreached ht.empty
      · rw [if_neg hvote]
        -- nothing is stored, and neither is there anything to store
        have hpublish : msg.publish = (msg.senderID, false) := by
          unfold ChannelMessage.publish
          rw [Bool.eq_false_iff.mpr hvote]
        have hnext : reached k w (msg.publish :: h) = false := by
          simp [reached, hreached, hpublish, QuorumAt]
        refine ⟨⟨?_, ?_⟩, ?_, ?_⟩
        · rw [hnext, hopen]
          rfl
        · intro _
          rw [hstate, hpublish]
          exact ht.skip _
        · simp [EndVoteOutcome.closes, hpublish, QuorumAt]
        · intro autonomous
          rw [hnext]
          simp [EndVoteOutcome.suppresses, hpublish, repeatsLive]

theorem processFromStartLocked_answers (hid : msg.interactionID ≠ "")
    (hparams : l.resolvedEndVoteParamsLocked msg.channelID = (k, w))
    (hl : l.Follows msg.interactionID k w h) :
    Answers (l.processFromStartLocked msg) msg.interactionID k w msg.publish h := by
  unfold processFromStartLocked
  dsimp only
  rw [if_neg hid, hl.closed]
  cases hreached : reached k w h with
  | true => exact postClose_answers hl hreached
  | false =>
    rw [if_neg (by decide)]
    have hopen : l.closedInteractions.lookup msg.interactionID = none := by
      have hclosed := hl.closed
      rw [hreached] at hclosed
      exact Option.isSome_eq_false_iff.mp hclosed |> Option.isNone_iff_eq_none.mp
    have ht := hl.tracks hreached
    apply countVoteLocked_answers hopen hparams hreached
    cases hstate : l.endVotes.lookup msg.interactionID with
    | some state =>
      rw [hstate] at ht
      exact ht
    | none =>
      rw [hstate] at ht
      exact ht.empty

end step

/-- The layer after the publishes, and the outcome of the one that follows them. -/
def after (hook : EndVoteLayer → ChannelMessage → EndVoteLayer × EndVoteOutcome)
    (l : EndVoteLayer) (msgs : List ChannelMessage) : EndVoteLayer :=
  msgs.foldl (fun l msg => (hook l msg).1) l

def outcomeAt (hook : EndVoteLayer → ChannelMessage → EndVoteLayer × EndVoteOutcome)
    (l : EndVoteLayer) (msgs : List ChannelMessage) (n : Fin msgs.length) : EndVoteOutcome :=
  (hook (l.after hook (msgs.take n)) msgs[n]).2

end EndVoteLayer

/-- The history that the publishes make. -/
def history (msgs : List ChannelMessage) : History := (msgs.map ChannelMessage.publish).reverse

theorem history_take_succ (msgs : List ChannelMessage) (n : Fin msgs.length) :
    history (msgs.take (n + 1)) = msgs[n].publish :: history (msgs.take n) := by
  unfold history
  rw [List.take_succ_eq_append_getElem n.isLt, List.map_append, List.reverse_append]
  rfl

theorem reached_history (k w : ℤ) (msgs : List ChannelMessage) (n : ℕ)
    (hn : n ≤ msgs.length) :
    reached k w (history (msgs.take n)) = true ↔
      ∃ i : Fin msgs.length, i < n ∧ QuorumAt k w (history (msgs.take (i + 1))) := by
  induction n with
  | zero =>
    constructor
    · intro h
      simp [history, reached] at h
    · rintro ⟨i, hi, _⟩
      exact absurd hi (Nat.not_lt_zero _)
  | succ n ih =>
    have hlt : n < msgs.length := hn
    rw [history_take_succ msgs ⟨n, hlt⟩, reached, Bool.or_eq_true, decide_eq_true_eq,
      ih (Nat.le_of_lt hlt), ← history_take_succ msgs ⟨n, hlt⟩]
    constructor
    · rintro (⟨i, hi, hq⟩ | hq)
      · exact ⟨i, Nat.lt_succ_of_lt hi, hq⟩
      · exact ⟨⟨n, hlt⟩, Nat.lt_succ_self n, hq⟩
    · rintro ⟨i, hi, hq⟩
      rcases Nat.lt_succ_iff_lt_or_eq.mp hi with hi | hi
      · exact .inl ⟨i, hi, hq⟩
      · right
        have : i = ⟨n, hlt⟩ := Fin.ext hi
        rw [this] at hq
        exact hq

/-- A hook whose outcomes are read off the history. -/
structure AnswersFrom (hook : EndVoteLayer → ChannelMessage → EndVoteLayer × EndVoteOutcome) :
    Prop where
  answers : ∀ {l : EndVoteLayer} {msg : ChannelMessage} {k w : ℤ} {h : History},
    msg.interactionID ≠ "" → l.resolvedEndVoteParamsLocked msg.channelID = (k, w) →
    l.Follows msg.interactionID k w h →
    EndVoteLayer.Answers (hook l msg) msg.interactionID k w msg.publish h
  resolved : ∀ (l : EndVoteLayer) (msg : ChannelMessage) (channelID : String),
    (hook l msg).1.resolvedEndVoteParamsLocked channelID = l.resolvedEndVoteParamsLocked channelID

theorem processEndVoteLocked_answersFrom : AnswersFrom EndVoteLayer.processEndVoteLocked where
  answers := EndVoteLayer.processEndVoteLocked_answers
  resolved := EndVoteLayer.processEndVoteLocked_resolved

theorem processFromStartLocked_answersFrom :
    AnswersFrom EndVoteLayer.processFromStartLocked where
  answers := EndVoteLayer.processFromStartLocked_answers
  resolved := EndVoteLayer.processFromStartLocked_resolved

/-- The publishes of one interaction, all under the same quorum and window. -/
structure OneInteraction (l : EndVoteLayer) (interactionID : String) (k w : ℤ)
    (msgs : List ChannelMessage) : Prop where
  tracked : interactionID ≠ ""
  noVotes : l.endVotes.lookup interactionID = none
  notClosed : l.closedInteractions.lookup interactionID = none
  stamped : ∀ msg ∈ msgs, msg.interactionID = interactionID
  params : ∀ msg ∈ msgs, l.resolvedEndVoteParamsLocked msg.channelID = (k, w)

section run
variable {hook : EndVoteLayer → ChannelMessage → EndVoteLayer × EndVoteOutcome}
  {l : EndVoteLayer} {interactionID : String} {k w : ℤ} {msgs : List ChannelMessage}

theorem after_resolved (hhook : AnswersFrom hook) (l : EndVoteLayer) (msgs : List ChannelMessage)
    (channelID : String) :
    (l.after hook msgs).resolvedEndVoteParamsLocked channelID =
      l.resolvedEndVoteParamsLocked channelID := by
  induction msgs generalizing l with
  | nil => rfl
  | cons msg msgs ih => exact (ih (hook l msg).1).trans (hhook.resolved l msg channelID)

theorem after_follows (hhook : AnswersFrom hook) (h : OneInteraction l interactionID k w msgs) :
    (l.after hook msgs).Follows interactionID k w (history msgs) := by
  induction msgs using List.reverseRecOn with
  | nil =>
    refine ⟨?_, ?_⟩
    · rw [show l.after hook [] = l from rfl, h.notClosed]
      rfl
    · intro _
      rw [show l.after hook [] = l from rfl, h.noVotes]
      intro s
      rfl
  | append_singleton msgs msg ih =>
    have hbefore : OneInteraction l interactionID k w msgs :=
      { h with
        stamped := fun m hm => h.stamped m (List.mem_append_left _ hm)
        params := fun m hm => h.params m (List.mem_append_left _ hm) }
    have hmsg : msg ∈ msgs ++ [msg] := List.mem_append_right _ (List.mem_singleton_self msg)
    have hid := h.stamped msg hmsg
    have hparams := (after_resolved hhook l msgs msg.channelID).trans (h.params msg hmsg)
    have hstep := (hhook.answers (hid ▸ h.tracked) hparams (hid ▸ ih hbefore)).follows
    rw [hid] at hstep
    have hhistory : history (msgs ++ [msg]) = msg.publish :: history msgs := by
      simp [history]
    rw [hhistory, EndVoteLayer.after, List.foldl_append]
    exact hstep

theorem outcomeAt_answers (hhook : AnswersFrom hook)
    (h : OneInteraction l interactionID k w msgs) (n : Fin msgs.length) :
    EndVoteLayer.Answers (hook (l.after hook (msgs.take n)) msgs[n]) interactionID k w
      msgs[n].publish (history (msgs.take n)) := by
  have hbefore : OneInteraction l interactionID k w (msgs.take n) :=
    { h with
      stamped := fun m hm => h.stamped m (List.mem_of_mem_take hm)
      params := fun m hm => h.params m (List.mem_of_mem_take hm) }
  have hmem : msgs[n] ∈ msgs := List.getElem_mem n.isLt
  have hid := h.stamped _ hmem
  have hparams := (after_resolved hhook l (msgs.take n) msgs[n].channelID).trans
    (h.params _ hmem)
  have hstep := hhook.answers (hid ▸ h.tracked) hparams (hid ▸ after_follows hhook hbefore)
  rw [hid] at hstep
  exact hstep

theorem closes_iff_first (hhook : AnswersFrom hook)
    (h : OneInteraction l interactionID k w msgs) (n : Fin msgs.length) :
    (l.outcomeAt hook msgs n).closes = true ↔
      IsLeast {i : Fin msgs.length | QuorumAt k w (history (msgs.take (i + 1)))} n := by
  have hbefore := reached_history k w msgs n (Nat.le_of_lt n.isLt)
  rw [EndVoteLayer.outcomeAt, (outcomeAt_answers hhook h n).closes, ← history_take_succ,
    Bool.and_eq_true, Bool.not_eq_true', ← Bool.not_eq_true, hbefore, decide_eq_true_eq]
  constructor
  · rintro ⟨hnone, hq⟩
    refine ⟨hq, ?_⟩
    intro i hi
    by_contra hlt
    exact hnone ⟨i, not_le.mp hlt, hi⟩
  · rintro ⟨hq, hleast⟩
    refine ⟨?_, hq⟩
    rintro ⟨i, hi, hqi⟩
    exact absurd (hleast hqi) (not_le.mpr hi)

end run

/-- The interaction closes at the first vote at which at least `k` senders have their latest
vote among the last `w` publishes, as it would if turns were counted from its start; later
publishes are suppressed; a quorum above the window is never met. -/
theorem end_vote_quorum {l : EndVoteLayer} {interactionID : String} {k w : ℤ}
    {msgs : List ChannelMessage} (h : OneInteraction l interactionID k w msgs)
    (n : Fin msgs.length) :
    ((l.outcomeAt EndVoteLayer.processEndVoteLocked msgs n).closes = true ↔
      IsLeast {i : Fin msgs.length | QuorumAt k w (history (msgs.take (i + 1)))} n) ∧
    (l.outcomeAt EndVoteLayer.processEndVoteLocked msgs n).closes =
      (l.outcomeAt EndVoteLayer.processFromStartLocked msgs n).closes ∧
    (∀ autonomous, (l.outcomeAt EndVoteLayer.processEndVoteLocked msgs n).suppresses autonomous =
      (l.outcomeAt EndVoteLayer.processFromStartLocked msgs n).suppresses autonomous) ∧
    ((l.outcomeAt EndVoteLayer.processEndVoteLocked msgs n).closes = true →
      ∀ later, n < later → ∀ autonomous,
        (l.outcomeAt EndVoteLayer.processEndVoteLocked msgs later).suppresses autonomous = true) ∧
    (w < k → (l.outcomeAt EndVoteLayer.processEndVoteLocked msgs n).closes = false) := by
  have hlazy := outcomeAt_answers processEndVoteLocked_answersFrom h n
  have hstart := outcomeAt_answers processFromStartLocked_answersFrom h n
  have hfirst := closes_iff_first processEndVoteLocked_answersFrom h n
  refine ⟨hfirst, ?_, ?_, ?_, ?_⟩
  · exact hlazy.closes.trans hstart.closes.symm
  · intro autonomous
    exact (hlazy.suppresses autonomous).trans (hstart.suppresses autonomous).symm
  · intro hclose later hlater autonomous
    have hq := (hfirst.mp hclose).1
    have hreached := (reached_history k w msgs later (Nat.le_of_lt later.isLt)).mpr ⟨n, hlater, hq⟩
    have hanswers := outcomeAt_answers processEndVoteLocked_answersFrom h later
    rw [EndVoteLayer.outcomeAt, hanswers.suppresses autonomous, reached, hreached]
    rfl
  · intro hlt
    have hw : 0 ≤ w := by
      have hparams : l.resolvedEndVoteParamsLocked msgs[n].channelID = (k, w) :=
        h.params _ (List.getElem_mem n.isLt)
      have hpos := (l.resolved_pos msgs[n].channelID).2
      rw [hparams] at hpos
      exact Int.le_of_lt hpos
    rw [Bool.eq_false_iff]
    intro hclose
    exact not_quorumAt_of_lt hw hlt _ (hfirst.mp hclose).1

/-- A tracked publish on a group channel. -/
def trackedPublish (interactionID senderID : String) (vote : Bool) : ChannelMessage where
  channelID := "group:dev"
  senderID := senderID
  metadata := (AList.insert interactionIDMetadataKey (.str interactionID)
    (AList.insert endVoteMetadataKey (.bool vote) ∅))

/-- Two votes with a reply between them, under the default quorum and window. -/
def twoVotes : List ChannelMessage :=
  [trackedPublish "int-1" "alice" true, trackedPublish "int-1" "bob" false,
    trackedPublish "int-1" "carol" true]

theorem end_vote_quorum_two_votes :
    (({} : EndVoteLayer).outcomeAt EndVoteLayer.processEndVoteLocked twoVotes ⟨2, by decide⟩).closes = true ∧
      IsLeast {i : Fin twoVotes.length | QuorumAt 2 3 (history (twoVotes.take (i + 1)))} ⟨2, by decide⟩ := by
  have h := @end_vote_quorum {} "int-1" 2 3 twoVotes
    ⟨by decide, rfl, rfl, by decide, by decide⟩ ⟨2, by decide⟩
  exact ⟨by decide, h.1.mp (by decide)⟩
end Persatrix.Channels
