import Persatrix.ReplyBudget
import Persatrix.System
import Mathlib.Data.List.Count

/-!
# Reply slots of concurrent publishes

A publish reserves a slot, is stored or not, and gives the slot back when it was not. Each of these
is a step of its own, taken in any order with those of other publishes. The counters hold what was
stored and what is reserved.
-/
namespace Persatrix.Channels

/-- A publish that passed the gate, until it is stored or its slot is released. -/
structure Flight where
  msg : ChannelMessage
  reserved : Bool
  failed : Bool := false

structure Publishing where
  layer : ReplyBudgetLayer
  flights : List Flight := []
  persisted : List ChannelMessage := []

inductive PublishEvent where
  | admission (msg : ChannelMessage)
  | stored (n : ℕ)
  | failed (n : ℕ)
  | released (n : ℕ)
  | setReplyBudget (channelID : String) (k : ℤ)
  | discard (interactionID : String)

namespace Publishing

def admission (s : Publishing) (msg : ChannelMessage) : Publishing :=
  match s.layer.enforceReplyBudget msg with
  | .error _ => s
  | .ok (layer, reserved) => { s with layer, flights := s.flights ++ [⟨msg, reserved, false⟩] }

def stored (s : Publishing) (n : ℕ) : Option Publishing := do
  let f ← s.flights[n]?
  if f.failed then none
  else some { s with flights := s.flights.eraseIdx n, persisted := s.persisted ++ [f.msg] }

/-- A publish that reserved a slot has still to release it. -/
def failed (s : Publishing) (n : ℕ) : Option Publishing := do
  let f ← s.flights[n]?
  if f.failed then none
  else if f.reserved then some { s with flights := s.flights.set n { f with failed := true } }
  else some { s with flights := s.flights.eraseIdx n }

def released (s : Publishing) (n : ℕ) : Option Publishing := do
  let f ← s.flights[n]?
  if f.failed then
    some { s with
      layer := s.layer.releaseReplyReservation f.msg.interactionID f.msg.senderID
      flights := s.flights.eraseIdx n }
  else none

end Publishing

def publishing (start : ReplyBudgetLayer) : System Publishing PublishEvent where
  init := { layer := start }
  step := fun s e => match e with
    | .admission msg => some (s.admission msg)
    | .stored n => s.stored n
    | .failed n => s.failed n
    | .released n => s.released n
    | .setReplyBudget channelID k => some { s with layer := s.layer.setReplyBudget channelID k }
    | .discard interactionID =>
      some { s with layer := s.layer.discardInteractionReplyBudget interactionID }

/-- The interaction stays in its channel, is not discarded, and the budget is fixed. -/
def PublishEvent.Fixed (channelID interactionID : String) : PublishEvent → Prop
  | .admission msg => msg.interactionID = interactionID → msg.channelID = channelID
  | .setReplyBudget channel _ => channel ≠ channelID
  | .discard id => id ≠ interactionID
  | _ => True

instance (channelID interactionID : String) (e : PublishEvent) :
    Decidable (e.Fixed channelID interactionID) := by
  cases e <;> unfold PublishEvent.Fixed <;> infer_instance

/-- A publish in the interaction that counts for the participant: not a vote, and not of an exempt
participant type. -/
def replyOf (l : ReplyBudgetLayer) (interactionID participant : String) (msg : ChannelMessage) :
    Bool :=
  msg.interactionID = interactionID && msg.senderID = participant && !msg.isVote &&
    !l.isExemptParticipantType (readParticipantType msg.metadata)

/-- A slot that the participant holds in the interaction. -/
def holds (interactionID participant : String) (f : Flight) : Bool :=
  f.reserved && f.msg.interactionID = interactionID && f.msg.senderID = participant

namespace Publishing

def persistedReplies (s : Publishing) (interactionID participant : String) : ℕ :=
  s.persisted.countP (replyOf s.layer interactionID participant)

def reservedReplies (s : Publishing) (interactionID participant : String) : ℕ :=
  s.flights.countP (holds interactionID participant)

/-- What the budget of an interaction promises at every moment. -/
structure Counts (channelID interactionID : String) (k : ℤ) (s : Publishing) : Prop where
  bounded : ∀ p, (s.persistedReplies interactionID p : ℤ) ≤ k
  exact : ∀ p, s.layer.counted interactionID p =
    s.persistedReplies interactionID p + s.reservedReplies interactionID p
  admits : ∀ msg : ChannelMessage, msg.interactionID = interactionID → msg.channelID = channelID →
    (s.persistedReplies interactionID msg.senderID : ℤ) +
      s.reservedReplies interactionID msg.senderID < k →
    ∃ r, s.layer.enforceReplyBudget msg = .ok r

/-- The counters are exact and within the budget, and a slot is held by what counts. -/
structure Exact (channelID interactionID : String) (k : ℤ) (s : Publishing) : Prop where
  budget : s.layer.replyBudgetFor channelID = k
  counted : ∀ p, s.layer.counted interactionID p =
    s.persistedReplies interactionID p + s.reservedReplies interactionID p
  within : ∀ p, s.layer.counted interactionID p ≤ k
  slots : ∀ f ∈ s.flights, f.msg.interactionID = interactionID →
    f.reserved = replyOf s.layer interactionID f.msg.senderID f.msg
  owed : ∀ f ∈ s.flights, f.failed = true → f.reserved = true

end Publishing

/-! ### The counters of one interaction -/

theorem replyOf_congr {l l' : ReplyBudgetLayer}
    (h : l'.exemptParticipantTypes = l.exemptParticipantTypes) (interactionID p : String) :
    replyOf l' interactionID p = replyOf l interactionID p := by
  funext msg
  unfold replyOf ReplyBudgetLayer.isExemptParticipantType
  rw [h]

namespace ReplyBudgetLayer
variable (l : ReplyBudgetLayer) {interactionID other : String}

theorem counted_reserve_other (h : interactionID ≠ other) (sender p : String) :
    (l.reserve other sender).counted interactionID p = l.counted interactionID p :=
  (l.counted_insert other _ interactionID p).trans (if_neg h)

theorem counted_release_other (h : interactionID ≠ other) (sender p : String) :
    (l.releaseReplyReservation other sender).counted interactionID p =
      l.counted interactionID p := by
  unfold releaseReplyReservation
  cases l.replyCounts.lookup other with
  | none => rfl
  | some counts =>
    dsimp only
    split_ifs
    · rfl
    · exact (l.counted_erase other interactionID p).trans (if_neg h)
    · exact (l.counted_insert other _ interactionID p).trans (if_neg h)
    · exact (l.counted_erase other interactionID p).trans (if_neg h)
    · exact (l.counted_insert other _ interactionID p).trans (if_neg h)

theorem counted_discard_other (h : interactionID ≠ other) (p : String) :
    (l.discardInteractionReplyBudget other).counted interactionID p =
      l.counted interactionID p := by
  unfold discardInteractionReplyBudget
  split_ifs
  · rfl
  · exact (l.counted_erase other interactionID p).trans (if_neg h)

theorem release_budget (channelID sender : String) :
    (l.releaseReplyReservation interactionID sender).replyBudgetFor channelID =
      l.replyBudgetFor channelID := by
  unfold replyBudgetFor
  rw [(l.release_config interactionID sender).1]

theorem discard_config :
    (l.discardInteractionReplyBudget interactionID).replyBudgets = l.replyBudgets ∧
      (l.discardInteractionReplyBudget interactionID).exemptParticipantTypes =
        l.exemptParticipantTypes := by
  unfold discardInteractionReplyBudget
  split_ifs
  · exact ⟨rfl, rfl⟩
  · exact ⟨rfl, rfl⟩

/-- What the gate answers: a refusal, a pass, or a slot for what counts. -/
theorem enforceReplyBudget_ok {l l' : ReplyBudgetLayer} {msg : ChannelMessage} {reserved : Bool}
    (h : l.enforceReplyBudget msg = .ok (l', reserved)) :
    (l' = l ∧ reserved = false) ∨
      (l' = l.reserve msg.interactionID msg.senderID ∧ reserved = true) := by
  unfold enforceReplyBudget at h
  dsimp only at h
  split_ifs at h
  · cases h
    exact .inl ⟨rfl, rfl⟩
  · cases h
    exact .inl ⟨rfl, rfl⟩
  · cases h
    exact .inl ⟨rfl, rfl⟩
  · cases h
    exact .inr ⟨rfl, rfl⟩

end ReplyBudgetLayer

/-- Taking the element at an index out of a list, or replacing it. -/
theorem split_at {α : Type} {l : List α} {n : ℕ} {a : α} (h : l[n]? = some a) :
    ∃ before after, l = before ++ a :: after ∧ l.eraseIdx n = before ++ after ∧
      ∀ b, l.set n b = before ++ b :: after := by
  obtain ⟨hn, rfl⟩ := List.getElem?_eq_some_iff.mp h
  refine ⟨l.take n, l.drop (n + 1), ?_, List.eraseIdx_eq_take_drop_succ .., fun b => ?_⟩
  · rw [List.cons_getElem_drop_succ, List.take_append_drop]
  · rw [List.set_eq_take_append_cons_drop, if_pos hn]

theorem mem_of_split {α : Type} {l before after : List α} {a b : α}
    (h : l = before ++ a :: after) (hb : b ∈ before ++ after) : b ∈ l := by
  rw [h]
  exact List.mem_append.mpr ((List.mem_append.mp hb).imp_right (List.mem_cons_of_mem a))

/-- The gate on the channel of the interaction. -/
theorem enforceReplyBudget_spec {l : ReplyBudgetLayer} {msg : ChannelMessage} {k : ℤ}
    (hid : msg.interactionID ≠ "") (hk : 0 < k) (hbudget : l.replyBudgetFor msg.channelID = k) :
    l.enforceReplyBudget msg =
      if replyOf l msg.interactionID msg.senderID msg = true then
        if k ≤ l.counted msg.interactionID msg.senderID then
          .error ⟨msg.senderID, k, msg.interactionID⟩
        else .ok (l.reserve msg.interactionID msg.senderID, true)
      else .ok (l, false) := by
  have hpositive : ¬k ≤ 0 := not_le.mpr hk
  unfold ReplyBudgetLayer.enforceReplyBudget replyOf
  cases msg.isVote with
  | true => simp [hid]
  | false =>
    cases l.isExemptParticipantType (readParticipantType msg.metadata) with
    | true => simp [hid]
    | false => simp [hid, hbudget, hpositive]

namespace Publishing
variable {channelID interactionID : String} {k : ℤ} {s t : Publishing}

theorem Exact.holds_eq (h : s.Exact channelID interactionID k) {f : Flight} (hf : f ∈ s.flights)
    (p : String) : holds interactionID p f = replyOf s.layer interactionID p f.msg := by
  unfold holds
  by_cases hid : f.msg.interactionID = interactionID
  · rw [h.slots f hf hid]
    unfold replyOf
    by_cases hp : f.msg.senderID = p
    · simp [hid, hp]
    · simp [hid, hp]
  · simp [hid, replyOf]

theorem Exact.counts (h : s.Exact channelID interactionID k) (hid : interactionID ≠ "")
    (hk : 0 < k) : s.Counts channelID interactionID k where
  bounded := by
    intro p
    have hcounted := h.counted p
    have hwithin := h.within p
    omega
  exact := h.counted
  admits := by
    rintro msg rfl rfl hroom
    rw [← h.counted msg.senderID] at hroom
    rw [enforceReplyBudget_spec hid hk h.budget, if_neg (not_le.mpr hroom)]
    split_ifs
    · exact ⟨_, rfl⟩
    · exact ⟨_, rfl⟩

/-- A step that leaves the counters of the interaction and its flights as they are. -/
theorem Exact.relayer (h : s.Exact channelID interactionID k) {layer : ReplyBudgetLayer}
    (hbudget : layer.replyBudgetFor channelID = s.layer.replyBudgetFor channelID)
    (hexempt : layer.exemptParticipantTypes = s.layer.exemptParticipantTypes)
    (hcounted : ∀ p, layer.counted interactionID p = s.layer.counted interactionID p) :
    Exact channelID interactionID k { s with layer } where
  budget := hbudget.trans h.budget
  counted := by
    intro p
    unfold persistedReplies reservedReplies
    dsimp only
    rw [hcounted, replyOf_congr hexempt]
    exact h.counted p
  within := fun p => by
    rw [hcounted]
    exact h.within p
  slots := by
    intro f hf hid
    rw [replyOf_congr hexempt]
    exact h.slots f hf hid
  owed := h.owed

/-- A flight that leaves without having held a slot in the interaction. -/
theorem Exact.remove (h : s.Exact channelID interactionID k) {before after : List Flight}
    {f : Flight} (hflights : s.flights = before ++ f :: after)
    (hfree : ∀ p, holds interactionID p f = false) :
    Exact channelID interactionID k { s with flights := before ++ after } where
  budget := h.budget
  counted := by
    intro p
    have hcounted := h.counted p
    unfold persistedReplies reservedReplies at hcounted ⊢
    rw [hflights, List.countP_append, List.countP_cons_of_neg (by simp [hfree p])] at hcounted
    dsimp only
    rw [hcounted, List.countP_append]
  within := h.within
  slots := fun g hg => h.slots g (mem_of_split hflights hg)
  owed := fun g hg => h.owed g (mem_of_split hflights hg)

/-- A flight that joins. -/
theorem Exact.append (h : s.Exact channelID interactionID k) {f : Flight}
    (hfree : ∀ p, holds interactionID p f = false)
    (hslot : f.msg.interactionID = interactionID →
      f.reserved = replyOf s.layer interactionID f.msg.senderID f.msg) (hfailed : f.failed = false) :
    Exact channelID interactionID k { s with flights := s.flights ++ [f] } where
  budget := h.budget
  counted := by
    intro p
    have hcounted := h.counted p
    unfold persistedReplies reservedReplies at hcounted ⊢
    dsimp only
    rw [hcounted, List.countP_append, List.countP_cons_of_neg (by simp [hfree p])]
    simp
  within := h.within
  slots := by
    intro g hg
    rcases List.mem_append.mp hg with hg | hg
    · exact h.slots g hg
    · rw [List.mem_singleton.mp hg]
      exact hslot
  owed := by
    intro g hg
    rcases List.mem_append.mp hg with hg | hg
    · exact h.owed g hg
    · rw [List.mem_singleton.mp hg, hfailed]
      intro habsurd
      cases habsurd

/-- A reply that finds a free slot: the counter and the flights both grow by it. -/
theorem Exact.reserve (h : s.Exact channelID interactionID k) {msg : ChannelMessage}
    (hmsg : msg.interactionID = interactionID)
    (hreply : replyOf s.layer interactionID msg.senderID msg = true)
    (hfree : s.layer.counted interactionID msg.senderID < k) :
    Exact channelID interactionID k
      { s with layer := s.layer.reserve interactionID msg.senderID,
               flights := s.flights ++ [⟨msg, true, false⟩] } := by
  have hreserved : ∀ p, (s.layer.reserve interactionID msg.senderID).counted interactionID p =
      s.layer.counted interactionID p + if p = msg.senderID then 1 else 0 :=
    s.layer.counted_reserve interactionID msg.senderID
  have hreplyOf : ∀ p, replyOf (s.layer.reserve interactionID msg.senderID) interactionID p =
      replyOf s.layer interactionID p := replyOf_congr rfl interactionID
  refine ⟨h.budget, fun p => ?_, fun p => ?_, fun f hf => ?_, fun f hf => ?_⟩
  · have hcounted := h.counted p
    unfold persistedReplies reservedReplies at hcounted ⊢
    dsimp only
    rw [hreserved, hreplyOf, hcounted, List.countP_append, List.countP_singleton]
    by_cases hp : p = msg.senderID
    · subst hp
      simp [holds, hmsg]
      ring
    · simp [holds, hp, Ne.symm hp]
  · dsimp only
    rw [hreserved]
    have hwithin := h.within p
    by_cases hp : p = msg.senderID
    · rw [if_pos hp, hp]
      omega
    · rw [if_neg hp]
      omega
  · dsimp only
    rw [hreplyOf]
    rcases List.mem_append.mp hf with hf | hf
    · exact h.slots f hf
    · rw [List.mem_singleton.mp hf]
      exact fun _ => hreply.symm
  · rcases List.mem_append.mp hf with hf | hf
    · exact h.owed f hf
    · rw [List.mem_singleton.mp hf]
      exact fun _ => rfl

/-- A message of the interaction at the gate. -/
theorem Exact.admission_within (h : s.Exact channelID interactionID k) (hid : interactionID ≠ "")
    (hk : 0 < k) {msg : ChannelMessage} (hmsg : msg.interactionID = interactionID)
    (hchannel : msg.channelID = channelID) :
    (s.admission msg).Exact channelID interactionID k := by
  have hspec := @enforceReplyBudget_spec s.layer msg k (by rwa [hmsg]) hk
    (by rw [hchannel]; exact h.budget)
  unfold Publishing.admission
  rw [hspec]
  by_cases hreply : replyOf s.layer msg.interactionID msg.senderID msg = true
  · rw [if_pos hreply]
    by_cases hfull : k ≤ s.layer.counted msg.interactionID msg.senderID
    · rw [if_pos hfull]
      exact h
    · rw [if_neg hfull]
      rw [hmsg] at hreply hfull ⊢
      exact h.reserve hmsg hreply (not_le.mp hfull)
  · rw [if_neg hreply]
    rw [hmsg, Bool.not_eq_true] at hreply
    exact h.append (fun p => rfl) (fun _ => hreply.symm) rfl

/-- A message of another interaction at the gate. -/
theorem Exact.admission_other (h : s.Exact channelID interactionID k) {msg : ChannelMessage}
    (hmsg : msg.interactionID ≠ interactionID) :
    (s.admission msg).Exact channelID interactionID k := by
  unfold Publishing.admission
  cases hgate : s.layer.enforceReplyBudget msg with
  | error err => exact h
  | ok r =>
    obtain ⟨layer, reserved⟩ := r
    have hfree : ∀ p, holds interactionID p ⟨msg, reserved, false⟩ = false := by
      intro p
      simp [holds, hmsg]
    rcases ReplyBudgetLayer.enforceReplyBudget_ok hgate with ⟨rfl, -⟩ | ⟨rfl, -⟩
    · exact h.append hfree (fun heq => absurd heq hmsg) rfl
    · have hlayer : Exact channelID interactionID k
          { s with layer := s.layer.reserve msg.interactionID msg.senderID } :=
        h.relayer rfl rfl (s.layer.counted_reserve_other (Ne.symm hmsg) msg.senderID)
      exact hlayer.append hfree (fun heq => absurd heq hmsg) rfl

theorem Exact.admission (h : s.Exact channelID interactionID k) (hid : interactionID ≠ "")
    (hk : 0 < k) {msg : ChannelMessage}
    (hchannel : msg.interactionID = interactionID → msg.channelID = channelID) :
    (s.admission msg).Exact channelID interactionID k := by
  by_cases hmsg : msg.interactionID = interactionID
  · exact h.admission_within hid hk hmsg (hchannel hmsg)
  · exact h.admission_other hmsg

/-- The flight at an index, and what the index selects. -/
theorem flight_cases {n : ℕ} {next : Flight → Option Publishing}
    (h : (s.flights[n]?).bind next = some t) :
    ∃ f before after, f ∈ s.flights ∧ s.flights = before ++ f :: after ∧
      s.flights.eraseIdx n = before ++ after ∧
      (∀ g, s.flights.set n g = before ++ g :: after) ∧ next f = some t := by
  obtain ⟨f, hf, hnext⟩ := Option.bind_eq_some_iff.mp h
  obtain ⟨before, after, hflights, herase, hset⟩ := split_at hf
  exact ⟨f, before, after, List.mem_of_getElem? hf, hflights, herase, hset, hnext⟩

theorem Exact.stored (h : s.Exact channelID interactionID k) {n : ℕ} (hstep : s.stored n = some t) :
    t.Exact channelID interactionID k := by
  obtain ⟨f, before, after, hf, hflights, herase, -, hnext⟩ := flight_cases hstep
  split_ifs at hnext with hfailed
  cases hnext
  refine ⟨h.budget, fun p => ?_, h.within, fun g hg => h.slots g ?_, fun g hg => h.owed g ?_⟩
  · have hcounted := h.counted p
    have hholds := h.holds_eq hf p
    unfold persistedReplies reservedReplies at hcounted ⊢
    dsimp only
    rw [hflights, List.countP_append, List.countP_cons, hholds] at hcounted
    rw [hcounted, herase, List.countP_append, List.countP_append, List.countP_singleton]
    push_cast
    ring
  · exact List.mem_of_mem_eraseIdx hg
  · exact List.mem_of_mem_eraseIdx hg

theorem Exact.failed (h : s.Exact channelID interactionID k) {n : ℕ} (hstep : s.failed n = some t) :
    t.Exact channelID interactionID k := by
  obtain ⟨f, before, after, hf, hflights, herase, hset, hnext⟩ := flight_cases hstep
  split_ifs at hnext with hfailed hreserved
  · cases hnext
    rw [hset]
    have hmem : ∀ g ∈ before ++ { f with failed := true } :: after,
        g ∈ s.flights ∨ g = { f with failed := true } := by
      intro g hg
      rw [hflights]
      simp only [List.mem_append, List.mem_cons] at hg ⊢
      tauto
    refine ⟨h.budget, fun p => ?_, h.within, fun g hg => ?_, fun g hg => ?_⟩
    · have hcounted := h.counted p
      unfold persistedReplies reservedReplies at hcounted ⊢
      rw [hflights, List.countP_append, List.countP_cons] at hcounted
      dsimp only
      rw [hcounted, List.countP_append, List.countP_cons]
      rfl
    · rcases hmem g hg with hg | rfl
      · exact h.slots g hg
      · exact h.slots f hf
    · rcases hmem g hg with hg | rfl
      · exact h.owed g hg
      · exact fun _ => hreserved
  · cases hnext
    rw [herase]
    exact h.remove hflights fun p => by simp [holds, hreserved]

/-- A flight of the interaction that gives its slot back: the counter and the flights both shrink
by it. -/
theorem Exact.release (h : s.Exact channelID interactionID k) {before after : List Flight}
    {f : Flight} (hflights : s.flights = before ++ f :: after)
    (hid : f.msg.interactionID = interactionID) (hslot : f.reserved = true) :
    Exact channelID interactionID k
      { s with layer := s.layer.releaseReplyReservation interactionID f.msg.senderID,
               flights := before ++ after } := by
  have hreserved : ∀ p, (s.flights.countP (holds interactionID p) : ℤ) =
      (before ++ after).countP (holds interactionID p) + if p = f.msg.senderID then 1 else 0 := by
    intro p
    have hholds : holds interactionID p f = decide (f.msg.senderID = p) := by
      simp [holds, hslot, hid]
    rw [hflights, List.countP_append, List.countP_cons, hholds, List.countP_append]
    by_cases hp : p = f.msg.senderID
    · simp [hp]
      ring
    · simp [hp, Ne.symm hp]
  -- the slot is counted, so that the release takes it back
  have hheld : s.layer.counted interactionID f.msg.senderID ≠ 0 := by
    have hcounted := h.counted f.msg.senderID
    have hone := hreserved f.msg.senderID
    unfold persistedReplies reservedReplies at hcounted
    rw [if_pos rfl] at hone
    omega
  have hreleased : ∀ p, (s.layer.releaseReplyReservation interactionID
      f.msg.senderID).counted interactionID p =
        s.layer.counted interactionID p - if p = f.msg.senderID then 1 else 0 := by
    intro p
    rw [ReplyBudgetLayer.counted_release]
    by_cases hp : p = f.msg.senderID
    · rw [if_pos ⟨hp, hheld⟩, if_pos hp, hp]
    · rw [if_neg fun heq => hp heq.1, if_neg hp, sub_zero]
  have hexempt := (s.layer.release_config interactionID f.msg.senderID).2
  refine ⟨(s.layer.release_budget ..).trans h.budget, fun p => ?_, fun p => ?_, fun g hg => ?_,
    fun g hg => h.owed g (mem_of_split hflights hg)⟩
  · have hcounted := h.counted p
    have hrest := hreserved p
    unfold persistedReplies reservedReplies at hcounted ⊢
    dsimp only
    rw [hreleased, replyOf_congr hexempt, hcounted, hrest]
    ring
  · have hwithin := h.within p
    dsimp only
    rw [hreleased]
    split_ifs <;> omega
  · dsimp only
    rw [replyOf_congr hexempt]
    exact h.slots g (mem_of_split hflights hg)

theorem Exact.released (h : s.Exact channelID interactionID k) {n : ℕ}
    (hstep : s.released n = some t) : t.Exact channelID interactionID k := by
  obtain ⟨f, before, after, hf, hflights, herase, -, hnext⟩ := flight_cases hstep
  split_ifs at hnext with hfailed
  cases hnext
  rw [herase]
  by_cases hid : f.msg.interactionID = interactionID
  · rw [hid]
    exact h.release hflights hid (h.owed f hf hfailed)
  · have hlayer := h.relayer (s.layer.release_budget ..) (s.layer.release_config ..).2
      (s.layer.counted_release_other (Ne.symm hid) f.msg.senderID)
    exact hlayer.remove hflights fun p => by simp [holds, hid]

theorem Exact.step {start : ReplyBudgetLayer} {e : PublishEvent}
    (h : s.Exact channelID interactionID k) (hid : interactionID ≠ "") (hk : 0 < k)
    (hfixed : e.Fixed channelID interactionID) (hstep : (publishing start).step s e = some t) :
    t.Exact channelID interactionID k := by
  cases e with
  | admission msg =>
    cases hstep
    exact h.admission hid hk hfixed
  | stored n => exact h.stored hstep
  | failed n => exact h.failed hstep
  | released n => exact h.released hstep
  | setReplyBudget channel k' =>
    cases hstep
    refine h.relayer ?_ rfl fun p => rfl
    unfold ReplyBudgetLayer.replyBudgetFor ReplyBudgetLayer.setReplyBudget
    rw [GoMap.lookup_insert, if_neg (Ne.symm hfixed)]
  | discard id =>
    cases hstep
    obtain ⟨hbudgets, hexempt⟩ := @ReplyBudgetLayer.discard_config s.layer id
    refine h.relayer ?_ hexempt (s.layer.counted_discard_other (Ne.symm hfixed))
    unfold ReplyBudgetLayer.replyBudgetFor
    rw [hbudgets]

end Publishing

/-- However the publishes of an interaction interleave, its counters hold what was stored and what
is reserved, no participant has more stored than the budget, and none is refused below it. -/
theorem reservations_count {start : ReplyBudgetLayer} {channelID interactionID : String} {k : ℤ}
    (hid : interactionID ≠ "") (hk : 0 < k) (hbudget : start.replyBudgetFor channelID = k)
    (hnew : start.replyCounts.lookup interactionID = none) {s : Publishing}
    (hrun : (publishing start).Reaches (fun _ e => e.Fixed channelID interactionID) s) :
    s.Counts channelID interactionID k := by
  have hexact : s.Exact channelID interactionID k := by
    refine System.Reaches.invariant ?_ (fun s e t hs hfixed hstep => hs.step hid hk hfixed hstep)
      hrun
    have hzero : ∀ p, start.counted interactionID p = 0 := by
      intro p
      unfold ReplyBudgetLayer.counted
      rw [hnew]
      rfl
    refine ⟨hbudget, hzero, fun p => ?_, fun f hf => absurd hf List.not_mem_nil,
      fun f hf => absurd hf List.not_mem_nil⟩
    exact (hzero p).trans_le hk.le
  exact hexact.counts hid hk

/-- A reply of a participant in the interaction. -/
def replyIn (channelID senderID interactionID : String) : ChannelMessage where
  channelID := channelID
  senderID := senderID
  metadata := AList.insert interactionIDMetadataKey (.str interactionID) ∅

/-- Two publishes at once, of which one is refused by the store and released late. -/
def concurrentReplies : List PublishEvent :=
  [.admission (replyIn "room" "ada" "talk"), .admission (replyIn "room" "ada" "talk"),
    .admission (replyIn "room" "ada" "talk"), .failed 0, .stored 1, .discard "other",
    .setReplyBudget "hall" 0, .released 0, .admission (replyIn "room" "ada" "talk")]

theorem reservations_count_concurrent : ∃ s : Publishing, s.persisted.length = 1 ∧
    s.flights.length = 1 ∧ s.Counts "room" "talk" 2 := by
  obtain ⟨s, hexec, hlength⟩ : ∃ s,
      ((publishing (({} : ReplyBudgetLayer).setReplyBudget "room" 2)).guarded
        fun _ e => e.Fixed "room" "talk").exec concurrentReplies = some s ∧
        s.persisted.length = 1 ∧ s.flights.length = 1 :=
    System.exists_of_exec (by decide)
  exact ⟨s, hlength.1, hlength.2, reservations_count (by decide) (by decide) rfl rfl
    (System.reachable_exec hexec).of_guarded⟩

end Persatrix.Channels
