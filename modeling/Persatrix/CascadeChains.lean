import Persatrix.GoValues
import Persatrix.System
import Mathlib.Data.List.Chain
import Mathlib.Tactic.Linarith

/-!
# The hop count of a message

A publish carries a claim of how many hops it is from the start of its chain. The router clamps
the claim to the cap of the channel, keeps it with the message and fans out what is below the cap.
An agent that is handed a message publishes one hop further, with the count of its event.
-/
namespace Persatrix.Cascade

/-- `metadata["cascade_depth"]`: it may be missing, `null`, no number, or a number, which is cut to
an integer. -/
inductive DepthClaim where
  | absent
  | null
  | malformed
  | number (n : ℤ)
deriving DecidableEq

def readCascadeDepth : DepthClaim → ℤ
  | .number n => n
  | _ => 0

def clampCascadeDepth (inbound cap : ℤ) : ℤ :=
  if inbound < 0 then 0 else if cap < inbound then cap else inbound

/-- The cap of the fleet, and those of channels that have their own. -/
structure Caps where
  fleet : ℤ
  channels : GoMap String ℤ

def Caps.maxCascadeDepthFor (caps : Caps) (channelID : String) : ℤ :=
  (caps.channels.lookup channelID).getD caps.fleet

/-- A publish that an agent makes while it handles an event. -/
inductive Publish where
  | send
  | endVote
  | errorReply
deriving DecidableEq

/-- A stored message, and the message whose delivery was handled when it was published. -/
structure Message where
  channelID : String
  depth : DepthClaim
  cause : Option (ℕ × Publish)
deriving DecidableEq

def Message.cascadeDepth (m : Message) : ℤ := readCascadeDepth m.depth

/-- An event at an agent: of a message, or of a directive that is no message; a close notification
is marked. -/
structure Delivery where
  message : Option ℕ
  cascadeDepth : ℤ
  closing : Bool
deriving DecidableEq

structure State where
  messages : List Message
  fanned : List ℕ
  inFlight : List Delivery
  handling : List Delivery
deriving DecidableEq

/-! ### The router -/

/-- What the other layers say of a publish: it is refused; it is stored and withheld (a latched
claim, a synthesis reply, an end vote that closes); it is a reply in a floor round; or none of
these. -/
inductive Verdict where
  | refused
  | withheld
  | inRound
  | clear
deriving DecidableEq

def publishCommit (caps : Caps) (verdict : Verdict) (m : Message) (s : State) : State :=
  let depthCap := caps.maxCascadeDepthFor m.channelID
  let clamped := clampCascadeDepth m.cascadeDepth depthCap
  let stored := if clamped ≠ m.cascadeDepth ∨ m.depth ≠ .absent ∧ m.depth ≠ .null
    then .number clamped else m.depth
  if verdict = .refused then s
  else
    { s with
      messages := s.messages ++ [{ m with depth := stored }]
      fanned := if verdict = .clear ∧ ¬depthCap ≤ clamped then s.fanned ++ [s.messages.length]
        else s.fanned }

/-- The count on the wire is an `int32`. -/
def int32 (n : ℤ) : ℤ := n.bmod (2 ^ 32)

/-- The event of a stored message. -/
def channelMessageToProto (i : ℕ) (m : Message) (closing : Bool) : Delivery :=
  ⟨some i, int32 m.cascadeDepth, closing⟩

/-! ### The agent -/

/-- The claim in the body of a publish, which leaves a count of zero out. -/
def wireClaim (cascadeDepth : ℤ) : DepthClaim :=
  if cascadeDepth = 0 then .absent else .number cascadeDepth

/-- The count of a publish by an agent that handles the event. -/
def Publish.cascadeDepth (d : Delivery) : Publish → ℤ
  | .send => d.cascadeDepth + 1
  | .endVote => d.cascadeDepth + 1
  | .errorReply => 0

def validateRequestCascadeDepth : DepthClaim → Bool
  | .absent => true
  | .null => false
  | .malformed => false
  | .number n => 0 ≤ n

/-! ### The system -/

inductive Event where
  /-- Anyone else publishes, with any claim. -/
  | publish (channelID : String) (claim : DepthClaim) (verdict : Verdict)
  /-- The tail of a floor round fans its last reply out. -/
  | continueDiscussion (i : ℕ)
  /-- A message that is fanned out goes to a member, also once more to the chair. -/
  | dispatch (i : ℕ)
  | notifyInteractionClose (i : ℕ)
  | direct
  /-- The agent takes the event and drops it or begins to handle it. -/
  | receive (k : ℕ)
  /-- The agent publishes while it handles the event. -/
  | act (k : ℕ) (kind : Publish) (channelID : String) (verdict : Verdict)
  | finish (k : ℕ)

/-- The router takes a publish over its API. -/
def post (caps : Caps) (verdict : Verdict) (m : Message) (s : State) : State :=
  if validateRequestCascadeDepth m.depth then publishCommit caps verdict m s else s

def step (caps : Caps) (s : State) : Event → Option State
  | .publish channelID claim verdict => some (publishCommit caps verdict ⟨channelID, claim, none⟩ s)
  | .continueDiscussion i =>
    s.messages[i]?.map fun m =>
      if caps.maxCascadeDepthFor m.channelID ≤ m.cascadeDepth then s
      else { s with fanned := s.fanned ++ [i] }
  | .dispatch i =>
    if i ∈ s.fanned then
      s.messages[i]?.map fun m =>
        { s with inFlight := s.inFlight ++ [channelMessageToProto i m false] }
    else none
  | .notifyInteractionClose i =>
    s.messages[i]?.map fun m =>
      { s with inFlight := s.inFlight ++ [channelMessageToProto i m true] }
  | .direct => some { s with inFlight := s.inFlight ++ [⟨none, 0, false⟩] }
  | .receive k =>
    s.inFlight[k]?.map fun d =>
      if caps.fleet ≤ d.cascadeDepth then { s with inFlight := s.inFlight.eraseIdx k }
      else { s with inFlight := s.inFlight.eraseIdx k, handling := s.handling ++ [d] }
  | .act k kind channelID verdict =>
    s.handling[k]?.bind fun d =>
      if d.closing ∧ kind ≠ .errorReply then none
      else
        some (post caps verdict
          ⟨channelID, wireClaim (kind.cascadeDepth d), d.message.map fun i => (i, kind)⟩ s)
  | .finish k =>
    s.handling[k]?.map fun _ => { s with handling := s.handling.eraseIdx k }

def system (caps : Caps) : System State Event where
  init := ⟨[], [], [], []⟩
  step := step caps

end Persatrix.Cascade

/-!
## Chains of replies

What is stored is clamped, what is fanned out is below the cap, and an event has the count of its
message. A message that an agent publishes over a delivery is one hop further, unless it is an error
reply, which is published as the start of a chain.
-/
namespace Persatrix.Cascade

/-- The caps that the configuration may set. -/
structure Configured (caps : Caps) : Prop where
  fleet : 1 ≤ caps.fleet
  channels : ∀ id d, caps.channels.lookup id = some d → 1 ≤ d ∧ d ≤ caps.fleet

theorem Configured.capFor {caps : Caps} (h : Configured caps) (id : String) :
    1 ≤ caps.maxCascadeDepthFor id ∧ caps.maxCascadeDepthFor id ≤ caps.fleet := by
  unfold Caps.maxCascadeDepthFor
  cases hlookup : caps.channels.lookup id with
  | none => exact ⟨h.fleet, le_refl _⟩
  | some d => exact h.channels id d hlookup

theorem clampCascadeDepth_mem {inbound cap : ℤ} (h : 1 ≤ cap) :
    0 ≤ clampCascadeDepth inbound cap ∧ clampCascadeDepth inbound cap ≤ cap := by
  unfold clampCascadeDepth
  split_ifs <;> omega

theorem clampCascadeDepth_eq_min {inbound cap : ℤ} (h : 0 ≤ inbound) :
    clampCascadeDepth inbound cap = min cap inbound := by
  unfold clampCascadeDepth
  split_ifs <;> omega

theorem int32_of_fits {n : ℤ} (h : 0 ≤ n) (hfits : n < 2 ^ 31) : int32 n = n :=
  Int.bmod_eq_of_le (by omega) (by omega)

theorem readCascadeDepth_wireClaim (n : ℤ) : readCascadeDepth (wireClaim n) = n := by
  unfold wireClaim
  split
  · next h => exact h.symm
  · rfl

/-- The message as it is stored. -/
def stored (caps : Caps) (m : Message) : Message :=
  { m with
    depth :=
      if clampCascadeDepth m.cascadeDepth (caps.maxCascadeDepthFor m.channelID) ≠ m.cascadeDepth ∨
          m.depth ≠ .absent ∧ m.depth ≠ .null
      then .number (clampCascadeDepth m.cascadeDepth (caps.maxCascadeDepthFor m.channelID))
      else m.depth }

theorem cascadeDepth_stored (caps : Caps) (m : Message) : (stored caps m).cascadeDepth =
    clampCascadeDepth m.cascadeDepth (caps.maxCascadeDepthFor m.channelID) := by
  unfold stored Message.cascadeDepth
  dsimp only
  split_ifs with h
  · rfl
  · rw [not_or, ne_eq, not_not] at h
    exact h.1.symm

/-- A publish leaves the state as it is or stores the message, and fans it out only below its
cap. -/
theorem publishCommit_cases (caps : Caps) (verdict : Verdict) (m : Message) (s : State) :
    publishCommit caps verdict m s = s ∨
    publishCommit caps verdict m s = { s with messages := s.messages ++ [stored caps m] } ∨
    (stored caps m).cascadeDepth < caps.maxCascadeDepthFor m.channelID ∧
      publishCommit caps verdict m s = { s with
        messages := s.messages ++ [stored caps m]
        fanned := s.fanned ++ [s.messages.length] } := by
  rw [cascadeDepth_stored]
  unfold publishCommit
  dsimp only
  by_cases hrefused : verdict = .refused
  · exact .inl (if_pos hrefused)
  · rw [if_neg hrefused]
    by_cases hfan : verdict = .clear ∧ ¬caps.maxCascadeDepthFor m.channelID ≤
        clampCascadeDepth m.cascadeDepth (caps.maxCascadeDepthFor m.channelID)
    · rw [if_pos hfan]
      exact .inr (.inr ⟨not_le.mp hfan.2, rfl⟩)
    · rw [if_neg hfan]
      exact .inr (.inl rfl)

/-! ### The invariant -/

/-- The message was published over a delivery of the `i`th message. -/
structure Carried (caps : Caps) (s : State) (m : Message) (i : ℕ) (kind : Publish) : Prop where
  hop : ∃ p, s.messages[i]? = some p ∧ m.cascadeDepth =
    if kind = .errorReply then 0
    else min (caps.maxCascadeDepthFor m.channelID) (p.cascadeDepth + 1)
  fanned : kind ≠ .errorReply → i ∈ s.fanned

/-- The event is of a message that was stored, and of one that was fanned out unless it is marked. -/
structure Delivered (s : State) (d : Delivery) (i : ℕ) : Prop where
  message : ∃ p, s.messages[i]? = some p ∧ d.cascadeDepth = p.cascadeDepth
  fanned : d.closing = false → i ∈ s.fanned

structure Bounded (caps : Caps) (s : State) : Prop where
  within : ∀ m ∈ s.messages, 0 ≤ m.cascadeDepth ∧
    m.cascadeDepth ≤ caps.maxCascadeDepthFor m.channelID
  below : ∀ i ∈ s.fanned, ∃ m, s.messages[i]? = some m ∧
    m.cascadeDepth < caps.maxCascadeDepthFor m.channelID
  carried : ∀ m ∈ s.messages, ∀ i kind, m.cause = some (i, kind) → Carried caps s m i kind
  delivered : ∀ d ∈ s.inFlight ++ s.handling, ∀ i, d.message = some i → Delivered s d i

/-- Messages stay where they are and what was fanned out stays so. -/
structure Extends (s t : State) : Prop where
  messages : s.messages <+: t.messages
  fanned : s.fanned ⊆ t.fanned

section Extends
variable {caps : Caps} {s t : State}

theorem Extends.getElem (h : Extends s t) {i : ℕ} {m : Message} (hm : s.messages[i]? = some m) :
    t.messages[i]? = some m := by
  obtain ⟨rest, hrest⟩ := h.messages
  rw [← hrest, List.getElem?_append_left (List.getElem?_eq_some_iff.mp hm).1]
  exact hm

theorem Extends.carried (h : Extends s t) {m : Message} {i : ℕ} {kind : Publish}
    (hc : Carried caps s m i kind) : Carried caps t m i kind := by
  obtain ⟨p, hp, hdepth⟩ := hc.hop
  exact ⟨⟨p, h.getElem hp, hdepth⟩, fun hkind => h.fanned (hc.fanned hkind)⟩

theorem Extends.delivered (h : Extends s t) {d : Delivery} {i : ℕ} (hd : Delivered s d i) :
    Delivered t d i := by
  obtain ⟨p, hp, hdepth⟩ := hd.message
  exact ⟨⟨p, h.getElem hp, hdepth⟩, fun hclosing => h.fanned (hd.fanned hclosing)⟩

end Extends

section Steps
variable {caps : Caps} {s : State}

/-- Other events, where each is of a message. -/
theorem Bounded.events (h : Bounded caps s) {inFlight handling : List Delivery}
    (hnew : ∀ d ∈ inFlight ++ handling, ∀ i, d.message = some i → Delivered s d i) :
    Bounded caps { s with inFlight, handling } := by
  have hext : Extends s { s with inFlight, handling } := ⟨List.prefix_rfl, List.Subset.refl _⟩
  refine ⟨h.within, h.below, fun m hm i kind hcause => ?_, fun d hd i hmessage => ?_⟩
  · exact hext.carried (h.carried m hm i kind hcause)
  · exact hext.delivered (hnew d hd i hmessage)

theorem Bounded.fan (h : Bounded caps s) {i : ℕ} {m : Message} (hm : s.messages[i]? = some m)
    (hbelow : m.cascadeDepth < caps.maxCascadeDepthFor m.channelID) :
    Bounded caps { s with fanned := s.fanned ++ [i] } := by
  have hext : Extends s { s with fanned := s.fanned ++ [i] } :=
    ⟨List.prefix_rfl, List.subset_append_left _ _⟩
  refine ⟨h.within, fun j hj => ?_, fun n hn j kind hcause => ?_, fun d hd j hmessage => ?_⟩
  · rcases List.mem_append.mp hj with hj | hj
    · exact h.below j hj
    · rw [List.mem_singleton.mp hj]
      exact ⟨m, hm, hbelow⟩
  · exact hext.carried (h.carried n hn j kind hcause)
  · exact hext.delivered (h.delivered d hd j hmessage)

theorem Bounded.store (h : Bounded caps s) (hcaps : Configured caps) {m : Message}
    (hcause : ∀ i kind, m.cause = some (i, kind) → Carried caps s (stored caps m) i kind) :
    Bounded caps { s with messages := s.messages ++ [stored caps m] } := by
  have hext : Extends s { s with messages := s.messages ++ [stored caps m] } :=
    ⟨List.prefix_append _ _, List.Subset.refl _⟩
  refine ⟨fun n hn => ?_, fun i hi => ?_, fun n hn i kind hn' => ?_, fun d hd i hmessage => ?_⟩
  · rcases List.mem_append.mp hn with hn | hn
    · exact h.within n hn
    · rw [List.mem_singleton.mp hn, cascadeDepth_stored]
      exact clampCascadeDepth_mem (hcaps.capFor _).1
  · obtain ⟨n, hn, hbelow⟩ := h.below i hi
    exact ⟨n, hext.getElem hn, hbelow⟩
  · rcases List.mem_append.mp hn with hn | hn
    · exact hext.carried (h.carried n hn i kind hn')
    · rw [List.mem_singleton.mp hn] at hn' ⊢
      exact hext.carried (hcause i kind hn')
  · exact hext.delivered (h.delivered d hd i hmessage)

theorem Bounded.publishCommit (h : Bounded caps s) (hcaps : Configured caps) (verdict : Verdict)
    {m : Message}
    (hcause : ∀ i kind, m.cause = some (i, kind) → Carried caps s (stored caps m) i kind) :
    Bounded caps (publishCommit caps verdict m s) := by
  rcases publishCommit_cases caps verdict m s with hsame | hstored | ⟨hbelow, hfanned⟩
  · rw [hsame]
    exact h
  · rw [hstored]
    exact h.store hcaps hcause
  · rw [hfanned]
    exact (h.store hcaps hcause).fan List.getElem?_concat_length hbelow

/-- What an agent publishes over an event is of the right depth. -/
theorem Bounded.act (h : Bounded caps s) (hcaps : Configured caps) {d : Delivery}
    (hd : d ∈ s.handling) {kind : Publish} (hkind : ¬(d.closing ∧ kind ≠ .errorReply))
    (channelID : String) (verdict : Verdict) :
    Bounded caps (post caps verdict
      ⟨channelID, wireClaim (kind.cascadeDepth d), d.message.map fun i => (i, kind)⟩ s) := by
  unfold post
  split
  · refine h.publishCommit hcaps verdict fun i kind' hcause => ?_
    obtain ⟨j, hj, hpair⟩ := Option.map_eq_some_iff.mp hcause
    cases hpair
    have hdelivered := h.delivered d (List.mem_append_right _ hd) i hj
    obtain ⟨p, hp, hdepth⟩ := hdelivered.message
    have hpos := (h.within p (List.mem_of_getElem? hp)).1
    refine ⟨⟨p, hp, ?_⟩, fun hne => hdelivered.fanned ?_⟩
    · rw [cascadeDepth_stored]
      have hclaim : (Message.mk channelID (wireClaim (kind.cascadeDepth d))
          (d.message.map fun i => (i, kind))).cascadeDepth = kind.cascadeDepth d :=
        readCascadeDepth_wireClaim _
      rw [hclaim]
      have hcap := (hcaps.capFor channelID).1
      cases kind with
      | errorReply =>
        rw [if_pos rfl]
        change clampCascadeDepth 0 (caps.maxCascadeDepthFor channelID) = 0
        rw [clampCascadeDepth_eq_min (le_refl 0)]
        omega
      | send =>
        rw [if_neg (by decide), ← hdepth]
        exact clampCascadeDepth_eq_min (by change 0 ≤ d.cascadeDepth + 1; omega)
      | endVote =>
        rw [if_neg (by decide), ← hdepth]
        exact clampCascadeDepth_eq_min (by change 0 ≤ d.cascadeDepth + 1; omega)
    · cases hclosing : d.closing with
      | false => rfl
      | true => exact absurd ⟨hclosing, hne⟩ hkind
  · exact h

/-- An event of a stored message joins those in flight. -/
theorem Bounded.send (h : Bounded caps s) (hcaps : Configured caps) (hwire : caps.fleet < 2 ^ 31)
    {i : ℕ} {m : Message} (hm : s.messages[i]? = some m) {closing : Bool}
    (hfanned : closing = false → i ∈ s.fanned) :
    Bounded caps { s with inFlight := s.inFlight ++ [channelMessageToProto i m closing] } := by
  refine h.events fun d hd j hmessage => ?_
  rcases List.mem_append.mp hd with hd | hd
  · rcases List.mem_append.mp hd with hd | hd
    · exact h.delivered d (List.mem_append_left _ hd) j hmessage
    · rw [List.mem_singleton.mp hd] at hmessage ⊢
      cases hmessage
      have hwithin := h.within m (List.mem_of_getElem? hm)
      have hcap := (hcaps.capFor m.channelID).2
      exact ⟨⟨m, hm, int32_of_fits hwithin.1 (by omega)⟩, hfanned⟩
  · exact h.delivered d (List.mem_append_right _ hd) j hmessage

theorem Bounded.step (h : Bounded caps s) (hcaps : Configured caps) (hwire : caps.fleet < 2 ^ 31)
    {e : Event} {t : State} (hstep : step caps s e = some t) : Bounded caps t := by
  cases e with
  | publish channelID claim verdict =>
    cases hstep
    exact h.publishCommit hcaps verdict fun i kind hcause => by cases hcause
  | continueDiscussion i =>
    obtain ⟨m, hm, rfl⟩ := Option.map_eq_some_iff.mp hstep
    split
    · exact h
    · next hbelow => exact h.fan hm (not_le.mp hbelow)
  | dispatch i =>
    simp only [Cascade.step] at hstep
    split at hstep
    · next hfanned =>
        obtain ⟨m, hm, rfl⟩ := Option.map_eq_some_iff.mp hstep
        exact h.send hcaps hwire hm fun _ => hfanned
    · cases hstep
  | notifyInteractionClose i =>
    obtain ⟨m, hm, rfl⟩ := Option.map_eq_some_iff.mp hstep
    exact h.send hcaps hwire hm fun hclosing => by cases hclosing
  | direct =>
    cases hstep
    refine h.events fun d hd j hmessage => ?_
    rw [List.append_assoc, List.mem_append, List.mem_append] at hd
    rcases hd with hd | hd | hd
    · exact h.delivered d (List.mem_append_left _ hd) j hmessage
    · rw [List.mem_singleton.mp hd] at hmessage
      cases hmessage
    · exact h.delivered d (List.mem_append_right _ hd) j hmessage
  | receive k =>
    obtain ⟨d, hd, rfl⟩ := Option.map_eq_some_iff.mp hstep
    have hmem := List.mem_of_getElem? hd
    split
    · refine h.events fun d' hd' => h.delivered d' ?_
      rcases List.mem_append.mp hd' with hd' | hd'
      · exact List.mem_append_left _ (List.mem_of_mem_eraseIdx hd')
      · exact List.mem_append_right _ hd'
    · refine h.events fun d' hd' => h.delivered d' ?_
      rcases List.mem_append.mp hd' with hd' | hd'
      · exact List.mem_append_left _ (List.mem_of_mem_eraseIdx hd')
      · rcases List.mem_append.mp hd' with hd' | hd'
        · exact List.mem_append_right _ hd'
        · rw [List.mem_singleton.mp hd']
          exact List.mem_append_left _ hmem
  | act k kind channelID verdict =>
    obtain ⟨d, hd, hact⟩ := Option.bind_eq_some_iff.mp hstep
    split at hact
    · cases hact
    · next hkind =>
        cases hact
        exact h.act hcaps (List.mem_of_getElem? hd) hkind channelID verdict
  | finish k =>
    obtain ⟨d, hd, rfl⟩ := Option.map_eq_some_iff.mp hstep
    refine h.events fun d' hd' => h.delivered d' ?_
    rcases List.mem_append.mp hd' with hd' | hd'
    · exact List.mem_append_left _ hd'
    · exact List.mem_append_right _ (List.mem_of_mem_eraseIdx hd')

end Steps

theorem bounded_reachable {caps : Caps} (hcaps : Configured caps) (hwire : caps.fleet < 2 ^ 31)
    {s : State} (h : (system caps).Reachable s) : Bounded caps s := by
  refine h.invariant (I := Bounded caps) ⟨?_, ?_, ?_, ?_⟩ fun s e t hs hstep =>
    hs.step hcaps hwire hstep
  · exact fun m hm => by cases hm
  · exact fun i hi => by cases hi
  · exact fun m hm => by cases hm
  · exact fun d hd => by cases hd

/-! ### Chains -/

/-- The `j`th message was published over a delivery of the `i`th, as one of the kinds. -/
def Replies (kinds : Publish → Prop) (s : State) (i j : ℕ) : Prop :=
  ∃ m kind, s.messages[j]? = some m ∧ m.cause = some (i, kind) ∧ kinds kind

/-- A message that reached its cap ends its chain, and the others are one hop apart. -/
theorem Bounded.chain_length {caps : Caps} {s : State} (h : Bounded caps s)
    (hcaps : Configured caps) {i : ℕ} {rest : List ℕ}
    (hchain : (i :: rest).IsChain (Replies (· ≠ .errorReply) s)) {m : Message}
    (hm : s.messages[i]? = some m) : (rest.length : ℤ) + m.cascadeDepth ≤ caps.fleet := by
  induction rest generalizing i m with
  | nil =>
    have hwithin := (h.within m (List.mem_of_getElem? hm)).2
    have hcap := (hcaps.capFor m.channelID).2
    simp only [List.length_nil, Nat.cast_zero, zero_add]
    omega
  | cons j rest ih =>
    rw [List.isChain_cons_cons] at hchain
    obtain ⟨⟨n, kind, hn, hcause, hkind⟩, htail⟩ := hchain
    have hcarried := h.carried n (List.mem_of_getElem? hn) i kind hcause
    obtain ⟨p, hp, hdepth⟩ := hcarried.hop
    rw [hm, Option.some.injEq] at hp
    subst hp
    rw [if_neg hkind] at hdepth
    obtain ⟨m', hm', hbelow⟩ := h.below i (hcarried.fanned hkind)
    rw [hm, Option.some.injEq] at hm'
    subst hm'
    have hcap := (hcaps.capFor m.channelID).2
    have hlength := ih htail hn
    rw [List.length_cons, Nat.cast_add, Nat.cast_one]
    rcases le_or_gt (m.cascadeDepth + 1) (caps.maxCascadeDepthFor n.channelID) with hle | hgt
    · omega
    · -- The reply is at the cap of its channel, so nothing is published over it.
      cases rest with
      | nil =>
        simp only [List.length_nil, Nat.cast_zero]
        omega
      | cons k rest =>
        rw [List.isChain_cons_cons] at htail
        obtain ⟨⟨n', kind', hn', hcause', hkind'⟩, -⟩ := htail
        have hcarried' := h.carried n' (List.mem_of_getElem? hn') j kind' hcause'
        obtain ⟨m', hm', hbelow'⟩ := h.below j (hcarried'.fanned hkind')
        rw [hn, Option.some.injEq] at hm'
        subst hm'
        omega

/-- Depths stay within the caps and grow by one hop, and so chains end. -/
structure ChainsBounded (caps : Caps) (kinds : Publish → Prop) (s : State) : Prop where
  within : ∀ m ∈ s.messages, 0 ≤ m.cascadeDepth ∧
    m.cascadeDepth ≤ caps.maxCascadeDepthFor m.channelID
  hop : ∀ m ∈ s.messages, ∀ i kind, m.cause = some (i, kind) → kinds kind →
    ∃ p, s.messages[i]? = some p ∧
      m.cascadeDepth = min (caps.maxCascadeDepthFor m.channelID) (p.cascadeDepth + 1)
  below : ∀ i ∈ s.fanned, ∃ m, s.messages[i]? = some m ∧
    m.cascadeDepth < caps.maxCascadeDepthFor m.channelID
  length : ∀ i rest m, s.messages[i]? = some m → m.cascadeDepth = 0 →
    (i :: rest).IsChain (Replies kinds s) → ((i :: rest).length : ℤ) ≤ caps.fleet + 1

/-- Chains of sends and end votes are bounded by the cap of the fleet. An error reply is stored at
depth zero, as the start of a chain. -/
theorem reply_chains_bounded (caps : Caps) (hcaps : Configured caps) (hwire : caps.fleet < 2 ^ 31)
    {s : State} (h : (system caps).Reachable s) : ChainsBounded caps (· ≠ .errorReply) s ∧
      ∀ m ∈ s.messages, ∀ i, m.cause = some (i, .errorReply) → m.cascadeDepth = 0 := by
  have hbounded := bounded_reachable hcaps hwire h
  refine ⟨⟨hbounded.within, fun m hm i kind hcause hkind => ?_, hbounded.below,
    fun i rest m hm hzero hchain => ?_⟩, fun m hm i hcause => ?_⟩
  · obtain ⟨p, hp, hdepth⟩ := (hbounded.carried m hm i kind hcause).hop
    rw [if_neg hkind] at hdepth
    exact ⟨p, hp, hdepth⟩
  · have hlength := hbounded.chain_length hcaps hchain hm
    rw [List.length_cons, Nat.cast_add, Nat.cast_one]
    omega
  · obtain ⟨p, hp, hdepth⟩ := (hbounded.carried m hm i .errorReply hcause).hop
    rw [hdepth, if_pos rfl]

section Example

def fleetOf (cap : ℤ) : Caps := ⟨cap, ∅⟩

theorem configured_fleetOf {cap : ℤ} (h : 1 ≤ cap) : Configured (fleetOf cap) := by
  refine ⟨h, fun id d hlookup => ?_⟩
  rw [fleetOf, GoMap.lookup_empty] at hlookup
  cases hlookup

/-- A message is handed to an agent, which publishes over it. -/
def answer (i k : ℕ) (kind : Publish) : List Event :=
  [.dispatch i, .receive 0, .act k kind "group:ops" .clear]

/-- With a cap of two, a reply to a reply ends its chain. -/
theorem reply_chains_bounded_two : ∃ s, (system (fleetOf 2)).exec
    (.publish "group:ops" .absent .clear :: answer 0 0 .send ++ answer 1 1 .endVote) = some s ∧
      s.fanned = [0, 1] ∧ (ChainsBounded (fleetOf 2) (· ≠ .errorReply) s ∧
        ∀ m ∈ s.messages, ∀ i, m.cause = some (i, .errorReply) → m.cascadeDepth = 0) := by
  obtain ⟨s, hexec, hfanned⟩ := System.exists_of_exec
    (show ((system (fleetOf 2)).exec (.publish "group:ops" .absent .clear ::
      answer 0 0 .send ++ answer 1 1 .endVote)).map
        (fun s => decide (s.fanned = [0, 1])) = some true by decide)
  exact ⟨s, hexec, hfanned, reply_chains_bounded (fleetOf 2) (configured_fleetOf (by decide))
    (by decide) (System.reachable_exec hexec)⟩

/-- Error replies go on beyond the cap, and a count of `2 ^ 32 - 1` is handed to an agent as
`-1`. -/
theorem reply_chains_unbounded :
    (¬∀ caps, Configured caps → ∀ s, (system caps).Reachable s →
      ChainsBounded caps (fun _ => True) s) ∧
    ¬∀ caps, Configured caps → ∀ s, (system caps).Reachable s →
      ChainsBounded caps (· ≠ .errorReply) s := by
  constructor
  · intro h
    obtain ⟨s, hexec, hmessages⟩ := System.exists_of_exec
      (show ((system (fleetOf 1)).exec (.publish "group:ops" .absent .clear ::
        answer 0 0 .errorReply ++ answer 1 1 .errorReply)).map
          (fun s => decide (s.messages = [⟨"group:ops", .absent, none⟩,
            ⟨"group:ops", .absent, some (0, .errorReply)⟩,
            ⟨"group:ops", .absent, some (1, .errorReply)⟩])) = some true by decide)
    have hchain : [0, 1, 2].IsChain (Replies (fun _ => True) s) := by
      unfold Replies
      simp [hmessages]
    have hlength := (h _ (configured_fleetOf (le_refl 1)) s (System.reachable_exec hexec)).length 0
      [1, 2] ⟨"group:ops", .absent, none⟩ (by simp [hmessages]) rfl hchain
    exact absurd hlength (by decide)
  · intro h
    obtain ⟨s, hexec, hmessages⟩ := System.exists_of_exec
      (show ((system (fleetOf (2 ^ 32))).exec (.publish "group:ops" (.number (2 ^ 32 - 1)) .clear ::
        answer 0 0 .send)).map
          (fun s => decide (s.messages = [⟨"group:ops", .number (2 ^ 32 - 1), none⟩,
            ⟨"group:ops", .absent, some (0, .send)⟩])) = some true by decide)
    have hbounded := h _ (configured_fleetOf (by decide)) s (System.reachable_exec hexec)
    obtain ⟨p, hp, hdepth⟩ := hbounded.hop ⟨"group:ops", .absent, some (0, .send)⟩
      (by simp [hmessages]) 0 .send rfl (by decide)
    rw [hmessages] at hp
    cases hp
    exact absurd hdepth (by decide)

end Example
end Persatrix.Cascade
