import Persatrix.Decimal
import Persatrix.Bytes
import Persatrix.EpisodeTable
import Persatrix.System

/-!
# The identity of a replayed span

Every boot replays the same messages. The id under which they are derived is a digest of what
their row is written with, so that each boot finds what an earlier one wrote. Each component is
preceded by its length: distinct lists of components give distinct bytes.
-/
namespace Persatrix.Episodes

def utf8 (s : String) : GoString := s.toByteArray.data.toList

theorem utf8_inj {s t : String} (h : utf8 s = utf8 t) : s = t := by
  apply String.toByteArray_inj.mp
  apply ByteArray.ext
  exact Array.toList_inj.mp h

def colon : UInt8 := 58

def joinComponents (parts : List String) : GoString :=
  parts.flatMap fun part => decimal (utf8 part).length ++ colon :: utf8 part

/-- The length is read before the bytes. -/
theorem joinComponents_cons (part : String) (parts : List String) :
    joinComponents (part :: parts) =
      decimal (utf8 part).length ++ colon :: (utf8 part ++ joinComponents parts) := by
  simp [joinComponents]

theorem span_component (n : ℕ) (s : GoString) :
    (decimal n ++ colon :: s).takeWhile isDigit = decimal n ∧
      (decimal n ++ colon :: s).dropWhile isDigit = colon :: s := by
  refine span_digits (fun b hb => isDigit_of_mem_decimal hb) fun b hb => ?_
  cases hb
  decide

theorem joinComponents_inj {xs ys : List String} (h : joinComponents xs = joinComponents ys) :
    xs = ys := by
  induction xs generalizing ys with
  | nil =>
    cases ys with
    | nil => rfl
    | cons y ys =>
      rw [joinComponents_cons] at h
      exact absurd (List.append_eq_nil_iff.mp h.symm).1 (decimal_ne_nil _)
  | cons x xs ih =>
    cases ys with
    | nil =>
      rw [joinComponents_cons] at h
      exact absurd (List.append_eq_nil_iff.mp h).1 (decimal_ne_nil _)
    | cons y ys =>
      rw [joinComponents_cons, joinComponents_cons] at h
      have hx := span_component (utf8 x).length (utf8 x ++ joinComponents xs)
      have hy := span_component (utf8 y).length (utf8 y ++ joinComponents ys)
      rw [h] at hx
      have hlength : (utf8 x).length = (utf8 y).length :=
        decimal_injective (hx.1.symm.trans hy.1)
      have hrest : utf8 x ++ joinComponents xs = utf8 y ++ joinComponents ys :=
        (List.cons.inj (hx.2.symm.trans hy.2)).2
      obtain ⟨hpart, hparts⟩ := List.append_inj hrest hlength
      rw [utf8_inj hpart, ih hparts]

/-- A record of the catch-up as the close path reads it. -/
structure ReplayedSpan where
  agentID : String
  epochID : String
  sessionID : String
  protectionLevel : String
  principalID : String
  speakerID : String
  scope : String
  /-- One for each turn, empty where the turn carried none. -/
  messageIDs : List String
  replayAttributed : Bool
  replayWindowComplete : Bool
  ownTurns : ℕ
deriving DecidableEq

namespace ReplayedSpan

def components (x : ReplayedSpan) : List String :=
  [x.agentID, x.epochID, x.sessionID, x.protectionLevel, x.principalID, x.speakerID, x.scope] ++
    x.messageIDs

/-- The span gets as far as the lookup of an earlier derivation. -/
def derivable (x : ReplayedSpan) : Bool :=
  !x.messageIDs.isEmpty && x.replayAttributed && x.replayWindowComplete && x.ownTurns != 0

/-- The digest is given; no id where a turn has none. -/
def replaySpanIdentity (sha256 : GoString → String) (x : ReplayedSpan) : Option String :=
  if x.messageIDs.isEmpty || x.messageIDs.contains "" then none
  else some ("replay-" ++ sha256 (joinComponents x.components))

variable {sha256 : GoString → String} {x y : ReplayedSpan} {id : String}

/-- Two spans have one id only if they are the same in all components, unless their bytes
collide. -/
theorem components_of_identity (hx : x.replaySpanIdentity sha256 = some id)
    (hy : y.replaySpanIdentity sha256 = some id)
    (hfree : sha256 (joinComponents x.components) = sha256 (joinComponents y.components) →
      joinComponents x.components = joinComponents y.components) :
    x.components = y.components := by
  unfold replaySpanIdentity at hx hy
  split at hx
  · cases hx
  · split at hy
    · cases hy
    · have hdigests := (Option.some.inj hx).trans (Option.some.inj hy).symm
      exact joinComponents_inj (hfree (String.append_right_inj _ |>.mp hdigests))

theorem components_inj (h : x.components = y.components) :
    x.agentID = y.agentID ∧ x.epochID = y.epochID ∧ x.sessionID = y.sessionID ∧
      x.protectionLevel = y.protectionLevel ∧ x.principalID = y.principalID ∧
      x.speakerID = y.speakerID ∧ x.scope = y.scope ∧ x.messageIDs = y.messageIDs := by
  unfold components at h
  simpa using h

theorem identity_eq_none_iff :
    x.replaySpanIdentity sha256 = none ↔ x.messageIDs = [] ∨ "" ∈ x.messageIDs := by
  unfold replaySpanIdentity
  by_cases hnil : x.messageIDs = []
  · simp [hnil]
  · simp [hnil]

/-- Spans with one id have the same strings and the same messages, where their encodings do not
collide, and exactly a span without a message or with an unnamed one has no id. -/
theorem identity_separates (x y : ReplayedSpan)
    (hfree : sha256 (joinComponents x.components) = sha256 (joinComponents y.components) →
      joinComponents x.components = joinComponents y.components) :
    (∀ id, x.replaySpanIdentity sha256 = some id → y.replaySpanIdentity sha256 = some id →
      x.agentID = y.agentID ∧ x.epochID = y.epochID ∧ x.sessionID = y.sessionID ∧
        x.protectionLevel = y.protectionLevel ∧ x.principalID = y.principalID ∧
        x.speakerID = y.speakerID ∧ x.scope = y.scope ∧ x.messageIDs = y.messageIDs) ∧
      (x.replaySpanIdentity sha256 = none ↔ x.messageIDs = [] ∨ "" ∈ x.messageIDs) := by
  refine ⟨fun id hx hy => ?_, identity_eq_none_iff⟩
  exact components_inj (components_of_identity hx hy hfree)

/-- A span of a room. -/
def inRoom (messageIDs : List String) : ReplayedSpan where
  agentID := "ada"
  epochID := "e"
  sessionID := "s"
  protectionLevel := "internal"
  principalID := "p"
  speakerID := "q"
  scope := "room"
  messageIDs := messageIDs
  replayAttributed := true
  replayWindowComplete := true
  ownTurns := 1

/-- SHA-256 on the two encodings below. -/
def spanSHA256 (s : GoString) : String :=
  if s = joinComponents (inRoom ["m1", "m2"]).components then
    "c14b46616d737d9fe6d21d5474a6e40287847a779acb593f0c2182eca47ade8c"
  else if s = joinComponents (inRoom ["m1\u001fm2"]).components then
    "f539536765764998bcb21851443e4a1ad2f5c5606a2eb22069a9edb413f5f533"
  else ""

theorem identity_separates_joined :
    (inRoom ["m1\u001fm2"]).replaySpanIdentity spanSHA256 ≠ none ∧
      (inRoom ["m1", "m2"]).replaySpanIdentity spanSHA256 ≠
        (inRoom ["m1\u001fm2"]).replaySpanIdentity spanSHA256 := by
  have hfree : spanSHA256 (joinComponents (inRoom ["m1", "m2"]).components) =
      spanSHA256 (joinComponents (inRoom ["m1\u001fm2"]).components) →
        joinComponents (inRoom ["m1", "m2"]).components =
          joinComponents (inRoom ["m1\u001fm2"]).components := by
    intro h
    exact absurd h (by decide)
  obtain ⟨hsame, -⟩ := identity_separates (inRoom ["m1", "m2"]) (inRoom ["m1\u001fm2"]) hfree
  cases hid : (inRoom ["m1\u001fm2"]).replaySpanIdentity spanSHA256 with
  | none => exact absurd hid (by decide)
  | some id =>
    refine ⟨Option.some_ne_none id, fun heq => ?_⟩
    obtain ⟨-, -, -, -, -, -, -, hids⟩ := hsame id heq hid
    exact absurd hids (by decide)

end ReplayedSpan
end Persatrix.Episodes

/-!
## A replayed span over many boots

In each boot the span reaches the close path at most once. Each await of it is a step of its own;
the process may end at any of them, and a statement may raise with or without its effect. The
janitor and the closes of other interactions come in between.
-/
namespace Persatrix.Episodes

/-- Where the close of the span is in this boot. -/
inductive SpanClose where
  | down
  | waiting
  | looking (uuid : String)
  | clearing
  | inserting (id : String)
  | spawned (id : String)
  | summarizing (id : String)
  | updating (id text : String)
  | ended
deriving DecidableEq

/-- What a boot has done for the span. -/
inductive BootNote where
  | looked (boot : ℕ) (derived : Bool)
  | cleared (boot : ℕ)
  | inserted (boot : ℕ) (id : String)
  | called (boot : ℕ)
  | updated (boot : ℕ) (id text : String)
deriving DecidableEq

structure Boots where
  rows : List Episode
  boot : ℕ
  close : SpanClose
  log : List BootNote
deriving DecidableEq

/-- A statement returns, or it raises before or after it took effect. -/
inductive Statement where
  | returns
  | raises (effect : Bool)
deriving DecidableEq

def Statement.effect : Statement → Bool
  | .returns => true
  | .raises effect => effect

inductive BootEvent where
  | boot
  | crash
  | persistClosedInteraction (uuid : String)
  | hasEpisodeForInteraction (returns : Bool)
  | clearFailedEpisode (r : Statement)
  | storeEpisode (a : EpisodeArgs) (now : ℚ) (r : Statement)
  | summarize
  | answer (text : Option String)
  | updateEpisodeSummary (r : Statement)
  | cancel
  | cleanupClosingInteractions (agentID : String) (graceSec now : ℚ)
  | storeOther (a : EpisodeArgs) (now : ℚ)
  | clearOther (agentID interactionID : String)
  | updateOther (agentID interactionID summary : String)

/-- A row of the agent under the id, whatever its summary. -/
def spanRow (agentID id : String) (e : Episode) : Bool :=
  e.agentID = agentID && e.interactionID = some id

/-- A row that counts as a derivation of the span. -/
def derivation (agentID id : String) (e : Episode) : Bool :=
  spanRow agentID id e && e.summary ≠ summaryUnavailableText

def episodeExistsForInteraction (agentID id : String) (rows : List Episode) : Bool :=
  rows.any (derivation agentID id)

/-- A summary that is neither of the two marks. -/
def real (summary : String) : Bool :=
  summary ≠ summaryPendingText && summary ≠ summaryUnavailableText

namespace Boots
variable (sha256 : GoString → String) (x : ReplayedSpan)

def move (s : Boots) (close : SpanClose) : Boots := { s with close }

def note (s : Boots) (n : BootNote) : Boots := { s with log := s.log ++ [n] }

def step (s : Boots) : BootEvent → Option Boots
  | .boot => if s.close = .down then some { s with boot := s.boot + 1, close := .waiting } else none
  | .crash => if s.close = .down then none else some (s.move .down)
  | .persistClosedInteraction uuid =>
    if s.close = .waiting then
      if !x.derivable then some (s.move .ended)
      else
        match x.replaySpanIdentity sha256 with
        | none => some (s.move (.inserting uuid))
        | some id => if uuid = id then none else some (s.move (.looking uuid))
    else none
  | .hasEpisodeForInteraction returns =>
    match s.close, x.replaySpanIdentity sha256 with
    | .looking uuid, some id =>
      if !returns then some (s.move (.inserting uuid))
      else
        let derived := episodeExistsForInteraction x.agentID id s.rows
        some ((s.note (.looked s.boot derived)).move (if derived then .ended else .clearing))
    | _, _ => none
  | .clearFailedEpisode r =>
    match s.close, x.replaySpanIdentity sha256 with
    | .clearing, some id =>
      let rows := if r.effect then delete x.agentID (.failedEpisode id) s.rows else s.rows
      let t := { s with rows }.move (.inserting id)
      some (if r = .returns then t.note (.cleared s.boot) else t)
    | _, _ => none
  | .storeEpisode a now r =>
    match s.close with
    | .inserting id =>
      let args := { a with
        agentID := x.agentID, interactionID := some id, summary := summaryPendingText }
      match insertEpisode args now s.rows with
      | none => some (s.move .ended)
      | some rows =>
        let t := if r.effect then { s with rows }.note (.inserted s.boot id) else s
        some (t.move (if r = .returns then .spawned id else .ended))
    | _ => none
  | .summarize =>
    match s.close with
    | .spawned id => some ((s.note (.called s.boot)).move (.summarizing id))
    | _ => none
  | .answer text =>
    match s.close with
    | .summarizing id =>
      if text.all real then some (s.move (.updating id (text.getD summaryUnavailableText))) else none
    | _ => none
  | .updateEpisodeSummary r =>
    match s.close with
    | .updating id text =>
      let updated := updateEpisodeSummary x.agentID id text s.rows
      let t := { s with rows := if r.effect then updated.1 else s.rows }.move .ended
      some (if r = .returns ∧ updated.2 then t.note (.updated s.boot id text) else t)
    | _ => none
  | .cancel =>
    match s.close with
    | .spawned _ | .summarizing _ | .updating _ _ => some (s.move .ended)
    | _ => none
  | .cleanupClosingInteractions agentID graceSec now =>
    some { s with rows := cleanupClosingInteractions agentID graceSec now s.rows }
  | .storeOther a now =>
    if a.agentID = x.agentID ∧ a.interactionID = x.replaySpanIdentity sha256 then none
    else (insertEpisode a now s.rows).map fun rows => { s with rows }
  | .clearOther agentID interactionID =>
    if agentID = x.agentID ∧ some interactionID = x.replaySpanIdentity sha256 then none
    else some { s with rows := delete agentID (.failedEpisode interactionID) s.rows }
  | .updateOther agentID interactionID summary =>
    if agentID = x.agentID ∧ some interactionID = x.replaySpanIdentity sha256 then none
    else some { s with rows := (updateEpisodeSummary agentID interactionID summary s.rows).1 }

end Boots

def boots (sha256 : GoString → String) (x : ReplayedSpan) : System Boots BootEvent :=
  ⟨⟨[], 0, .down, []⟩, Boots.step sha256 x⟩

/-- The rows that carry the id of the span. -/
def Boots.spanRows (x : ReplayedSpan) (id : String) (s : Boots) : List Episode :=
  s.rows.filter (spanRow x.agentID id)

/-- One row at most counts as a derivation, and after a boot that cleared, inserted and updated
without a failure its row is the only one and holds the summary. -/
structure Boots.Once (x : ReplayedSpan) (id : String) (s : Boots) : Prop where
  derived : (s.rows.filter (derivation x.agentID id)).length ≤ 1
  finished : ∀ boot text, .cleared boot ∈ s.log → .updated boot id text ∈ s.log →
    real text = true → (s.spanRows x id).map Episode.summary = [text]

/-- The span has been derived: its row holds a summary. -/
def Boots.Derived (x : ReplayedSpan) (id : String) (s : Boots) : Prop :=
  ∃ e ∈ s.rows, spanRow x.agentID id e = true ∧ real e.summary = true

instance (x : ReplayedSpan) (id : String) (s : Boots) : Decidable (s.Derived x id) :=
  inferInstanceAs (Decidable (∃ e ∈ s.rows, _ ∧ _))

/-- A boot whose lookup succeeded has inserted nothing and called nobody. -/
def Boots.Declined (s : Boots) (boot : ℕ) : Prop :=
  ∀ derived, .looked boot derived ∈ s.log →
    (∀ id, .inserted boot id ∉ s.log) ∧ .called boot ∉ s.log

/-! ### What a step does -/

/-- The arguments with which the close inserts its row. -/
def EpisodeArgs.closing (a : EpisodeArgs) (x : ReplayedSpan) (id : String) : EpisodeArgs :=
  { a with agentID := x.agentID, interactionID := some id, summary := summaryPendingText }

/-- The ways of a step of a span whose id is `id`. -/
inductive Boots.Change (x : ReplayedSpan) (id : String) (s : Boots) : Boots → Prop
  | boots (hclose : s.close = .down) :
      Change x id s { s with boot := s.boot + 1, close := .waiting }
  /-- A crash, a cancellation or a statement that fails without an effect. -/
  | stops {close : SpanClose} (hstop : close = .ended ∨ close = .down) :
      Change x id s (s.move close)
  | looks {uuid : String} (hclose : s.close = .waiting) (huuid : uuid ≠ id) :
      Change x id s (s.move (.looking uuid))
  | unsure {uuid : String} (hclose : s.close = .looking uuid) :
      Change x id s (s.move (.inserting uuid))
  | declines {uuid : String} (hclose : s.close = .looking uuid)
      (hderived : episodeExistsForInteraction x.agentID id s.rows = true) :
      Change x id s ((s.note (.looked s.boot true)).move .ended)
  | clears {uuid : String} (hclose : s.close = .looking uuid)
      (hderived : episodeExistsForInteraction x.agentID id s.rows = false) :
      Change x id s ((s.note (.looked s.boot false)).move .clearing)
  | cleared (hclose : s.close = .clearing) :
      Change x id s (({ s with rows := delete x.agentID (.failedEpisode id) s.rows }.move
        (.inserting id)).note (.cleared s.boot))
  | unsureCleared (hclose : s.close = .clearing) :
      Change x id s ({ s with rows := delete x.agentID (.failedEpisode id) s.rows }.move
        (.inserting id))
  | uncleared (hclose : s.close = .clearing) : Change x id s (s.move (.inserting id))
  | inserts {i : String} {a : EpisodeArgs} {now : ℚ} {rows : List Episode} {close : SpanClose}
      (hclose : s.close = .inserting i)
      (hinsert : insertEpisode (a.closing x i) now s.rows = some rows)
      (hnext : close = .spawned i ∨ close = .ended) :
      Change x id s (({ s with rows }.note (.inserted s.boot i)).move close)
  | calls {i : String} (hclose : s.close = .spawned i) :
      Change x id s ((s.note (.called s.boot)).move (.summarizing i))
  | answered {i text : String} (hclose : s.close = .summarizing i) :
      Change x id s (s.move (.updating i text))
  | updates {i text : String} (hclose : s.close = .updating i text)
      (hupdated : (updateEpisodeSummary x.agentID i text s.rows).2 = true) :
      Change x id s (({ s with
        rows := (updateEpisodeSummary x.agentID i text s.rows).1 }.move .ended).note
          (.updated s.boot i text))
  | unsureUpdated {i text : String} (hclose : s.close = .updating i text) :
      Change x id s ({ s with
        rows := (updateEpisodeSummary x.agentID i text s.rows).1 }.move .ended)
  | swept (agentID : String) (graceSec now : ℚ) :
      Change x id s { s with rows := cleanupClosingInteractions agentID graceSec now s.rows }
  | storedOther {a : EpisodeArgs} {now : ℚ} {rows : List Episode}
      (hother : ¬(a.agentID = x.agentID ∧ a.interactionID = some id))
      (hinsert : insertEpisode a now s.rows = some rows) : Change x id s { s with rows }
  | clearedOther {agentID interactionID : String}
      (hother : ¬(agentID = x.agentID ∧ interactionID = id)) :
      Change x id s { s with rows := delete agentID (.failedEpisode interactionID) s.rows }
  | updatedOther (agentID interactionID summary : String) :
      Change x id s { s with
        rows := (updateEpisodeSummary agentID interactionID summary s.rows).1 }

theorem Boots.change_of_step {sha256 : GoString → String} {x : ReplayedSpan} {id : String}
    {s t : Boots} {e : BootEvent} (hid : x.replaySpanIdentity sha256 = some id)
    (hstep : s.step sha256 x e = some t) : s.Change x id t := by
  cases e with
  | boot =>
    simp only [Boots.step] at hstep
    split at hstep
    · next hdown =>
        cases hstep
        exact .boots hdown
    · cases hstep
  | crash =>
    simp only [Boots.step] at hstep
    split at hstep
    · cases hstep
    · cases hstep
      exact .stops (.inr rfl)
  | persistClosedInteraction uuid =>
    simp only [Boots.step, hid] at hstep
    split at hstep
    · next hwaiting =>
        split at hstep
        · cases hstep
          exact .stops (.inl rfl)
        · split at hstep
          · cases hstep
          · next hne =>
              cases hstep
              exact .looks hwaiting hne
    · cases hstep
  | hasEpisodeForInteraction returns =>
    simp only [Boots.step, hid] at hstep
    split at hstep
    · next uuid i hlooking hsame =>
        cases hsame
        split at hstep
        · cases hstep
          exact .unsure hlooking
        · cases hderived : episodeExistsForInteraction x.agentID id s.rows with
          | true =>
            rw [hderived] at hstep
            cases hstep
            exact .declines hlooking hderived
          | false =>
            rw [hderived] at hstep
            cases hstep
            exact .clears hlooking hderived
    · cases hstep
  | clearFailedEpisode r =>
    simp only [Boots.step, hid] at hstep
    split at hstep
    · next i hclearing hsame =>
        cases hsame
        cases hstep
        cases r with
        | returns => exact .cleared hclearing
        | raises effect =>
          cases effect with
          | true => exact .unsureCleared hclearing
          | false => exact .uncleared hclearing
    · cases hstep
  | storeEpisode a now r =>
    simp only [Boots.step] at hstep
    split at hstep
    · next i hinserting =>
        split at hstep
        · cases hstep
          exact .stops (.inl rfl)
        · next rows hinsert =>
            cases r with
            | returns =>
              cases hstep
              exact .inserts hinserting hinsert (.inl rfl)
            | raises effect =>
              cases effect with
              | true =>
                cases hstep
                exact .inserts hinserting hinsert (.inr rfl)
              | false =>
                cases hstep
                exact .stops (.inl rfl)
    · cases hstep
  | summarize =>
    simp only [Boots.step] at hstep
    split at hstep
    · next i hspawned =>
        cases hstep
        exact .calls hspawned
    · cases hstep
  | answer text =>
    simp only [Boots.step] at hstep
    split at hstep
    · next i hsummarizing =>
        split at hstep
        · cases hstep
          exact .answered hsummarizing
        · cases hstep
    · cases hstep
  | updateEpisodeSummary r =>
    simp only [Boots.step] at hstep
    split at hstep
    · next i text hupdating =>
        cases hstep
        cases r with
        | returns =>
          by_cases hupdated : (updateEpisodeSummary x.agentID i text s.rows).2 = true
          · rw [if_pos ⟨rfl, hupdated⟩]
            exact .updates hupdating hupdated
          · rw [if_neg fun hboth => hupdated hboth.2]
            exact .unsureUpdated hupdating
        | raises effect =>
          rw [if_neg fun hboth => by cases hboth.1]
          cases effect with
          | true => exact .unsureUpdated hupdating
          | false => exact .stops (.inl rfl)
    · cases hstep
  | cancel =>
    simp only [Boots.step] at hstep
    split at hstep
    · cases hstep
      exact .stops (.inl rfl)
    · cases hstep
      exact .stops (.inl rfl)
    · cases hstep
      exact .stops (.inl rfl)
    · cases hstep
  | cleanupClosingInteractions agentID graceSec now =>
    cases hstep
    exact .swept agentID graceSec now
  | storeOther a now =>
    simp only [Boots.step, hid] at hstep
    split at hstep
    · cases hstep
    · next hother =>
        obtain ⟨rows, hinsert, rfl⟩ := Option.map_eq_some_iff.mp hstep
        exact .storedOther hother hinsert
  | clearOther agentID interactionID =>
    simp only [Boots.step, hid] at hstep
    split at hstep
    · cases hstep
    · next hother =>
        cases hstep
        exact .clearedOther fun hsame => hother ⟨hsame.1, congrArg some hsame.2⟩
  | updateOther agentID interactionID summary =>
    simp only [Boots.step, hid] at hstep
    split at hstep
    · cases hstep
    · cases hstep
      exact .updatedOther agentID interactionID summary

end Persatrix.Episodes
