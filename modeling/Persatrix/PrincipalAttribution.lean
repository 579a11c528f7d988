import Persatrix.RateLimiter

/-!
# Principal attribution

For each channel and agent the table holds the principals whose stimuli the agent has not
answered, each with the time of its latest dispatch. A time is counted in nanoseconds from
the zero time, so that a `lastSweep` of zero means that no sweep ran. A call reads the clock
once.
-/
namespace Persatrix.Channels
open Security (second timeSub)

def principalAttributionTTL : ℤ := 120 * second

def anonymousStimulus : String := ""

def maxNamedStimuliPerPair : ℕ := 2

structure PrincipalAttributionKey where
  channelID : String
  agentID : String
  deriving DecidableEq

/-- The `stimuli` of a `principalAttributionEntry`. -/
abbrev Stimuli := GoMap String ℤ

namespace Stimuli

/-- The distinct authenticated principals of a row. -/
def named (row : Stimuli) : ℕ :=
  row.keys.length - if anonymousStimulus ∈ row then 1 else 0

/-- The key a dispatch is stored under: a new name past the cap becomes anonymous. -/
def stimulus (row : Stimuli) (principal : String) : String :=
  if principal ≠ anonymousStimulus ∧ principal ∉ row ∧ maxNamedStimuliPerPair ≤ row.named then
    anonymousStimulus
  else principal

/-- Every stimulus is one lifetime past its expiry. -/
def cold (ttl now : ℤ) (row : Stimuli) : Bool :=
  row.entries.all fun e => !decide (timeSub now e.2 < int64 (2 * ttl))

def resolve (ttl now : ℤ) (row : Stimuli) : String × Bool :=
  match row.entries with
  | [⟨p, stamp⟩] =>
    if p ≠ anonymousStimulus ∧ timeSub now stamp < ttl then (p, true) else ("", false)
  | _ => ("", false)

end Stimuli

structure PrincipalAttributionTable where
  entries : GoMap PrincipalAttributionKey Stimuli
  ttl : ℤ
  lastSweep : ℤ

namespace PrincipalAttributionTable

def new : PrincipalAttributionTable := ⟨∅, principalAttributionTTL, 0⟩

def sweepLocked (t : PrincipalAttributionTable) (now : ℤ) : PrincipalAttributionTable :=
  if t.lastSweep ≠ 0 ∧ timeSub now t.lastSweep < t.ttl then t
  else { t with
    lastSweep := now
    entries := t.entries.deleteIf fun _ row => row.cold t.ttl now }

/-- `Record`, where `stimulus` chooses the key the dispatch is stored under. -/
def recordUnder (stimulus : Stimuli → String → String) (t : PrincipalAttributionTable) (now : ℤ)
    (channelID agentID principal : String) : PrincipalAttributionTable :=
  if channelID = "" ∨ agentID = "" then t
  else
    let t := t.sweepLocked now
    let key : PrincipalAttributionKey := ⟨channelID, agentID⟩
    let row := (t.entries.lookup key).getD ∅
    { t with entries := t.entries.insert key (row.insert (stimulus row principal) now) }

def record : PrincipalAttributionTable → ℤ → String → String → String →
    PrincipalAttributionTable :=
  recordUnder Stimuli.stimulus

/-- The table without the cap on named stimuli: every principal keeps its own key. -/
def recordUncapped : PrincipalAttributionTable → ℤ → String → String → String →
    PrincipalAttributionTable :=
  recordUnder fun _ principal => principal

def resolveLocked (t : PrincipalAttributionTable) (key : PrincipalAttributionKey) (now : ℤ)
    (spoke : Bool) : (String × Bool) × PrincipalAttributionTable :=
  match t.entries.lookup key with
  | none => (("", false), t)
  | some row =>
    (row.resolve t.ttl now, if spoke then { t with entries := t.entries.erase key } else t)

def lookup (t : PrincipalAttributionTable) (now : ℤ) (channelID agentID : String) :
    (String × Bool) × PrincipalAttributionTable :=
  t.resolveLocked ⟨channelID, agentID⟩ now false

def takeAttribution (t : PrincipalAttributionTable) (now : ℤ) (channelID agentID : String) :
    (String × Bool) × PrincipalAttributionTable :=
  t.resolveLocked ⟨channelID, agentID⟩ now true

end PrincipalAttributionTable

inductive AttributionCall where
  | record (channelID agentID principal : String)
  | lookup (channelID agentID : String)
  | takeAttribution (channelID agentID : String)

namespace PrincipalAttributionTable

/-- The table after a call made at `now`. -/
def callUnder (stimulus : Stimuli → String → String) (t : PrincipalAttributionTable) (now : ℤ) :
    AttributionCall → PrincipalAttributionTable
  | .record channelID agentID principal => t.recordUnder stimulus now channelID agentID principal
  | .lookup channelID agentID => (t.lookup now channelID agentID).2
  | .takeAttribution channelID agentID => (t.takeAttribution now channelID agentID).2

def runUnder (stimulus : Stimuli → String → String) (calls : List (ℤ × AttributionCall)) :
    PrincipalAttributionTable :=
  calls.foldl (fun t c => t.callUnder stimulus c.1 c.2) new

def run : List (ℤ × AttributionCall) → PrincipalAttributionTable := runUnder Stimuli.stimulus

def runUncapped : List (ℤ × AttributionCall) → PrincipalAttributionTable :=
  runUnder fun _ principal => principal

end PrincipalAttributionTable

/-- The records for a pair since its last `TakeAttribution`, oldest first. -/
def recordsSinceTake (channelID agentID : String) (calls : List (ℤ × AttributionCall)) :
    List (ℤ × String) :=
  calls.foldl (fun records c =>
    match c.2 with
    | .record ch ag principal =>
      if ch = channelID ∧ ag = agentID then records ++ [(c.1, principal)] else records
    | .lookup _ _ => records
    | .takeAttribution ch ag => if ch = channelID ∧ ag = agentID then [] else records) []

end Persatrix.Channels

/-!
## Attribution over a history of calls

What a row holds is compared with the records made for its pair since the last
`TakeAttribution`. A record is forgotten only by a sweep, which a later record runs once the
whole row is two lifetimes old. A history has a clock that does not run backwards.
-/
namespace Persatrix.Channels
open Security (second timeSub)

theorem timeSub_lt_ttl (now stamp : ℤ) :
    timeSub now stamp < principalAttributionTTL ↔ now - stamp < principalAttributionTTL := by
  unfold timeSub principalAttributionTTL second
  omega

theorem timeSub_lt_two_ttl (now stamp : ℤ) :
    timeSub now stamp < int64 (2 * principalAttributionTTL) ↔
      now - stamp < 2 * principalAttributionTTL := by
  rw [int64_of_fits (by decide) (by decide)]
  unfold timeSub principalAttributionTTL second
  omega

/-! ### Rows -/

namespace Stimuli

theorem cold_iff (row : Stimuli) (now : ℤ) :
    row.cold principalAttributionTTL now = true ↔
      ∀ p stamp, row.lookup p = some stamp → 2 * principalAttributionTTL ≤ now - stamp := by
  simp only [cold, List.all_eq_true, Bool.not_eq_true', decide_eq_false_iff_not,
    timeSub_lt_two_ttl, not_lt]
  constructor
  · intro h p stamp hp
    exact h ⟨p, stamp⟩ (AList.mem_lookup_iff.mp hp)
  · rintro h ⟨p, stamp⟩ he
    exact h p stamp (AList.mem_lookup_iff.mpr he)

theorem length_keys_insert (row : Stimuli) (p : String) (stamp : ℤ) :
    (AList.insert p stamp row).keys.length =
      if p ∈ row then row.keys.length else row.keys.length + 1 := by
  rw [AList.keys_insert, List.length_cons, List.length_erase]
  by_cases hp : p ∈ row
  · have hpos := List.length_pos_of_mem (AList.mem_keys.mp hp)
    rw [if_pos (AList.mem_keys.mp hp), if_pos hp]
    omega
  · rw [if_neg (fun h => hp (AList.mem_keys.mpr h)), if_neg hp]

theorem length_keys_le_insert (row : Stimuli) (p : String) (stamp : ℤ) :
    row.keys.length ≤ (AList.insert p stamp row).keys.length := by
  rw [length_keys_insert]
  split_ifs <;> omega

theorem resolve_ambiguous {ttl now : ℤ} {row : Stimuli} (h : 2 ≤ row.keys.length) :
    row.resolve ttl now = ("", false) := by
  have hlength : row.entries.length = row.keys.length := (List.length_map _).symm
  unfold resolve
  split
  · rename_i hentries
    rw [hentries, List.length_singleton] at hlength
    omega
  · rfl

/-- A row that resolves holds one stimulus, named and live. -/
theorem resolve_eq_true {ttl now : ℤ} {row : Stimuli} {p : String}
    (h : row.resolve ttl now = (p, true)) :
    ∃ stamp, (∀ q s, row.lookup q = some s ↔ q = p ∧ s = stamp) ∧ row.keys.length = 1 ∧
      timeSub now stamp < ttl := by
  unfold resolve at h
  split at h
  · rename_i q stamp hentries
    split_ifs at h with hlive
    · obtain rfl : q = p := congrArg Prod.fst h
      have hlength : row.keys.length = row.entries.length := List.length_map _
      refine ⟨stamp, fun r s => ?_, by rw [hlength, hentries]; rfl, hlive.2⟩
      rw [← Option.mem_def, AList.mem_lookup_iff, hentries, List.mem_singleton]
      simp
    · simp at h
  · simp at h

/-- A row has no more than the capped number of names, besides the anonymous stimulus. -/
def Bounded (row : Stimuli) : Prop :=
  row.keys.length ≤ maxNamedStimuliPerPair + if anonymousStimulus ∈ row then 1 else 0

theorem bounded_empty : Bounded ∅ := Nat.zero_le _

theorem Bounded.insert_known {row : Stimuli} (h : row.Bounded) {p : String} (hp : p ∈ row)
    (stamp : ℤ) : Bounded (AList.insert p stamp row) := by
  unfold Bounded at h ⊢
  rw [length_keys_insert, if_pos hp]
  by_cases hanon : anonymousStimulus ∈ row
  · rw [if_pos hanon] at h
    rwa [if_pos ((AList.mem_insert row).mpr (Or.inr hanon))]
  · rw [if_neg hanon] at h
    omega

theorem Bounded.insert_anonymous {row : Stimuli} (h : row.Bounded) (stamp : ℤ) :
    Bounded (AList.insert anonymousStimulus stamp row) := by
  by_cases hanon : anonymousStimulus ∈ row
  · exact h.insert_known hanon stamp
  · unfold Bounded at h ⊢
    rw [if_neg hanon] at h
    rw [length_keys_insert, if_neg hanon, if_pos ((AList.mem_insert row).mpr (Or.inl rfl))]
    omega

theorem Bounded.insert_stimulus {row : Stimuli} (h : row.Bounded) (p : String) (stamp : ℤ) :
    Bounded (AList.insert (row.stimulus p) stamp row) := by
  unfold stimulus
  split_ifs with hfold
  · exact h.insert_anonymous stamp
  · by_cases hanon : p = anonymousStimulus
    · rw [hanon]
      exact h.insert_anonymous stamp
    · by_cases hp : p ∈ row
      · exact h.insert_known hp stamp
      · -- a new name, stored because the row has room for it
        have hroom : row.named < maxNamedStimuliPerPair := by
          by_contra hfull
          exact hfold ⟨hanon, hp, not_lt.mp hfull⟩
        unfold named at hroom
        unfold Bounded
        rw [length_keys_insert, if_neg hp]
        by_cases hold : anonymousStimulus ∈ row
        · rw [if_pos hold] at hroom
          rw [if_pos ((AList.mem_insert row).mpr (Or.inr hold))]
          omega
        · rw [if_neg hold] at hroom
          omega

/-- A dispatch takes its own key, or finds the row already ambiguous. -/
theorem stimulus_eq_or (row : Stimuli) (p : String) :
    row.stimulus p = p ∨ 2 ≤ row.keys.length := by
  unfold stimulus
  split_ifs with hfold
  · have hnamed : maxNamedStimuliPerPair ≤ row.named := hfold.2.2
    unfold named maxNamedStimuliPerPair at hnamed
    exact Or.inr (by omega)
  · exact Or.inl rfl

end Stimuli

/-! ### Records since the last take -/

theorem recordsSinceTake_snoc (channelID agentID : String) (calls : List (ℤ × AttributionCall))
    (now : ℤ) (call : AttributionCall) :
    recordsSinceTake channelID agentID (calls ++ [(now, call)]) =
      match call with
      | .record ch ag principal =>
        if ch = channelID ∧ ag = agentID then
          recordsSinceTake channelID agentID calls ++ [(now, principal)]
        else recordsSinceTake channelID agentID calls
      | .lookup _ _ => recordsSinceTake channelID agentID calls
      | .takeAttribution ch ag =>
        if ch = channelID ∧ ag = agentID then [] else recordsSinceTake channelID agentID calls := by
  rw [recordsSinceTake, List.foldl_append]
  rfl

theorem mem_of_mem_recordsSinceTake {channelID agentID : String}
    {calls : List (ℤ × AttributionCall)} {r : ℤ × String}
    (h : r ∈ recordsSinceTake channelID agentID calls) :
    (r.1, .record channelID agentID r.2) ∈ calls := by
  induction calls using List.reverseRecOn with
  | nil => simp [recordsSinceTake] at h
  | append_singleton calls c ih =>
    obtain ⟨now, call⟩ := c
    rw [recordsSinceTake_snoc] at h
    apply List.mem_append.mpr
    cases call with
    | record ch ag principal =>
      dsimp only at h
      split_ifs at h with hpair
      · rcases List.mem_append.mp h with h | h
        · exact Or.inl (ih h)
        · obtain rfl := List.mem_singleton.mp h
          obtain ⟨rfl, rfl⟩ := hpair
          exact Or.inr (List.mem_singleton.mpr rfl)
      · exact Or.inl (ih h)
    | lookup => exact Or.inl (ih h)
    | takeAttribution ch ag =>
      dsimp only at h
      split_ifs at h
      · simp at h
      · exact Or.inl (ih h)

/-- A later record was made two lifetimes after `r`. -/
def Outlived (calls : List (ℤ × AttributionCall)) (r : ℤ × String) : Prop :=
  ∃ now ch ag principal, (now, .record ch ag principal) ∈ calls ∧
    2 * principalAttributionTTL ≤ now - r.1

theorem Outlived.mono {calls : List (ℤ × AttributionCall)} {r : ℤ × String} (h : Outlived calls r)
    (c : ℤ × AttributionCall) : Outlived (calls ++ [c]) r := by
  obtain ⟨now, ch, ag, principal, hmem, hold⟩ := h
  exact ⟨now, ch, ag, principal, List.mem_append_left _ hmem, hold⟩

/-- What a row tells of the records since the last take. -/
structure Tracked (calls : List (ℤ × AttributionCall)) (records : List (ℤ × String))
    (row : Stimuli) : Prop where
  latest : ∃ r, records.getLast? = some r ∧ (∀ s ∈ records, s.1 ≤ r.1) ∧
    (∃ p, row.lookup p = some r.1) ∧ (row.lookup r.2 = some r.1 ∨ 2 ≤ row.keys.length) ∧
    ∀ p stamp, row.lookup p = some stamp → stamp ≤ r.1
  names : ∀ r ∈ records, r.2 ∈ row ∨ 2 ≤ row.keys.length ∨ Outlived calls r

namespace Tracked
variable {calls : List (ℤ × AttributionCall)} {records : List (ℤ × String)} {row : Stimuli}

theorem mono (h : Tracked calls records row) (c : ℤ × AttributionCall) :
    Tracked (calls ++ [c]) records row :=
  ⟨h.latest, fun r hr => (h.names r hr).imp_right (Or.imp_right fun ho => ho.mono c)⟩

/-- A tracked row is cold exactly when its latest record is. -/
theorem cold_iff (h : Tracked calls records row) (now : ℤ) :
    row.cold principalAttributionTTL now = true ↔
      ∀ r ∈ records, 2 * principalAttributionTTL ≤ now - r.1 := by
  obtain ⟨last, hlast, hafter, ⟨p, hp⟩, -, hstamps⟩ := h.latest
  rw [Stimuli.cold_iff]
  constructor
  · intro hcold r hr
    have hold := hcold p last.1 hp
    have hle := hafter r hr
    omega
  · intro hcold q stamp hq
    have hold := hcold last (List.mem_of_getLast? hlast)
    have hle := hstamps q stamp hq
    omega

end Tracked

/-- The row a record finds: the tracked one, or none when all its records are outlived. -/
def Follows (calls : List (ℤ × AttributionCall)) (records : List (ℤ × String)) :
    Option Stimuli → Prop
  | none => ∀ r ∈ records, Outlived calls r
  | some row => Tracked calls records row

theorem Follows.mono {calls : List (ℤ × AttributionCall)} {records : List (ℤ × String)}
    {row : Option Stimuli} (h : Follows calls records row) (c : ℤ × AttributionCall) :
    Follows (calls ++ [c]) records row := by
  cases row with
  | none => exact fun r hr => (h r hr).mono c
  | some row => exact Tracked.mono h c

/-- The dispatch time of a record is read before the records that follow it. -/
theorem recordsSinceTake_le {calls : List (ℤ × AttributionCall)} {now : ℤ}
    (hclock : ∀ c ∈ calls, c.1 ≤ now) (channelID agentID : String) :
    ∀ r ∈ recordsSinceTake channelID agentID calls, r.1 ≤ now :=
  fun _ hr => hclock _ (mem_of_mem_recordsSinceTake hr)

theorem Follows.sweep {calls : List (ℤ × AttributionCall)} {records : List (ℤ × String)}
    {row : Option Stimuli} (h : Follows calls records row) (now : ℤ) (ch ag principal : String) :
    Follows (calls ++ [(now, .record ch ag principal)]) records
      (row.filter fun row => !row.cold principalAttributionTTL now) := by
  cases row with
  | none => exact h.mono _
  | some row =>
    rw [Option.filter_some]
    split_ifs with hwarm
    · exact h.mono _
    · intro r hr
      have hcold := (Tracked.cold_iff h now).mp (by simpa using hwarm) r hr
      exact ⟨now, ch, ag, principal, List.mem_append_right _ (List.mem_singleton.mpr rfl), hcold⟩

/-- A record joins the row it finds. -/
theorem Follows.insert {stimulus : Stimuli → String → String}
    (hstimulus : ∀ row p, stimulus row p = p ∨ 2 ≤ row.keys.length)
    {calls : List (ℤ × AttributionCall)} {records : List (ℤ × String)} {found : Option Stimuli}
    (h : Follows calls records found) {now : ℤ} (hclock : ∀ r ∈ records, r.1 ≤ now)
    (principal : String) :
    Tracked calls (records ++ [(now, principal)])
      (AList.insert (stimulus (found.getD ∅) principal) now (found.getD ∅)) := by
  have hstamps : ∀ p stamp, (found.getD ∅).lookup p = some stamp → stamp ≤ now := by
    intro p stamp hp
    cases found with
    | none => simp at hp
    | some row =>
      obtain ⟨last, hlast, -, -, -, hle⟩ := Tracked.latest h
      exact (hle p stamp hp).trans (hclock last (List.mem_of_getLast? hlast))
  have hnames : ∀ r ∈ records, r.2 ∈ found.getD ∅ ∨ 2 ≤ (found.getD ∅).keys.length ∨
      Outlived calls r := by
    cases found with
    | none => exact fun r hr => Or.inr (Or.inr (h r hr))
    | some row => exact Tracked.names h
  generalize found.getD ∅ = row at hstamps hnames ⊢
  have hgrows := Stimuli.length_keys_le_insert row (stimulus row principal) now
  constructor
  · refine ⟨(now, principal), List.getLast?_concat, ?_, ⟨stimulus row principal, ?_⟩, ?_, ?_⟩
    · intro s hs
      rcases List.mem_append.mp hs with hs | hs
      · exact hclock s hs
      · rw [List.mem_singleton.mp hs]
    · exact AList.lookup_insert row
    · rcases hstimulus row principal with hown | hambiguous
      · rw [hown]
        exact Or.inl (AList.lookup_insert row)
      · exact Or.inr (hambiguous.trans hgrows)
    · intro p stamp hp
      rw [GoMap.lookup_insert] at hp
      split_ifs at hp
      · exact (Option.some.inj hp).symm.le
      · exact hstamps p stamp hp
  · intro r hr
    rcases List.mem_append.mp hr with hr | hr
    · rcases hnames r hr with hknown | hambiguous | hgone
      · exact Or.inl ((AList.mem_insert row).mpr (Or.inr hknown))
      · exact Or.inr (Or.inl (hambiguous.trans hgrows))
      · exact Or.inr (Or.inr hgone)
    · rw [List.mem_singleton.mp hr]
      rcases hstimulus row principal with hown | hambiguous
      · exact Or.inl ((AList.mem_insert row).mpr (Or.inl hown.symm))
      · exact Or.inr (Or.inl (hambiguous.trans hgrows))

/-! ### The table -/

namespace PrincipalAttributionTable

@[simp] theorem sweepLocked_ttl (t : PrincipalAttributionTable) (now : ℤ) :
    (t.sweepLocked now).ttl = t.ttl := by
  unfold sweepLocked
  split_ifs <;> rfl

@[simp] theorem recordUnder_ttl (stimulus : Stimuli → String → String)
    (t : PrincipalAttributionTable) (now : ℤ) (channelID agentID principal : String) :
    (t.recordUnder stimulus now channelID agentID principal).ttl = t.ttl := by
  unfold recordUnder
  split_ifs
  · rfl
  · exact sweepLocked_ttl t now

@[simp] theorem resolveLocked_ttl (t : PrincipalAttributionTable) (key : PrincipalAttributionKey)
    (now : ℤ) (spoke : Bool) : (t.resolveLocked key now spoke).2.ttl = t.ttl := by
  unfold resolveLocked
  split
  · rfl
  · dsimp only
    split_ifs <;> rfl

theorem lookup_sweepLocked (t : PrincipalAttributionTable) (now : ℤ)
    (key : PrincipalAttributionKey) :
    (t.sweepLocked now).entries.lookup key =
      if t.lastSweep ≠ 0 ∧ timeSub now t.lastSweep < t.ttl then t.entries.lookup key
      else (t.entries.lookup key).filter fun row => !row.cold t.ttl now := by
  unfold sweepLocked
  split_ifs
  · rfl
  · exact GoMap.lookup_deleteIf _ _ key

theorem lookup_recordUnder (stimulus : Stimuli → String → String) (t : PrincipalAttributionTable)
    (now : ℤ) {channelID agentID : String} (hproper : ¬(channelID = "" ∨ agentID = ""))
    (principal : String) (key : PrincipalAttributionKey) :
    (t.recordUnder stimulus now channelID agentID principal).entries.lookup key =
      if key = ⟨channelID, agentID⟩ then
        let row := ((t.sweepLocked now).entries.lookup ⟨channelID, agentID⟩).getD ∅
        some (AList.insert (stimulus row principal) now row)
      else (t.sweepLocked now).entries.lookup key := by
  unfold recordUnder
  rw [if_neg hproper]
  exact GoMap.lookup_insert _ _ _ _

theorem lookup_resolveLocked (t : PrincipalAttributionTable) (key key' : PrincipalAttributionKey)
    (now : ℤ) (spoke : Bool) :
    (t.resolveLocked key now spoke).2.entries.lookup key' =
      if spoke = true ∧ key' = key then none else t.entries.lookup key' := by
  unfold resolveLocked
  cases hrow : t.entries.lookup key with
  | none =>
    by_cases htaken : spoke = true ∧ key' = key
    · rw [if_pos htaken, htaken.2]
      exact hrow
    · rw [if_neg htaken]
  | some row =>
    dsimp only
    cases spoke with
    | false => simp
    | true => simpa using GoMap.lookup_erase t.entries key key'

/-- The rows follow the records of their pairs. -/
structure Inv (calls : List (ℤ × AttributionCall)) (t : PrincipalAttributionTable) : Prop where
  ttl : t.ttl = principalAttributionTTL
  proper : ∀ key, key.channelID = "" ∨ key.agentID = "" → t.entries.lookup key = none
  rows : ∀ channelID agentID, ¬(channelID = "" ∨ agentID = "") →
    Follows calls (recordsSinceTake channelID agentID calls)
      (t.entries.lookup ⟨channelID, agentID⟩)

theorem Inv.sweepLocked_rows {calls : List (ℤ × AttributionCall)} {t : PrincipalAttributionTable}
    (h : Inv calls t) (now : ℤ) (ch ag principal : String) {channelID agentID : String}
    (hproper : ¬(channelID = "" ∨ agentID = "")) :
    Follows (calls ++ [(now, .record ch ag principal)]) (recordsSinceTake channelID agentID calls)
      ((t.sweepLocked now).entries.lookup ⟨channelID, agentID⟩) := by
  have hrow := h.rows channelID agentID hproper
  rw [lookup_sweepLocked, h.ttl]
  split_ifs
  · exact hrow.mono _
  · exact hrow.sweep now ch ag principal

theorem Inv.recordUnder {stimulus : Stimuli → String → String}
    (hstimulus : ∀ row p, stimulus row p = p ∨ 2 ≤ row.keys.length)
    {calls : List (ℤ × AttributionCall)} {t : PrincipalAttributionTable} (h : Inv calls t) {now : ℤ}
    (hclock : ∀ c ∈ calls, c.1 ≤ now) (ch ag principal : String) :
    Inv (calls ++ [(now, .record ch ag principal)])
      (t.recordUnder stimulus now ch ag principal) := by
  by_cases hempty : ch = "" ∨ ag = ""
  · -- a blank pair is not recorded, and no proper pair sees it
    have hsame : t.recordUnder stimulus now ch ag principal = t := if_pos hempty
    rw [hsame]
    refine ⟨h.ttl, h.proper, fun channelID agentID hproper => ?_⟩
    rw [recordsSinceTake_snoc]
    dsimp only
    rw [if_neg (by rintro ⟨rfl, rfl⟩; exact hproper hempty)]
    exact (h.rows channelID agentID hproper).mono _
  · constructor
    · rw [recordUnder_ttl, h.ttl]
    · intro key hkey
      rw [lookup_recordUnder stimulus t now hempty, if_neg (by rintro rfl; exact hempty hkey),
        lookup_sweepLocked, h.proper key hkey]
      simp
    · intro channelID agentID hproper
      rw [lookup_recordUnder stimulus t now hempty, recordsSinceTake_snoc]
      dsimp only
      by_cases hpair : ch = channelID ∧ ag = agentID
      · obtain ⟨rfl, rfl⟩ := hpair
        rw [if_pos ⟨rfl, rfl⟩, if_pos rfl]
        exact Follows.insert hstimulus (h.sweepLocked_rows now ch ag principal hproper)
          (recordsSinceTake_le hclock ch ag) principal
      · rw [if_neg hpair, if_neg (by rintro ⟨⟩; exact hpair ⟨rfl, rfl⟩)]
        exact h.sweepLocked_rows now ch ag principal hproper

theorem Inv.resolveLocked {calls : List (ℤ × AttributionCall)} {t : PrincipalAttributionTable}
    (h : Inv calls t) (now : ℤ) (ch ag : String) (spoke : Bool) :
    Inv (calls ++ [(now, if spoke then .takeAttribution ch ag else .lookup ch ag)])
      (t.resolveLocked ⟨ch, ag⟩ now spoke).2 := by
  constructor
  · rw [resolveLocked_ttl, h.ttl]
  · intro key hkey
    rw [lookup_resolveLocked, h.proper key hkey, ite_self]
  · intro channelID agentID hproper
    rw [lookup_resolveLocked, recordsSinceTake_snoc]
    have hrow := (h.rows channelID agentID hproper).mono
      (now, if spoke then .takeAttribution ch ag else .lookup ch ag)
    cases spoke with
    | false => simpa using hrow
    | true =>
      by_cases hpair : ch = channelID ∧ ag = agentID
      · obtain ⟨rfl, rfl⟩ := hpair
        simp [Follows]
      · have hkey : (⟨channelID, agentID⟩ : PrincipalAttributionKey) ≠ ⟨ch, ag⟩ := by
          rintro ⟨⟩
          exact hpair ⟨rfl, rfl⟩
        simpa [hpair, hkey] using hrow

theorem Inv.callUnder {stimulus : Stimuli → String → String}
    (hstimulus : ∀ row p, stimulus row p = p ∨ 2 ≤ row.keys.length)
    {calls : List (ℤ × AttributionCall)} {t : PrincipalAttributionTable} (h : Inv calls t) {now : ℤ}
    (hclock : ∀ c ∈ calls, c.1 ≤ now) (call : AttributionCall) :
    Inv (calls ++ [(now, call)]) (t.callUnder stimulus now call) := by
  cases call with
  | record ch ag principal => exact h.recordUnder hstimulus hclock ch ag principal
  | lookup ch ag => exact h.resolveLocked now ch ag false
  | takeAttribution ch ag => exact h.resolveLocked now ch ag true

theorem inv_runUnder {stimulus : Stimuli → String → String}
    (hstimulus : ∀ row p, stimulus row p = p ∨ 2 ≤ row.keys.length)
    {calls : List (ℤ × AttributionCall)} (hclock : (calls.map Prod.fst).Pairwise (· ≤ ·)) :
    Inv calls (runUnder stimulus calls) := by
  induction calls using List.reverseRecOn with
  | nil => exact ⟨rfl, fun _ _ => rfl, fun _ _ _ => by simp [runUnder, new, Follows, recordsSinceTake]⟩
  | append_singleton calls c ih =>
    rw [List.map_append, List.pairwise_append] at hclock
    rw [runUnder, List.foldl_append]
    exact (ih hclock.1).callUnder hstimulus
      (fun d hd => hclock.2.2 _ (List.mem_map_of_mem hd) c.1 (by simp)) c.2

/-! ### The table without the cap -/

/-- Rows with the same verdict, now and after any further dispatch to both. -/
def Twins (c u : Stimuli) : Prop := c = u ∨ 2 ≤ c.keys.length ∧ 2 ≤ u.keys.length

theorem Twins.resolve {c u : Stimuli} (h : Twins c u) (ttl now : ℤ) :
    c.resolve ttl now = u.resolve ttl now := by
  rcases h with rfl | ⟨hc, hu⟩
  · rfl
  · rw [Stimuli.resolve_ambiguous hc, Stimuli.resolve_ambiguous hu]

theorem Twins.insert {c u : Stimuli} (h : Twins c u) (principal : String) (now : ℤ) :
    Twins (AList.insert (c.stimulus principal) now c) (AList.insert principal now u) := by
  have hgrows {row : Stimuli} (hrow : 2 ≤ row.keys.length) (p : String) :
      2 ≤ (AList.insert p now row).keys.length :=
    hrow.trans (Stimuli.length_keys_le_insert row p now)
  rcases h with rfl | ⟨hc, hu⟩
  · rcases Stimuli.stimulus_eq_or c principal with hown | hambiguous
    · rw [hown]
      exact Or.inl rfl
    · exact Or.inr ⟨hgrows hambiguous _, hgrows hambiguous _⟩
  · exact Or.inr ⟨hgrows hc _, hgrows hu _⟩

structure TwinTables (t u : PrincipalAttributionTable) : Prop where
  lastSweep : t.lastSweep = u.lastSweep
  rows : ∀ key, Option.Rel Twins (t.entries.lookup key) (u.entries.lookup key)

/-- Rows that follow the same records are swept together. -/
theorem Twins.filter_cold {calls : List (ℤ × AttributionCall)} {records : List (ℤ × String)}
    {c u : Option Stimuli} (h : Option.Rel Twins c u) (hc : Follows calls records c)
    (hu : Follows calls records u) (now : ℤ) :
    Option.Rel Twins (c.filter fun row => !row.cold principalAttributionTTL now)
      (u.filter fun row => !row.cold principalAttributionTTL now) := by
  cases h with
  | none => exact Option.Rel.none
  | @some c u htwins =>
    have hcold : c.cold principalAttributionTTL now = u.cold principalAttributionTTL now := by
      rw [Bool.eq_iff_iff, Tracked.cold_iff hc, Tracked.cold_iff hu]
    rw [Option.filter_some, Option.filter_some, hcold]
    split_ifs
    · exact Option.Rel.some htwins
    · exact Option.Rel.none

variable {calls : List (ℤ × AttributionCall)} {t u : PrincipalAttributionTable}

theorem TwinTables.sweepLocked (h : TwinTables t u) (ht : Inv calls t) (hu : Inv calls u)
    (now : ℤ) : TwinTables (t.sweepLocked now) (u.sweepLocked now) := by
  constructor
  · unfold PrincipalAttributionTable.sweepLocked
    rw [← h.lastSweep, ht.ttl, hu.ttl]
    split_ifs
    · exact h.lastSweep
    · rfl
  · intro key
    rw [lookup_sweepLocked, lookup_sweepLocked, ← h.lastSweep, ht.ttl, hu.ttl]
    split_ifs
    · exact h.rows key
    · by_cases hproper : key.channelID = "" ∨ key.agentID = ""
      · rw [ht.proper key hproper, hu.proper key hproper]
        exact Option.Rel.none
      · exact Twins.filter_cold (h.rows key) (ht.rows _ _ hproper) (hu.rows _ _ hproper) now

theorem TwinTables.record (h : TwinTables t u) (ht : Inv calls t) (hu : Inv calls u) (now : ℤ)
    (ch ag principal : String) :
    TwinTables (t.record now ch ag principal) (u.recordUncapped now ch ag principal) := by
  by_cases hempty : ch = "" ∨ ag = ""
  · have hsame (stimulus : Stimuli → String → String) (s : PrincipalAttributionTable) :
        s.recordUnder stimulus now ch ag principal = s := if_pos hempty
    unfold PrincipalAttributionTable.record recordUncapped
    rwa [hsame, hsame]
  · have hswept := h.sweepLocked ht hu now
    constructor
    · unfold PrincipalAttributionTable.record recordUncapped recordUnder
      rw [if_neg hempty, if_neg hempty]
      exact hswept.lastSweep
    · intro key
      unfold PrincipalAttributionTable.record recordUncapped
      rw [lookup_recordUnder _ t now hempty, lookup_recordUnder _ u now hempty]
      split_ifs
      · apply Option.Rel.some
        have hfound : Twins (((t.sweepLocked now).entries.lookup ⟨ch, ag⟩).getD ∅)
            (((u.sweepLocked now).entries.lookup ⟨ch, ag⟩).getD ∅) := by
          have hrow := hswept.rows ⟨ch, ag⟩
          generalize (t.sweepLocked now).entries.lookup ⟨ch, ag⟩ = c at hrow ⊢
          generalize (u.sweepLocked now).entries.lookup ⟨ch, ag⟩ = d at hrow ⊢
          cases hrow with
          | none => exact Or.inl rfl
          | some htwins => exact htwins
        exact hfound.insert principal now
      · exact hswept.rows key

theorem TwinTables.resolveLocked (h : TwinTables t u) (key : PrincipalAttributionKey) (now : ℤ)
    (spoke : Bool) :
    TwinTables (t.resolveLocked key now spoke).2 (u.resolveLocked key now spoke).2 := by
  have hsweep (s : PrincipalAttributionTable) :
      (s.resolveLocked key now spoke).2.lastSweep = s.lastSweep := by
    unfold PrincipalAttributionTable.resolveLocked
    cases s.entries.lookup key <;> cases spoke <;> rfl
  constructor
  · rw [hsweep, hsweep]
    exact h.lastSweep
  · intro key'
    rw [lookup_resolveLocked, lookup_resolveLocked]
    split_ifs
    · exact Option.Rel.none
    · exact h.rows key'

theorem TwinTables.verdict (h : TwinTables t u) (httl : t.ttl = u.ttl)
    (key : PrincipalAttributionKey) (now : ℤ) (spoke : Bool) :
    (t.resolveLocked key now spoke).1 = (u.resolveLocked key now spoke).1 := by
  unfold PrincipalAttributionTable.resolveLocked
  rw [← httl]
  have hrow := h.rows key
  generalize t.entries.lookup key = c at hrow ⊢
  generalize u.entries.lookup key = d at hrow ⊢
  cases hrow with
  | none => rfl
  | some htwins => exact htwins.resolve t.ttl now

theorem inv_run (hclock : (calls.map Prod.fst).Pairwise (· ≤ ·)) : Inv calls (run calls) :=
  inv_runUnder Stimuli.stimulus_eq_or hclock

theorem inv_runUncapped (hclock : (calls.map Prod.fst).Pairwise (· ≤ ·)) :
    Inv calls (runUncapped calls) :=
  inv_runUnder (fun _ _ => Or.inl rfl) hclock

theorem twinTables_run (hclock : (calls.map Prod.fst).Pairwise (· ≤ ·)) :
    TwinTables (run calls) (runUncapped calls) := by
  induction calls using List.reverseRecOn with
  | nil => exact ⟨rfl, fun _ => Option.Rel.none⟩
  | append_singleton calls c ih =>
    rw [List.map_append, List.pairwise_append] at hclock
    have htwin := ih hclock.1
    have ht := inv_run hclock.1
    have hu := inv_runUncapped hclock.1
    unfold run runUncapped runUnder at *
    rw [List.foldl_append, List.foldl_append]
    obtain ⟨now, call⟩ := c
    cases call with
    | record ch ag principal => exact htwin.record ht hu now ch ag principal
    | lookup ch ag => exact htwin.resolveLocked _ now false
    | takeAttribution ch ag => exact htwin.resolveLocked _ now true

/-! ### The size of a row -/

def RowsBounded (t : PrincipalAttributionTable) : Prop :=
  ∀ key row, t.entries.lookup key = some row → row.Bounded

theorem RowsBounded.sweepLocked (h : RowsBounded t) (now : ℤ) : RowsBounded (t.sweepLocked now) := by
  intro key row hrow
  rw [lookup_sweepLocked] at hrow
  split_ifs at hrow
  · exact h key row hrow
  · exact h key row (Option.filter_eq_some_iff.mp hrow).1

theorem RowsBounded.record (h : RowsBounded t) (now : ℤ) (ch ag principal : String) :
    RowsBounded (t.record now ch ag principal) := by
  by_cases hempty : ch = "" ∨ ag = ""
  · have hsame : t.record now ch ag principal = t := if_pos hempty
    rwa [hsame]
  · intro key row hrow
    unfold PrincipalAttributionTable.record at hrow
    rw [lookup_recordUnder _ t now hempty] at hrow
    split_ifs at hrow
    · have hfound : Stimuli.Bounded (((t.sweepLocked now).entries.lookup ⟨ch, ag⟩).getD ∅) := by
        cases hlookup : (t.sweepLocked now).entries.lookup ⟨ch, ag⟩ with
        | none => exact Stimuli.bounded_empty
        | some found => exact h.sweepLocked now _ found hlookup
      rw [← Option.some.inj hrow]
      exact hfound.insert_stimulus principal now
    · exact h.sweepLocked now key row hrow

theorem RowsBounded.resolveLocked (h : RowsBounded t) (key : PrincipalAttributionKey) (now : ℤ)
    (spoke : Bool) : RowsBounded (t.resolveLocked key now spoke).2 := by
  intro key' row hrow
  rw [lookup_resolveLocked] at hrow
  split_ifs at hrow
  exact h key' row hrow

theorem rowsBounded_run (calls : List (ℤ × AttributionCall)) : RowsBounded (run calls) := by
  induction calls using List.reverseRecOn with
  | nil => simp [RowsBounded, run, runUnder, new]
  | append_singleton calls c ih =>
    unfold run runUnder at *
    rw [List.foldl_append]
    obtain ⟨now, call⟩ := c
    cases call with
    | record ch ag principal => exact ih.record now ch ag principal
    | lookup ch ag => exact ih.resolveLocked _ now false
    | takeAttribution ch ag => exact ih.resolveLocked _ now true

/-- A verdict names the principal of the records the reply can answer. -/
theorem resolveLocked_eq_true (h : Inv calls t) {channelID agentID p : String} {now : ℤ}
    {spoke : Bool} (hverdict : (t.resolveLocked ⟨channelID, agentID⟩ now spoke).1 = (p, true)) :
    (∃ stamp, (recordsSinceTake channelID agentID calls).getLast? = some (stamp, p) ∧
        now - stamp < principalAttributionTTL) ∧
      ∀ r ∈ recordsSinceTake channelID agentID calls, r.2 = p ∨ Outlived calls r := by
  unfold PrincipalAttributionTable.resolveLocked at hverdict
  cases hlookup : t.entries.lookup ⟨channelID, agentID⟩ with
  | none =>
    rw [hlookup] at hverdict
    simp at hverdict
  | some row =>
    rw [hlookup, h.ttl] at hverdict
    obtain ⟨stamp, honly, hsize, hlive⟩ := Stimuli.resolve_eq_true hverdict
    have hproper : ¬(channelID = "" ∨ agentID = "") := by
      intro hempty
      rw [h.proper ⟨channelID, agentID⟩ hempty] at hlookup
      simp at hlookup
    have htracked := h.rows channelID agentID hproper
    rw [hlookup] at htracked
    obtain ⟨last, hlast, -, -, hown, -⟩ := Tracked.latest htracked
    constructor
    · have hkey : row.lookup last.2 = some last.1 := hown.resolve_right (by omega)
      obtain ⟨hname, hstamp⟩ := (honly _ _).mp hkey
      refine ⟨stamp, ?_, (timeSub_lt_ttl now stamp).mp hlive⟩
      rw [hlast, ← hname, ← hstamp]
    · intro r hr
      rcases Tracked.names htracked r hr with hknown | hambiguous | hgone
      · obtain ⟨s, hs⟩ := Option.isSome_iff_exists.mp (AList.lookup_isSome.mpr hknown)
        exact Or.inl ((honly _ _).mp hs).1
      · omega
      · exact Or.inr hgone

theorem takeAttribution_never_wrong (calls : List (ℤ × AttributionCall)) (now : ℤ)
    (hclock : (calls.map Prod.fst ++ [now]).Pairwise (· ≤ ·)) (channelID agentID : String) :
    (∀ p, ((run calls).takeAttribution now channelID agentID).1 = (p, true) →
        (∃ stamp, (recordsSinceTake channelID agentID calls).getLast? = some (stamp, p) ∧
          now - stamp < principalAttributionTTL) ∧
        ∀ r ∈ recordsSinceTake channelID agentID calls, r.2 = p ∨
          ∃ later ch ag principal, (later, .record ch ag principal) ∈ calls ∧ later ≤ now ∧
            2 * principalAttributionTTL ≤ later - r.1) ∧
      ((run calls).takeAttribution now channelID agentID).1 =
        ((runUncapped calls).takeAttribution now channelID agentID).1 ∧
      ∀ key row, (run calls).entries.lookup key = some row →
        row.keys.length ≤ maxNamedStimuliPerPair + 1 := by
  rw [List.pairwise_append] at hclock
  have hinv := inv_run hclock.1
  refine ⟨fun p hverdict => ?_, ?_, fun key row hrow => ?_⟩
  · obtain ⟨hlatest, hnames⟩ := resolveLocked_eq_true hinv hverdict
    refine ⟨hlatest, fun r hr => (hnames r hr).imp_right ?_⟩
    rintro ⟨later, ch, ag, principal, hmem, hold⟩
    exact ⟨later, ch, ag, principal, hmem,
      hclock.2.2 _ (List.mem_map_of_mem hmem) now (by simp), hold⟩
  · exact (twinTables_run hclock.1).verdict (hinv.ttl.trans (inv_runUncapped hclock.1).ttl.symm)
      _ now true
  · have hbounded := rowsBounded_run calls key row hrow
    unfold Stimuli.Bounded at hbounded
    split_ifs at hbounded <;> omega

/-- A reply is attributed, and the reply after it is not. -/
theorem takeAttribution_never_wrong_one_record :
    ((run [(5, .record "room" "bot" "alice")]).takeAttribution 7 "room" "bot").1 =
        ("alice", true) ∧
      (∃ stamp, (recordsSinceTake "room" "bot" [(5, .record "room" "bot" "alice")]).getLast? =
          some (stamp, "alice") ∧ 7 - stamp < principalAttributionTTL) :=
  ⟨by decide, ((takeAttribution_never_wrong [(5, .record "room" "bot" "alice")] 7 (by decide)
    "room" "bot").1 "alice" (by decide)).1⟩

end PrincipalAttributionTable
end Persatrix.Channels
