import Persatrix.AuditAgreement

/-!
# What of a file the check reads

The check goes from value to value, not from line to line. It ends where a bracket or brace closes
nothing, whatever follows, and it does not ask for a blank between two events.
-/
namespace Persatrix.Json

/-! ### What is left is shorter -/

theorem next_shorter {s t : GoString} {b : UInt8} (h : next s = some (b, t)) :
    t.length < s.length := by
  unfold next at h
  have hsuffix := List.dropWhile_suffix (l := s) isSpace
  cases hs : s.dropWhile isSpace with
  | nil =>
    rw [hs] at h
    cases h
  | cons c u =>
    rw [hs] at h hsuffix
    cases h
    exact Nat.lt_of_succ_le hsuffix.length_le

theorem expect_shorter {b : UInt8} {s t : GoString} (h : expect b s = some t) :
    t.length < s.length := by
  obtain ⟨⟨c, u⟩, hnext, hc⟩ := Option.bind_eq_some_iff.mp h
  dsimp only at hc
  split_ifs at hc
  cases hc
  exact next_shorter hnext

theorem scanLit_shorter {s rest : GoString} {lit : StringLit} (h : scanLit s = some (lit, rest)) :
    rest.length < s.length := by
  rw [scanLit_eq_some_iff.mp h, List.length_append, List.length_cons]
  omega

theorem readWord_shorter {word s : GoString} {d : Doc} {p : Doc × GoString}
    (h : readWord word d s = some p) : p.2.length ≤ s.length := by
  unfold readWord at h
  split_ifs at h
  cases h
  rw [List.length_drop]
  omega

theorem readNumberLit_shorter {s : GoString} {p : Doc × GoString} (h : readNumberLit s = some p) :
    p.2.length < s.length := by
  unfold readNumberLit at h
  split_ifs at h with hnumber
  cases h
  obtain ⟨b, t, hhead, -⟩ := numberLit_head ⟨_, hnumber⟩
  have htaken := congrArg List.length hhead
  have hsplit := congrArg List.length (List.takeWhile_append_dropWhile (p := isNumberByte) (l := s))
  rw [List.length_cons] at htaken
  rw [List.length_append] at hsplit
  dsimp only at htaken ⊢
  omega

theorem parse_shorter : ∀ turns : ℕ,
    (∀ {depth : ℕ} {s : GoString} {p : Doc × GoString},
      parseValue turns depth s = some p → p.2.length < s.length) ∧
    (∀ {depth : ℕ} {s : GoString} {p : List Doc × GoString},
      parseElems turns depth s = some p → p.2.length < s.length) ∧
    (∀ {depth : ℕ} {s : GoString} {p : List (StringLit × Doc) × GoString},
      parseMembers turns depth s = some p → p.2.length < s.length) := by
  intro turns
  induction turns with
  | zero =>
    refine ⟨?_, ?_, ?_⟩
    · intro _ _ _ h
      cases h
    · intro _ _ _ h
      cases h
    · intro _ _ _ h
      cases h
  | succ turns ih =>
    obtain ⟨ihvalue, ihelems, ihmembers⟩ := ih
    refine ⟨?_, ?_, ?_⟩
    · intro depth s p h
      rw [parseValue] at h
      obtain ⟨⟨b, t⟩, hnext, h⟩ := Option.bind_eq_some_iff.mp h
      have ht := next_shorter hnext
      dsimp only at h
      split_ifs at h with hbrace hno hbracket hno hquote hnull htrue hfalse
      · obtain ⟨⟨c, u⟩, hc, h⟩ := Option.bind_eq_some_iff.mp h
        have hu := next_shorter hc
        dsimp only at h
        split_ifs at h
        · cases h
          exact hu.trans ht
        · obtain ⟨q, hq, rfl⟩ := Option.map_eq_some_iff.mp h
          exact (ihmembers hq).trans ht
      · obtain ⟨⟨c, u⟩, hc, h⟩ := Option.bind_eq_some_iff.mp h
        have hu := next_shorter hc
        dsimp only at h
        split_ifs at h
        · cases h
          exact hu.trans ht
        · obtain ⟨q, hq, rfl⟩ := Option.map_eq_some_iff.mp h
          exact (ihelems hq).trans ht
      · obtain ⟨q, hq, rfl⟩ := Option.map_eq_some_iff.mp h
        exact (scanLit_shorter hq).trans ht
      · exact (readWord_shorter h).trans_lt ht
      · exact (readWord_shorter h).trans_lt ht
      · exact (readWord_shorter h).trans_lt ht
      · exact (readNumberLit_shorter h).trans_le (Nat.succ_le_of_lt ht)
    · intro depth s p h
      rw [parseElems] at h
      obtain ⟨⟨d, t⟩, hvalue, h⟩ := Option.bind_eq_some_iff.mp h
      obtain ⟨⟨b, u⟩, hnext, h⟩ := Option.bind_eq_some_iff.mp h
      have hu := (next_shorter hnext).trans (ihvalue hvalue)
      dsimp only at h
      split_ifs at h
      · cases h
        exact hu
      · obtain ⟨q, hq, rfl⟩ := Option.map_eq_some_iff.mp h
        exact (ihelems hq).trans hu
    · intro depth s p h
      rw [parseMembers] at h
      obtain ⟨t, hquote, h⟩ := Option.bind_eq_some_iff.mp h
      obtain ⟨⟨key, u⟩, hkey, h⟩ := Option.bind_eq_some_iff.mp h
      obtain ⟨v, hcolon, h⟩ := Option.bind_eq_some_iff.mp h
      obtain ⟨⟨d, w⟩, hvalue, h⟩ := Option.bind_eq_some_iff.mp h
      obtain ⟨⟨b, x⟩, hnext, h⟩ := Option.bind_eq_some_iff.mp h
      have hv := (expect_shorter hcolon).trans ((scanLit_shorter hkey).trans
        (expect_shorter hquote))
      have hx := (next_shorter hnext).trans ((ihvalue hvalue).trans hv)
      dsimp only at h
      split_ifs at h
      · cases h
        exact hx
      · obtain ⟨q, hq, rfl⟩ := Option.map_eq_some_iff.mp h
        exact (ihmembers hq).trans hx

/-- No value is read where there are only blanks, or where a bracket or brace closes nothing. -/
theorem parse_none {s : GoString}
    (h : ∀ b t, next s = some (b, t) → b = closeBracket ∨ b = closeBrace) : parse s = none := by
  rw [parse, parseValue]
  cases hnext : next s with
  | none => rfl
  | some p =>
    obtain ⟨b, t⟩ := p
    rcases h b t hnext with rfl | rfl
    · rfl
    · rfl

end Persatrix.Json

namespace Persatrix.Security
open Json

section Chain
variable (sha256 : GoString → Digest)

/-! ### The events of a file -/

/-- The text begins with an event whose checksum is the one after the given checksum. -/
def EventAt (prevSum s : GoString) (ev : AuditEvent) (rest : GoString) : Prop :=
  ∃ d, parse s = some (d, rest) ∧ decodeEvent d = some ev ∧
    checksumOf sha256 (canonicalEventJSON ev prevSum) = ev.checksum

/-- A text of events that continue the chain from a checksum: of what follows each event the
first condition holds, and of what follows the last the second, after its checksum. -/
inductive Events (apart : GoString → Prop) (ends : GoString → GoString → Prop) :
    GoString → GoString → Prop
  | done {prevSum s : GoString} : ends prevSum s → Events apart ends prevSum s
  | event {prevSum s rest : GoString} {ev : AuditEvent} : EventAt sha256 prevSum s ev rest →
      apart rest → Events apart ends ev.checksum rest → Events apart ends prevSum s

def Blank (s : GoString) : Prop := ∀ b ∈ s, Json.isSpace b = true

/-- A blank comes first, if anything does. -/
def Apart (s : GoString) : Prop := ∀ b, s.head? = some b → Json.isSpace b = true

/-- After the blanks comes a bracket or brace that closes nothing. -/
def Closes (s : GoString) : Prop :=
  ∃ b t, next s = some (b, t) ∧ (b = closeBracket ∨ b = closeBrace)

/-- The whole file is a sequence of matching events with blanks between them. -/
def Verified (file : GoString) : Prop :=
  Events sha256 Apart (fun _ => Blank) (emptyChecksum sha256) file

/-- The matching events at the beginning are followed by a bracket or brace that closes
nothing. -/
def Closed (file : GoString) : Prop :=
  Events sha256 (fun _ => True) (fun _ => Closes) (emptyChecksum sha256) file

/-- The whole file is a sequence of matching events, and nothing is between some two of them. -/
def Adjoined (file : GoString) : Prop :=
  Events sha256 (fun _ => True)
    (fun prevSum s => ∃ ev rest, EventAt sha256 prevSum s ev rest ∧ ¬ Apart rest ∧
      Events sha256 (fun _ => True) (fun _ => Blank) ev.checksum rest)
    (emptyChecksum sha256) file

theorem next_eq_none_iff {s : GoString} : next s = none ↔ Blank s := by
  unfold next
  rw [Blank, ← List.dropWhile_eq_nil_iff]
  cases s.dropWhile Json.isSpace with
  | nil => exact iff_of_true rfl rfl
  | cons b t => exact iff_of_false nofun nofun

variable {sha256}

theorem EventAt.shorter {prevSum s rest : GoString} {ev : AuditEvent}
    (h : EventAt sha256 prevSum s ev rest) : rest.length < s.length := by
  obtain ⟨d, hparse, -, -⟩ := h
  exact (parse_shorter _).1 hparse

theorem EventAt.unique {prevSum s rest rest' : GoString} {ev ev' : AuditEvent}
    (h : EventAt sha256 prevSum s ev rest) (h' : EventAt sha256 prevSum s ev' rest') :
    ev = ev' ∧ rest = rest' := by
  obtain ⟨d, hparse, hev, -⟩ := h
  obtain ⟨d', hparse', hev', -⟩ := h'
  rw [hparse] at hparse'
  cases hparse'
  rw [hev] at hev'
  cases hev'
  exact ⟨rfl, rfl⟩

theorem EventAt.not_blank {prevSum s rest : GoString} {ev : AuditEvent}
    (h : EventAt sha256 prevSum s ev rest) : ¬ Blank s := by
  obtain ⟨d, hparse, -, -⟩ := h
  intro hblank
  have hnone : parse s = none := by
    apply parse_none
    intro b t hnext
    rw [next_eq_none_iff.mpr hblank] at hnext
    cases hnext
  rw [hparse] at hnone
  cases hnone

theorem EventAt.not_closes {prevSum s rest : GoString} {ev : AuditEvent}
    (h : EventAt sha256 prevSum s ev rest) : ¬ Closes s := by
  obtain ⟨d, hparse, -, -⟩ := h
  rintro ⟨b, t, hnext, hb⟩
  have hnone : parse s = none := by
    apply parse_none
    intro c u hc
    rw [hnext] at hc
    cases hc
    exact hb
  rw [hparse] at hnone
  cases hnone

theorem Blank.not_closes {s : GoString} (h : Blank s) : ¬ Closes s := by
  rintro ⟨b, t, hnext, -⟩
  rw [next_eq_none_iff.mpr h] at hnext
  cases hnext

/-! ### Sequences of events -/

variable {apart apart' : GoString → Prop} {ends ends' : GoString → GoString → Prop}

theorem Events.mono {prevSum s : GoString} (h : Events sha256 apart ends prevSum s)
    (hapart : ∀ t, apart t → apart' t) (hends : ∀ sum t, ends sum t → ends' sum t) :
    Events sha256 apart' ends' prevSum s := by
  induction h with
  | done hdone => exact .done (hends _ _ hdone)
  | event hevent hrest _ ih => exact .event hevent (hapart _ hrest) ih

/-- A text is not two sequences when neither may end where the other has an event or ends. -/
theorem Events.disjoint {prevSum s : GoString} (h : Events sha256 apart ends prevSum s)
    (h' : Events sha256 apart' ends' prevSum s) (hends : ∀ sum t, ends sum t → ¬ ends' sum t)
    (hleft : ∀ {sum t ev rest}, ends sum t → EventAt sha256 sum t ev rest → ¬ apart' rest)
    (hright : ∀ {sum t ev rest}, ends' sum t → EventAt sha256 sum t ev rest → ¬ apart rest) :
    False := by
  induction h with
  | done hdone =>
    cases h' with
    | done hdone' => exact hends _ _ hdone hdone'
    | event hevent hrest _ => exact hleft hdone hevent hrest
  | event hevent hrest _ ih =>
    cases h' with
    | done hdone' => exact hright hdone' hevent hrest
    | event hevent' hrest' h' =>
      obtain ⟨rfl, rfl⟩ := hevent.unique hevent'
      exact ih h'

theorem Events.of_or {prevSum s : GoString}
    (h : Events sha256 apart (fun sum t => ends sum t ∨ ends' sum t) prevSum s) :
    Events sha256 apart ends prevSum s ∨ Events sha256 apart ends' prevSum s := by
  induction h with
  | done hdone =>
    rcases hdone with hdone | hdone
    · exact .inl (.done hdone)
    · exact .inr (.done hdone)
  | event hevent hrest _ ih =>
    rcases ih with ih | ih
    · exact .inl (.event hevent hrest ih)
    · exact .inr (.event hevent hrest ih)

/-- Either a blank follows each event, or two events have nothing between them. -/
theorem Events.apart_or {prevSum s : GoString}
    (h : Events sha256 (fun _ => True) ends prevSum s) :
    Events sha256 Apart ends prevSum s ∨
      Events sha256 (fun _ => True)
        (fun sum t => ∃ ev rest, EventAt sha256 sum t ev rest ∧ ¬ Apart rest ∧
          Events sha256 (fun _ => True) ends ev.checksum rest) prevSum s := by
  induction h with
  | done hdone => exact .inl (.done hdone)
  | @event prevSum s rest ev hevent _ hevents ih =>
    rcases ih with ih | ih
    · by_cases hrest : Apart rest
      · exact .inl (.event hevent hrest ih)
      · exact .inr (.done ⟨ev, rest, hevent, hrest, hevents⟩)
    · exact .inr (.event hevent trivial ih)

theorem Events.of_adjoined {prevSum s : GoString}
    (h : Events sha256 (fun _ => True)
      (fun sum t => ∃ ev rest, EventAt sha256 sum t ev rest ∧ ¬ Apart rest ∧
        Events sha256 (fun _ => True) ends ev.checksum rest) prevSum s) :
    Events sha256 (fun _ => True) ends prevSum s := by
  induction h with
  | done hdone =>
    obtain ⟨ev, rest, hevent, -, hevents⟩ := hdone
    exact .event hevent trivial hevents
  | event hevent _ _ ih => exact .event hevent trivial ih

/-! ### What the check accepts -/

/-- One turn, where there is something to be read. -/
theorem verifyLines_event {turns : ℕ} {prevSum : GoString} {lineNo : ℕ} {s : GoString}
    (hblank : ¬ Blank s) (hcloses : ¬ Closes s) :
    verifyLines sha256 (turns + 1) prevSum lineNo s = .ok () ↔
      ∃ ev rest, EventAt sha256 prevSum s ev rest ∧
        verifyLines sha256 turns ev.checksum (lineNo + 1) rest = .ok () := by
  rw [verifyLines]
  cases hnext : next s with
  | none => exact absurd (next_eq_none_iff.mp hnext) hblank
  | some p =>
    obtain ⟨b, t⟩ := p
    have hb : ¬ (b = closeBracket ∨ b = closeBrace) := fun hb => hcloses ⟨b, t, hnext, hb⟩
    dsimp only
    rw [if_neg hb]
    cases hread : (parse s).bind fun p => (decodeEvent p.1).map fun ev => (ev, p.2) with
    | none =>
      refine iff_of_false (fun hok => by cases hok) ?_
      rintro ⟨ev, rest, ⟨d, hparse, hev, -⟩, -⟩
      rw [hparse, Option.bind_some, hev] at hread
      cases hread
    | some q =>
      obtain ⟨p, hparse, hp⟩ := Option.bind_eq_some_iff.mp hread
      obtain ⟨ev, hev, rfl⟩ := Option.map_eq_some_iff.mp hp
      dsimp only
      cases hcheck : checkLine sha256 prevSum ev with
      | error e =>
        refine iff_of_false (fun hok => by cases hok) ?_
        rintro ⟨ev', rest, ⟨d, hparse', hev', hsum⟩, -⟩
        rw [hparse] at hparse'
        cases hparse'
        rw [hev] at hev'
        cases hev'
        rw [(checkLine_ok_iff sha256 prevSum ev).mpr hsum] at hcheck
        cases hcheck
      | ok u =>
        have hevent : EventAt sha256 prevSum s ev p.2 :=
          ⟨p.1, hparse, hev, (checkLine_ok_iff sha256 prevSum ev).mp hcheck⟩
        constructor
        · intro hrest
          exact ⟨ev, p.2, hevent, hrest⟩
        · rintro ⟨ev', rest, hevent', hrest⟩
          obtain ⟨rfl, rfl⟩ := hevent.unique hevent'
          exact hrest

theorem verifyLines_ok_iff {turns : ℕ} {prevSum : GoString} {lineNo : ℕ} {s : GoString}
    (hturns : s.length ≤ turns) :
    verifyLines sha256 turns prevSum lineNo s = .ok () ↔
      Events sha256 (fun _ => True) (fun _ t => Blank t ∨ Closes t) prevSum s := by
  induction turns generalizing prevSum lineNo s with
  | zero =>
    have hs := List.length_eq_zero_iff.mp (Nat.le_zero.mp hturns)
    subst hs
    exact iff_of_true rfl (.done (.inl nofun))
  | succ turns ih =>
    by_cases hblank : Blank s
    · exact iff_of_true (verifyLines_blank sha256 _ _ _ hblank) (.done (.inl hblank))
    · by_cases hcloses : Closes s
      · refine iff_of_true ?_ (.done (.inr hcloses))
        obtain ⟨b, t, hnext, hb⟩ := hcloses
        rw [verifyLines, hnext]
        exact if_pos hb
      · rw [verifyLines_event hblank hcloses]
        constructor
        · rintro ⟨ev, rest, hevent, hok⟩
          have hshorter := hevent.shorter
          exact .event hevent trivial ((ih (by omega)).mp hok)
        · intro hevents
          cases hevents with
          | done hdone => exact absurd hdone (not_or.mpr ⟨hblank, hcloses⟩)
          | event hevent _ hrest =>
            have hshorter := hevent.shorter
            exact ⟨_, _, hevent, (ih (by omega)).mpr hrest⟩

/-- A file is accepted when it is checked to its end, or up to a bracket or brace that closes
nothing. -/
theorem verifyChain_ok_iff {file : GoString} :
    verifyChain sha256 file = .ok () ↔
      Verified sha256 file ∨ Closed sha256 file ∨ Adjoined sha256 file := by
  rw [verifyChain, verifyLines_ok_iff (Nat.le_refl _)]
  constructor
  · intro h
    rcases h.of_or with hblank | hcloses
    · rcases hblank.apart_or with hverified | hadjoined
      · exact .inl hverified
      · exact .inr (.inr hadjoined)
    · exact .inr (.inl hcloses)
  · rintro (hverified | hclosed | hadjoined)
    · exact hverified.mono (fun _ _ => trivial) fun _ _ => .inl
    · exact hclosed.mono (fun _ _ => trivial) fun _ _ => .inr
    · exact hadjoined.of_adjoined.mono (fun _ _ => trivial) fun _ _ => .inl

theorem Closed.not_verified {file : GoString} (h : Closed sha256 file) :
    ¬ Verified sha256 file := by
  intro hverified
  refine Events.disjoint h hverified ?_ ?_ ?_
  · exact fun _ _ hcloses hblank => hblank.not_closes hcloses
  · exact fun hcloses hevent => absurd hcloses hevent.not_closes
  · exact fun hblank hevent => absurd hblank hevent.not_blank

theorem Adjoined.not_verified {file : GoString} (h : Adjoined sha256 file) :
    ¬ Verified sha256 file := by
  intro hverified
  refine Events.disjoint h hverified ?_ ?_ ?_
  · rintro _ _ ⟨ev, rest, hevent, -, -⟩ hblank
    exact hevent.not_blank hblank
  · rintro _ _ _ _ ⟨ev, rest, hevent, hnot, -⟩ hevent'
    obtain ⟨rfl, rfl⟩ := hevent.unique hevent'
    exact hnot
  · exact fun hblank hevent => absurd hblank hevent.not_blank

variable (sha256)

/-- That a file is accepted means that all of it was checked, but where a bracket or brace closes
nothing, or two events have nothing between them. -/
theorem accepted_verified_iff (file : GoString) :
    (verifyChain sha256 file = .ok () → Verified sha256 file) ↔
      ¬ Closed sha256 file ∧ ¬ Adjoined sha256 file := by
  constructor
  · intro h
    refine ⟨?_, ?_⟩
    · intro hclosed
      exact hclosed.not_verified (h (verifyChain_ok_iff.mpr (.inr (.inl hclosed))))
    · intro hadjoined
      exact hadjoined.not_verified (h (verifyChain_ok_iff.mpr (.inr (.inr hadjoined))))
  · rintro ⟨hclosed, hadjoined⟩ hok
    rcases verifyChain_ok_iff.mp hok with hverified | h | h
    · exact hverified
    · exact absurd h hclosed
    · exact absurd h hadjoined

end Chain

/-- A file in which nothing is an event is accepted behind a bracket. -/
theorem unread_accepted :
    verifyChain sampleSHA256 (ascii "] this was never an event") = .ok () ∧
      ¬ Verified sampleSHA256 (ascii "] this was never an event") := by
  have hclosed : Closed sampleSHA256 (ascii "] this was never an event") :=
    .done ⟨closeBracket, ascii " this was never an event", rfl, .inl rfl⟩
  exact ⟨by decide, hclosed.not_verified⟩

end Persatrix.Security
