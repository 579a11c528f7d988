import Persatrix.AuditTamper
import Mathlib.Data.List.Infix

/-!
# Opening a log

The end of the file tells whether a chain begins, goes on, or is lost; then a record says so.
`unmarshalError` is the text of the error for a line that is no event.
-/
namespace Persatrix.Security
open Json

inductive RecoveryKind where
  | bootstrap | restart | recovered
deriving DecidableEq

def tailWindow : ℕ := 2 ^ 20

/-- The last line of a file, as far as it lies in the window, and whether it is complete. -/
def readLastLine (file : GoString) : GoString × Bool :=
  let windowed := tailWindow < file.length
  let buf := file.drop (file.length - tailWindow)
  if buf.getLast? = some newline then
    match cutLast newline buf.dropLast with
    | some (_, last) => (last, true)
    | none => if windowed then (buf.dropLast, false) else (buf.dropLast, buf.dropLast ≠ [])
  else
    match cutLast newline buf with
    | some (_, last) => (last, false)
    | none => (buf, false)

/-- The event a whole text is decoded to. -/
def unmarshalEvent (s : GoString) : Option AuditEvent :=
  (parse s).bind fun p => if p.2.all Json.isSpace then decodeEvent p.1 else none

structure Tail where
  priorTail : GoString
  prevSum : GoString
  kind : RecoveryKind
  reason : GoString

def chainBootstrap : GoString := ascii "chain.bootstrap"

def chainRestart : GoString := ascii "chain.restart"

def chainRecovered : GoString := ascii "chain.recovered"

/-- The bytes of the character for three dots. -/
def ellipsis : GoString := [0xE2, 0x80, 0xA6]

def truncate (s : GoString) (max : ℕ) : GoString :=
  if s.length ≤ max then s else s.take max ++ ellipsis

def endsWithoutNewline (file : GoString) : Bool :=
  match file.getLast? with
  | none => false
  | some b => b ≠ newline

/-- The first event of a session. -/
def recoveryEvent (t : Tail) : AuditEvent :=
  match t.kind with
  | .bootstrap =>
    { AuditEvent.zero with
      eventType := chainBootstrap
      action := ascii "bootstrap"
      outcome := ascii "ok" }
  | .restart =>
    { AuditEvent.zero with
      eventType := chainRestart
      action := ascii "restart"
      outcome := ascii "ok"
      detail := some [(ascii "prior_tail_checksum", .string t.prevSum)] }
  | .recovered =>
    { AuditEvent.zero with
      eventType := chainRecovered
      action := ascii "recovered"
      outcome := ascii "warn"
      detail := some ([(ascii "prior_tail", .string (ascii "unknown")),
        (ascii "prior_tail_raw_truncated", .string (truncate t.priorTail 256))] ++
        if t.reason = [] then [] else [(ascii "recovery_reason", .string t.reason)]) }

section Sessions
variable (sha256 : GoString → Digest) (unmarshalError : GoString → GoString)
  (redactor : Option Redactor)

/-- What the end of a file tells; a file that is missing is empty. -/
def inspectTail (file : GoString) : Tail :=
  if file = [] then ⟨[], emptyChecksum sha256, .bootstrap, []⟩
  else
    match readLastLine file with
    | (last, false) => ⟨last, emptyChecksum sha256, .recovered,
        ascii "tail-read: incomplete final line (truncated or oversized record)"⟩
    | (last, true) =>
      match unmarshalEvent last with
      | none => ⟨last, emptyChecksum sha256, .recovered,
          ascii "tail-parse: " ++ unmarshalError last⟩
      | some ev =>
        if looksLikeSHA256 ev.checksum then ⟨last, ev.checksum, .restart, []⟩
        else ⟨last, emptyChecksum sha256, .recovered,
          ascii "tail-parse: missing or malformed checksum field"⟩

/-- The file before the first record of a session. -/
def repaired (file : GoString) : GoString :=
  if (inspectTail sha256 unmarshalError file).kind = .recovered ∧ endsWithoutNewline file then
    file ++ [newline]
  else file

/-- Opens a log on a file. When the first record cannot be written, what is left is the file. -/
def newFileAuditLogger (now : Time) (file : GoString) : Except GoString AuditLogger :=
  let t := inspectTail sha256 unmarshalError file
  let file := repaired sha256 unmarshalError file
  match emit sha256 redactor now ⟨t.prevSum, file⟩ (recoveryEvent t) with
  | none => .error file
  | some l => .ok l

/-- A session: when it is opened, what is emitted, and how many bytes are kept if the file is
truncated at its end. -/
structure Session where
  now : Time
  calls : List (Time × AuditEvent)
  cut : Option ℕ

def Session.truncated (s : Session) (file : GoString) : GoString :=
  match s.cut with
  | none => file
  | some n => file.take n

/-- The file after a session. -/
def runSession (file : GoString) (s : Session) : GoString :=
  s.truncated <|
    match newFileAuditLogger sha256 unmarshalError redactor s.now file with
    | .error file => file
    | .ok l => (emitAll sha256 redactor l s.calls).written

/-- The file after a sequence of sessions. -/
def runSessions (file : GoString) (sessions : List Session) : GoString :=
  sessions.foldl (runSession sha256 unmarshalError redactor) file

end Sessions

/-! ### The last record of a recovery -/

def splitLines : GoString → List GoString
  | [] => [[]]
  | b :: s =>
    if b = newline then [] :: splitLines s
    else
      match splitLines s with
      | [] => [[b]]
      | l :: ls => (b :: l) :: ls

def joinLines : List GoString → GoString
  | [] => []
  | [l] => l
  | l :: ls => l ++ newline :: joinLines ls

def isRecovered (line : GoString) : Bool :=
  match unmarshalEvent line with
  | none => false
  | some ev => ev.eventType = chainRecovered

/-- The lines from the last on that records a recovery. -/
def lastRecovered : List GoString → Option (List GoString)
  | [] => none
  | l :: ls => (lastRecovered ls).or (if isRecovered l then some (l :: ls) else none)

/-- The whole file verifies, or there is a record of a recovery and the part from the last one
on verifies. -/
def verifiesFromRecovery (sha256 : GoString → Digest) (file : GoString) : Bool :=
  decide (verifyChain sha256 file = .ok ()) ||
    match lastRecovered (splitLines file) with
    | none => false
    | some part => decide (verifyChain sha256 (joinLines part) = .ok ())

end Persatrix.Security

/-!
## The records of a file

The last line of a file is found in the window. A record is read as the event it was written
for, and a part of one is not; a chain's records verify, and where the chain begins with the
record of a recovery, the part of the file from there on does.
-/
namespace Persatrix.Security
open Json

/-! ### Lines -/

/-- A line begins after the text. -/
def LineStart (s : GoString) : Prop := s = [] ∨ ∃ t, s = t ++ [newline]

/-- What follows the last newline. -/
def lastLine (s : GoString) : GoString :=
  match cutLast newline s with
  | none => s
  | some (_, l) => l

theorem lastLine_append {g l : GoString} (hg : LineStart g) (hl : newline ∉ l) :
    lastLine (g ++ l) = l := by
  unfold lastLine
  rcases hg with rfl | ⟨t, rfl⟩
  · rw [List.nil_append, cutLast_eq_none hl]
  · rw [List.append_assoc, List.singleton_append, cutLast_append t hl]

theorem lineStart_newline (s : GoString) : LineStart (s ++ [newline]) := .inr ⟨s, rfl⟩

theorem exists_lastLine (s : GoString) :
    ∃ g, s = g ++ lastLine s ∧ LineStart g ∧ newline ∉ lastLine s := by
  have hsplit : ∃ g l, s = g ++ l ∧ LineStart g ∧ newline ∉ l := by
    induction s using List.reverseRecOn with
    | nil => exact ⟨[], [], rfl, .inl rfl, by simp⟩
    | append_singleton s b ih =>
      obtain ⟨g, l, rfl, hg, hl⟩ := ih
      by_cases hb : b = newline
      · rw [hb]
        exact ⟨g ++ l ++ [newline], [], (List.append_nil _).symm, lineStart_newline _, by simp⟩
      · refine ⟨g, l ++ [b], List.append_assoc .., hg, ?_⟩
        rw [List.mem_append, List.mem_singleton, not_or]
        exact ⟨hl, Ne.symm hb⟩
  obtain ⟨g, l, hs, hg, hl⟩ := hsplit
  have hlast : lastLine s = l := by rw [hs, lastLine_append hg hl]
  exact ⟨g, by rw [hlast]; exact hs, hg, by rwa [hlast]⟩

theorem lastLine_newline (s : GoString) : lastLine (s ++ [newline]) = [] := by
  have h := lastLine_append (lineStart_newline s) (List.not_mem_nil (a := newline))
  rwa [List.append_nil] at h

/-- What a text ends in one line after another begins. -/
theorem prefix_append_cases {t a b : GoString} (h : t <+: a ++ b) :
    t <+: a ∨ ∃ c, c <+: b ∧ t = a ++ c := by
  rcases List.prefix_or_prefix_of_prefix h (List.prefix_append a b) with hta | ⟨c, rfl⟩
  · exact .inl hta
  · exact .inr ⟨c, (List.prefix_append_right_inj a).mp h, rfl⟩

/-- A complete line that fits in the window is found. -/
theorem readLastLine_terminated {s : GoString} (hshort : (lastLine s).length + 1 < tailWindow) :
    readLastLine (s ++ [newline]) = (lastLine s, decide (s ≠ [])) := by
  obtain ⟨g, hs, hg, hl⟩ := exists_lastLine s
  have hlength := congrArg List.length hs
  rw [List.length_append] at hlength
  have hdrop : (s ++ [newline]).drop ((s ++ [newline]).length - tailWindow) =
      s.drop (s.length + 1 - tailWindow) ++ [newline] := by
    rw [List.length_append, List.length_singleton]
    exact List.drop_append_of_le_length (by omega)
  unfold readLastLine
  dsimp only
  rw [hdrop, List.getLast?_concat, if_pos rfl, List.dropLast_concat]
  rcases hg with rfl | ⟨t, rfl⟩
  · rw [List.nil_append] at hs
    have hzero : s.length + 1 - tailWindow = 0 := by
      rw [List.length_nil] at hlength
      omega
    have hnone : cutLast newline s = none := by
      rw [hs]
      exact cutLast_eq_none hl
    have hfits : ¬ tailWindow < (s ++ [newline]).length := by
      rw [List.length_append, List.length_singleton]
      omega
    rw [hzero, List.drop_zero, hnone]
    dsimp only
    rw [if_neg (by simpa using hfits), ← hs]
  · have hne : s ≠ [] := by
      intro hnil
      rw [hnil] at hs
      simp at hs
    have hfound : cutLast newline (s.drop (s.length + 1 - tailWindow)) =
        some (t.drop (s.length + 1 - tailWindow), lastLine s) := by
      rw [List.length_append, List.length_singleton] at hlength
      have hsplit : ∀ k ≤ t.length, s.drop k = t.drop k ++ newline :: lastLine s := by
        intro k hk
        conv_lhs => rw [hs]
        rw [List.append_assoc, List.singleton_append, List.drop_append_of_le_length hk]
      rw [hsplit _ (by omega), cutLast_append _ hl]
    rw [hfound, decide_eq_true hne]

/-- A line that is not complete is not taken for one. -/
theorem readLastLine_unterminated {file : GoString} (h : ¬ LineStart file) :
    ∃ last, readLastLine file = (last, false) := by
  have hlast : (file.drop (file.length - tailWindow)).getLast? ≠ some newline := by
    intro hlast
    rw [List.getLast?_drop] at hlast
    split_ifs at hlast
    obtain ⟨t, ht⟩ := List.getLast?_eq_some_iff.mp hlast
    exact h (.inr ⟨t, ht⟩)
  unfold readLastLine
  dsimp only
  rw [if_neg hlast]
  cases cutLast newline (file.drop (file.length - tailWindow)) with
  | none => exact ⟨_, rfl⟩
  | some p => exact ⟨p.2, rfl⟩

/-! ### Records -/

section Chain
variable (sha256 : GoString → Digest)

/-- What is read of the record of an event. -/
structure RecordRead (ev : AuditEvent) (prevSum : GoString) (line : Doc) (ev' : AuditEvent) :
    Prop where
  parsed : parse (render line) = some (line, [])
  object : ∃ members, line = .object members
  decoded : decodeEvent line = some ev'
  checksum : ev'.checksum = (ev.withChecksum sha256 prevSum).checksum
  eventType : ev'.eventType = ev.eventType
  verifies : checksumOf sha256 (canonicalEventJSON ev' prevSum) = ev'.checksum

theorem exists_recordRead {ev : AuditEvent} {prevSum : GoString} {line : Doc} (h : ev.Exact)
    (hline : (ev.withChecksum sha256 prevSum).marshal = some line) :
    ∃ ev', RecordRead sha256 ev prevSum line ev' := by
  obtain ⟨d, hd, hsame⟩ := reread_same h
  have hdepth : line.depth ≤ maxNestingDepth :=
    (@marshal_depth_iff (ev.withChecksum sha256 prevSum) line hline).mpr
      fun es hes _ => (h.detail es hes).2.2
  have hparse := parse_render_append hdepth ends_nil
  rw [List.append_nil] at hparse
  have hsum : ((ev.withChecksum sha256 prevSum).reread d).checksum =
      (ev.withChecksum sha256 prevSum).checksum := sanitize_checksumOf sha256 _
  have hread : decodeEvent line =
      (rereadDetail ev.detail).map (ev.withChecksum sha256 prevSum).reread :=
    decodeEvent_marshal hline
  rw [hd, Option.map_some] at hread
  have hform : canonicalEventJSON (ev.reread d) prevSum = canonicalEventJSON ev prevSum :=
    canonicalEventJSON_eq_iff.mpr ⟨rfl, hsame⟩
  have hverifies : checksumOf sha256
      (canonicalEventJSON ((ev.withChecksum sha256 prevSum).reread d) prevSum) =
        ((ev.withChecksum sha256 prevSum).reread d).checksum := by
    rw [hsum]
    exact congrArg (checksumOf sha256) hform
  obtain ⟨ts, -, hobject⟩ := marshal_eq_some hline
  exact ⟨_, hparse, ⟨_, hobject⟩, hread, hsum, sanitize_of_valid (h.strings .eventType nofun),
    hverifies⟩

theorem newline_not_mem_render (d : Doc) : newline ∉ render d := by
  intro hmem
  exact absurd (render_bytes d newline hmem) (by decide)

theorem unmarshalEvent_render {line : Doc} {ev : AuditEvent}
    (hparse : parse (render line) = some (line, [])) (hdecode : decodeEvent line = some ev) :
    unmarshalEvent (render line) = some ev := by
  rw [unmarshalEvent, hparse, Option.bind_some]
  exact hdecode

/-- A part of a record that is not all of it is not read as a record. -/
theorem eq_render_of_prefix {p : GoString} {members : List (StringLit × Doc)} {ev : AuditEvent}
    (hparse : parse (render (.object members)) = some (.object members, []))
    (hp : p <+: render (.object members)) (h : unmarshalEvent p = some ev)
    (hsum : looksLikeSHA256 ev.checksum = true) : p = render (.object members) := by
  obtain ⟨q, hq⟩ := hp
  obtain ⟨⟨d, rest⟩, hd, h⟩ := Option.bind_eq_some_iff.mp h
  dsimp only at h
  split_ifs at h
  cases d with
  | null =>
    cases h
    cases hsum
  | object ms =>
    have happend := parse_object_append (t := q) hd
    rw [hq, hparse] at happend
    have hrest := (Prod.mk.inj (Option.some.inj happend)).2
    have hnil : q = [] := (List.append_eq_nil_iff.mp hrest.symm).2
    rw [← hq, hnil, List.append_nil]
  | bool b => cases h
  | number n => cases h
  | string s => cases h
  | array elems => cases h

/-- An event whose record is read as it was written, and whose line is found in the window. -/
structure Recordable (ev : AuditEvent) : Prop where
  exact : ev.Exact
  short : ∀ prevSum line, (ev.withChecksum sha256 prevSum).marshal = some line →
    (render line).length + 1 < tailWindow

/-- The text of a chain's records, their events, and the checksum of the last. -/
inductive Written : GoString → List AuditEvent → GoString → Prop where
  | nil : Written [] [] (emptyChecksum sha256)
  | record {text : GoString} {evs : List AuditEvent} {prevSum : GoString} {ev : AuditEvent}
      {line : Doc} (h : Written text evs prevSum) (hev : Recordable sha256 ev)
      (hline : (ev.withChecksum sha256 prevSum).marshal = some line) :
      Written (text ++ (render line ++ [newline])) (evs ++ [ev])
        (ev.withChecksum sha256 prevSum).checksum

variable {sha256}

theorem Written.lineStart {text sum : GoString} {evs : List AuditEvent}
    (h : Written sha256 text evs sum) : LineStart text := by
  cases h with
  | nil => exact .inl rfl
  | record _ _ _ =>
    rw [← List.append_assoc]
    exact lineStart_newline _

/-- The records of a chain are the lines of a file that verifies. -/
theorem Written.fileText {text sum : GoString} {evs : List AuditEvent}
    (h : Written sha256 text evs sum) :
    ∃ lines evs', text = fileText lines ∧ lines.map Line.event = evs'.map some ∧
      Chained sha256 (emptyChecksum sha256) evs' ∧ lastSum (emptyChecksum sha256) evs' = sum := by
  induction h with
  | nil => exact ⟨[], [], rfl, rfl, trivial, rfl⟩
  | @record text evs prevSum ev line _ hev hline ih =>
    obtain ⟨lines, evs', rfl, hevents, hchained, rfl⟩ := ih
    obtain ⟨ev', hread⟩ := exists_recordRead sha256 hev.exact hline
    obtain ⟨members, rfl⟩ := hread.object
    refine ⟨lines ++ [⟨render (.object members), members, [], hread.parsed, by simp⟩],
      evs' ++ [ev'], ?_, ?_, ?_, ?_⟩
    · simp [Security.fileText]
    · rw [List.map_append, hevents, List.map_append]
      exact congrArg _ (congrArg (· :: []) hread.decoded)
    · rw [chained_append]
      exact ⟨hchained, hread.verifies, trivial⟩
    · rw [lastSum_append]
      exact hread.checksum

theorem Written.verifies {text sum : GoString} {evs : List AuditEvent}
    (h : Written sha256 text evs sum) : verifyChain sha256 text = .ok () := by
  obtain ⟨lines, evs', rfl, hevents, hchained, -⟩ := h.fileText
  exact (verifyChain_fileText_iff sha256 lines).mpr ⟨evs', hevents, hchained⟩

/-- The last line of a chain's text is the record with its checksum. -/
theorem Written.last {text sum : GoString} {evs : List AuditEvent}
    (h : Written sha256 text evs sum) (hne : text ≠ []) :
    ∃ s ev, text = s ++ [newline] ∧ unmarshalEvent (lastLine s) = some ev ∧
      looksLikeSHA256 ev.checksum = true ∧ ev.checksum = sum ∧
        (lastLine s).length + 1 < tailWindow := by
  cases h with
  | nil => exact absurd rfl hne
  | @record text evs prevSum ev line h hev hline =>
    obtain ⟨ev', hread⟩ := exists_recordRead sha256 hev.exact hline
    have hlast := lastLine_append h.lineStart (newline_not_mem_render line)
    refine ⟨text ++ render line, ev', (List.append_assoc ..).symm, ?_, ?_, hread.checksum, ?_⟩
    · rw [hlast]
      exact unmarshalEvent_render hread.parsed hread.decoded
    · rw [hread.checksum]
      exact looksLikeSHA256_checksumOf sha256 _
    · rw [hlast]
      exact hev.short prevSum line hline

/-! ### The part that verifies -/

theorem splitLines_ne_nil (s : GoString) : splitLines s ≠ [] := by
  cases s with
  | nil => simp [splitLines]
  | cons b s =>
    rw [splitLines]
    split_ifs
    · simp
    · cases splitLines s with
      | nil => simp
      | cons l ls => simp

theorem splitLines_newline (s : GoString) : splitLines (newline :: s) = [] :: splitLines s := by
  rw [splitLines]
  exact if_pos rfl

theorem splitLines_append (a b : GoString) :
    splitLines (a ++ newline :: b) = splitLines a ++ splitLines b := by
  induction a with
  | nil => exact splitLines_newline b
  | cons c a ih =>
    rw [List.cons_append, splitLines, splitLines, ih]
    split_ifs
    · rfl
    · cases ha : splitLines a with
      | nil => exact absurd ha (splitLines_ne_nil a)
      | cons l ls => rfl

theorem splitLines_line {l : GoString} (h : newline ∉ l) : splitLines l = [l] := by
  induction l with
  | nil => rfl
  | cons b l ih =>
    rw [List.mem_cons, not_or] at h
    rw [splitLines, if_neg (Ne.symm h.1), ih h.2]

theorem joinLines_cons {ls : List GoString} (l : GoString) (h : ls ≠ []) :
    joinLines (l :: ls) = l ++ newline :: joinLines ls := by
  cases ls with
  | nil => exact absurd rfl h
  | cons m ls => rfl

theorem joinLines_splitLines (s : GoString) : joinLines (splitLines s) = s := by
  induction s with
  | nil => rfl
  | cons b s ih =>
    have hne := splitLines_ne_nil s
    rw [splitLines]
    split_ifs with hb
    · rw [joinLines_cons [] hne, ih, hb, List.nil_append]
    · cases hs : splitLines s with
      | nil => exact absurd hs hne
      | cons l ls =>
        rw [hs] at ih
        dsimp only
        cases ls with
        | nil => exact congrArg (b :: ·) ih
        | cons m ls => exact congrArg (b :: ·) ih

theorem splitLines_lineStart {g : GoString} (hg : LineStart g) (s : GoString) :
    ∃ gs, splitLines (g ++ s) = gs ++ splitLines s ∧ splitLines g = gs ++ [[]] := by
  rcases hg with rfl | ⟨t, rfl⟩
  · exact ⟨[], rfl, rfl⟩
  · refine ⟨splitLines t, ?_, splitLines_append t []⟩
    rw [List.append_assoc, List.singleton_append, splitLines_append]

theorem lastRecovered_append (xs ys : List GoString) :
    lastRecovered (xs ++ ys) =
      (lastRecovered ys).or ((lastRecovered xs).map fun part => part ++ ys) := by
  induction xs with
  | nil => exact (Option.or_none).symm
  | cons l xs ih =>
    rw [List.cons_append, lastRecovered, lastRecovered, ih]
    cases lastRecovered ys with
    | some part => rfl
    | none =>
      cases lastRecovered xs with
      | some part => rfl
      | none =>
        split_ifs
        · rfl
        · rfl

theorem lastRecovered_eq_none {ls : List GoString} (h : ∀ l ∈ ls, isRecovered l = false) :
    lastRecovered ls = none := by
  induction ls with
  | nil => rfl
  | cons l ls ih =>
    rw [List.forall_mem_cons] at h
    rw [lastRecovered, ih h.2, h.1]
    rfl

theorem Written.splitLines {text sum : GoString} {evs : List AuditEvent}
    (h : Written sha256 text evs sum) :
    ∃ ls, splitLines text = ls ++ [[]] ∧
      ls.map isRecovered = evs.map fun ev => decide (ev.eventType = chainRecovered) := by
  induction h with
  | nil => exact ⟨[], rfl, rfl⟩
  | @record text evs prevSum ev line h hev hline ih =>
    obtain ⟨ls, hls, hmap⟩ := ih
    obtain ⟨ev', hread⟩ := exists_recordRead sha256 hev.exact hline
    obtain ⟨gs, hgs, hg⟩ := splitLines_lineStart h.lineStart (render line ++ [newline])
    have hsame : gs = ls := List.append_cancel_right (hg.symm.trans hls)
    have hline' : Security.splitLines (render line ++ [newline]) = [render line, []] := by
      rw [splitLines_append, splitLines_line (newline_not_mem_render line)]
      rfl
    have hrecovered : isRecovered (render line) = decide (ev.eventType = chainRecovered) := by
      rw [isRecovered, unmarshalEvent_render hread.parsed hread.decoded, ← hread.eventType]
    refine ⟨ls ++ [render line], ?_, ?_⟩
    · rw [hgs, hsame, hline', List.append_assoc]
      rfl
    · rw [List.map_append, hmap, List.map_append, List.map_singleton, hrecovered]
      rfl

/-- A chain that begins with the record of a recovery and has no other. -/
def FromRecovery (evs : List AuditEvent) : Prop :=
  ∃ ev rest, evs = ev :: rest ∧ ev.eventType = chainRecovered ∧
    ∀ e ∈ rest, e.eventType ≠ chainRecovered

variable (sha256) in
/-- The file ends in a chain with the checksum, which is all of it or begins with a recovery. -/
def Sound (file sum : GoString) : Prop :=
  ∃ g text evs, file = g ++ text ∧ LineStart g ∧ Written sha256 text evs sum ∧
    (g = [] ∨ FromRecovery evs)

theorem Sound.verifies {file sum : GoString} (h : Sound sha256 file sum) :
    verifiesFromRecovery sha256 file = true := by
  obtain ⟨g, text, evs, rfl, hg, hwritten, hwhole | hrecovery⟩ := h
  · rw [hwhole, List.nil_append, verifiesFromRecovery, hwritten.verifies]
    rfl
  · obtain ⟨ev, rest, rfl, hev, hrest⟩ := hrecovery
    obtain ⟨ls, hls, hmap⟩ := hwritten.splitLines
    obtain ⟨gs, hgs, -⟩ := splitLines_lineStart hg text
    have hlast : lastRecovered (splitLines text) = some (splitLines text) := by
      rw [hls]
      cases ls with
      | nil => cases hmap
      | cons l ls =>
        obtain ⟨hl, hls'⟩ := List.cons.inj hmap
        have hfalse : ∀ m ∈ ls ++ [[]], isRecovered m = false := by
          intro m hm
          rcases List.mem_append.mp hm with hm | hm
          · have hmem : isRecovered m ∈ rest.map fun ev => decide (ev.eventType = chainRecovered) :=
              hls' ▸ List.mem_map_of_mem hm
            obtain ⟨e, he, heq⟩ := List.mem_map.mp hmem
            rw [← heq, decide_eq_false (hrest e he)]
          · rw [List.mem_singleton.mp hm]
            rfl
        have htrue : isRecovered l = true := hl.trans (decide_eq_true hev)
        rw [List.cons_append, lastRecovered, lastRecovered_eq_none hfalse, htrue]
        rfl
    rw [verifiesFromRecovery, hgs, lastRecovered_append, hlast, Option.some_or, Bool.or_eq_true]
    dsimp only
    rw [joinLines_splitLines, hwritten.verifies]
    exact .inr rfl

/-- The chain goes on. -/
theorem Sound.record {file prevSum : GoString} {ev : AuditEvent} {line : Doc}
    (h : Sound sha256 file prevSum) (hev : Recordable sha256 ev)
    (htype : ev.eventType ≠ chainRecovered)
    (hline : (ev.withChecksum sha256 prevSum).marshal = some line) :
    Sound sha256 (file ++ (render line ++ [newline]))
      (ev.withChecksum sha256 prevSum).checksum := by
  obtain ⟨g, text, evs, rfl, hg, hwritten, hstart⟩ := h
  refine ⟨g, _, _, List.append_assoc .., hg, hwritten.record hev hline, ?_⟩
  rcases hstart with hwhole | ⟨e, rest, rfl, he, hrest⟩
  · exact .inl hwhole
  · refine .inr ⟨e, rest ++ [ev], rfl, he, ?_⟩
    rw [List.forall_mem_append, List.forall_mem_singleton]
    exact ⟨hrest, htype⟩

theorem Written.append_lineStart {g text sum : GoString} {evs : List AuditEvent}
    (h : Written sha256 text evs sum) (hg : LineStart g) : LineStart (g ++ text) := by
  rcases h.lineStart with rfl | ⟨t, rfl⟩
  · rwa [List.append_nil]
  · rw [← List.append_assoc]
    exact lineStart_newline _

theorem Sound.lineStart {file sum : GoString} (h : Sound sha256 file sum) : LineStart file := by
  obtain ⟨g, text, evs, rfl, hg, hwritten, -⟩ := h
  exact hwritten.append_lineStart hg

end Chain
end Persatrix.Security
