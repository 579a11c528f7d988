import Persatrix.AuditChain

/-!
# The writer and the verifier

The writer hashes an event, the verifier what it reads of the line that was written for it. The
hashed forms agree exactly for the events that come through JSON as they are.
-/
namespace Persatrix.Security
open Json

/-- An event that is hashed as the event read from its line. The strings are encodings of texts,
the zone has whole minutes, and the detail is nil or has entries, each marshaled in the form in
which what is read of it is marshaled again, and not nested too deep to be read. -/
structure AuditEvent.Exact (ev : AuditEvent) : Prop where
  strings : ∀ f, f ≠ .checksum → validString (ev.string f) = true
  zone : ev.timestamp.offset % 60 = 0
  detail : ∀ es, ev.detail = some es →
    es ≠ [] ∧ ExactEntries es ∧ (Json.marshal (.map es)).depth < maxNestingDepth

/-- The detail is read as one that is hashed alike. -/
theorem rereadDetail_same_iff (detail : Option (List (GoString × Any))) :
    (∃ detail', rereadDetail detail = some detail' ∧ detail'.map sortMap = detail.map sortMap) ↔
      ∀ es, detail = some es → es ≠ [] ∧ ExactEntries es := by
  match detail with
  | none => exact iff_of_true ⟨none, rfl, rfl⟩ nofun
  | some [] =>
    refine iff_of_false ?_ ?_
    · rintro ⟨detail', hread, hsame⟩
      cases hread
      cases hsame
    · intro h
      exact (h [] rfl).1 rfl
  | some (e :: es) =>
    have hread : rereadDetail (some (e :: es)) =
        (decodeMembers (asMembers (sortEntries (marshalEntries (e :: es))))).map fun es' =>
          some (sortEntries es') := by
      rw [rereadDetail]
      intro hnil
      cases hnil
    have hcanonical := (reencode_iff (Json.marshal (.map (e :: es)))).trans
      (canonical_marshal_iff (.map (e :: es)))
    rw [Any.Exact] at hcanonical
    rw [hread]
    constructor
    · rintro ⟨detail', hdetail, hsame⟩
      obtain ⟨es', hes, rfl⟩ := Option.map_eq_some_iff.mp hdetail
      rw [Option.map_some, Option.map_some, Option.some.injEq, sortMap_eq_iff] at hsame
      intro es₀ hes₀
      cases hes₀
      refine ⟨by simp, hcanonical.mp ⟨.map (sortEntries es'), ?_, hsame⟩⟩
      rw [marshal, decode, hes]
      rfl
    · intro h
      obtain ⟨v, hv, hmarshal⟩ := hcanonical.mpr (h _ rfl).2
      rw [marshal, decode] at hv
      obtain ⟨es', hes, rfl⟩ := Option.map_eq_some_iff.mp hv
      refine ⟨some (sortEntries es'), by rw [hes]; rfl, ?_⟩
      rw [Option.map_some, Option.map_some, (sortMap_eq_iff _ _).mpr hmarshal]

/-- The instant is read back when the zone has no seconds. -/
theorem utcText_reread_iff (t : Time) :
    encodeString t.reread.utcText = encodeString t.utcText ↔ t.offset % 60 = 0 := by
  rw [← zone_exact_iff]
  constructor
  · intro h
    have hinstant := (utcText_eq_iff _ _).mp (encodeString_text_injective h)
    have hsec : t.sec + t.offset - 60 * Persatrix.zone t.offset = t.sec := hinstant.1
    omega
  · intro h
    have hinstant : t.reread.utcText = t.utcText := by
      refine (utcText_eq_iff _ _).mpr ⟨?_, rfl⟩
      dsimp only [Time.reread]
      omega
    rw [hinstant]

theorem same_reread_iff (ev : AuditEvent) (detail : Option (List (GoString × Any))) :
    SameCanonical (ev.reread detail) ev ↔
      (∀ f, f ≠ .checksum → validString (ev.string f) = true) ∧
        ev.timestamp.offset % 60 = 0 ∧ detail.map sortMap = ev.detail.map sortMap := by
  have htext := fun s => (encodeString_sanitize_iff s).mp
  constructor
  · intro h
    refine ⟨?_, (utcText_reread_iff _).mp h.timestamp, h.detail⟩
    intro f hf
    cases f with
    | timestamp => rfl
    | correlationID => exact htext _ h.correlationID
    | eventType => exact htext _ h.eventType
    | agentID => exact htext _ h.agentID
    | action => exact htext _ h.action
    | resource => exact htext _ h.resource
    | outcome => exact htext _ h.outcome
    | detail => rfl
    | checksum => exact absurd rfl hf
  · rintro ⟨hstrings, hzone, hdetail⟩
    have hsame : ∀ f, f ≠ .checksum →
        encodeString (sanitize (ev.string f)) = encodeString (ev.string f) :=
      fun f hf => (encodeString_sanitize_iff _).mpr (hstrings f hf)
    exact ⟨hsame .action nofun, hsame .agentID nofun, hsame .correlationID nofun, hdetail,
      hsame .eventType nofun, hsame .outcome nofun, hsame .resource nofun,
      (utcText_reread_iff _).mpr hzone⟩

/-- An exact event is read as one that is hashed alike. -/
theorem reread_same {ev : AuditEvent} (h : ev.Exact) :
    ∃ d, rereadDetail ev.detail = some d ∧ SameCanonical (ev.reread d) ev := by
  obtain ⟨d, hd, hdetail⟩ := (rereadDetail_same_iff ev.detail).mpr fun es hes =>
    ⟨(h.detail es hes).1, (h.detail es hes).2.1⟩
  exact ⟨d, hd, (same_reread_iff ev d).mpr ⟨h.strings, h.zone, hdetail⟩⟩

/-! ### The depth of a line -/

theorem membersDepth_append (ms ns : List (StringLit × Doc)) :
    membersDepth (ms ++ ns) = max (membersDepth ms) (membersDepth ns) := by
  induction ms with
  | nil => exact (Nat.zero_max _).symm
  | cons m ms ih => rw [List.cons_append, membersDepth, membersDepth, ih, max_assoc]

/-- A line is not nested too deep when the detail in it is not. -/
theorem marshal_depth_iff {ev : AuditEvent} {line : Doc} (h : ev.marshal = some line) :
    line.depth ≤ maxNestingDepth ↔ ∀ es, ev.detail = some es → es ≠ [] →
      (Json.marshal (.map es)).depth < maxNestingDepth := by
  obtain ⟨ts, -, rfl⟩ := marshal_eq_some h
  have hfirst : membersDepth (ev.firstMembers ts) = 0 := rfl
  have hlast : membersDepth [ev.stringMember .checksum] = 0 := rfl
  have hpositive : 0 < maxNestingDepth := by decide
  rw [Doc.depth, membersDepth_append, membersDepth_append, hfirst, hlast, Nat.zero_max,
    Nat.max_zero, Nat.succ_le_iff]
  match ev.detail with
  | none => exact iff_of_true hpositive nofun
  | some [] =>
    refine iff_of_true hpositive ?_
    intro es hes hne
    cases hes
    exact absurd rfl hne
  | some (e :: es) =>
    have hdepth : membersDepth (detailMembers (some (e :: es))) =
        (Json.marshal (.map (e :: es))).depth := Nat.max_zero _
    rw [hdepth]
    constructor
    · intro hlt es' hes' _
      cases hes'
      exact hlt
    · intro hall
      exact hall _ rfl (by simp)

/-! ### One line -/

section Chain
variable (sha256 : GoString → Digest)

/-- The event with its checksum. -/
def AuditEvent.withChecksum (ev : AuditEvent) (prevSum : GoString) : AuditEvent :=
  { ev with checksum := checksumOf sha256 (canonicalEventJSON ev prevSum) }

/-- The texts that are hashed for an event, by the writer and by the verifier. -/
def lineTexts (ev : AuditEvent) (prevSum : GoString) : List GoString :=
  canonicalEventJSON ev prevSum ::
    ((rereadDetail ev.detail).map fun d => canonicalEventJSON (ev.reread d) prevSum).toList

/-- The verifier takes an event and its checksum for the one that was written. -/
theorem reread_checksum_iff {ev : AuditEvent} {prevSum : GoString}
    (hsha : CollisionFree sha256 (lineTexts ev prevSum)) :
    (∃ ev', (rereadDetail ev.detail).map (ev.withChecksum sha256 prevSum).reread = some ev' ∧
      checksumOf sha256 (canonicalEventJSON ev' prevSum) = ev'.checksum) ↔
        (∀ f, f ≠ .checksum → validString (ev.string f) = true) ∧
          ev.timestamp.offset % 60 = 0 ∧
            ∀ es, ev.detail = some es → es ≠ [] ∧ ExactEntries es := by
  have hforms : ∀ d, canonicalEventJSON ((ev.withChecksum sha256 prevSum).reread d) prevSum =
      canonicalEventJSON (ev.reread d) prevSum := fun d => rfl
  have hsum : ∀ d, ((ev.withChecksum sha256 prevSum).reread d).checksum =
      checksumOf sha256 (canonicalEventJSON ev prevSum) := fun d => sanitize_checksumOf sha256 _
  rw [← rereadDetail_same_iff]
  constructor
  · rintro ⟨ev', hev', hchecksum⟩
    obtain ⟨d, hd, rfl⟩ := Option.map_eq_some_iff.mp hev'
    rw [hforms, hsum, checksumOf_eq_iff] at hchecksum
    have hmem : canonicalEventJSON (ev.reread d) prevSum ∈ lineTexts ev prevSum := by
      rw [lineTexts, hd]
      exact List.mem_cons_of_mem _ (List.mem_singleton.mpr rfl)
    have htexts := hsha _ hmem _ (List.mem_cons_self ..) hchecksum
    obtain ⟨hstrings, hzone, hdetail⟩ :=
      (same_reread_iff ev d).mp (canonicalEventJSON_eq_iff.mp htexts).2
    exact ⟨hstrings, hzone, d, hd, hdetail⟩
  · rintro ⟨hstrings, hzone, d, hd, hdetail⟩
    have hsame := (same_reread_iff ev d).mpr ⟨hstrings, hzone, hdetail⟩
    refine ⟨(ev.withChecksum sha256 prevSum).reread d, by rw [hd]; rfl, ?_⟩
    rw [hforms, hsum, canonicalEventJSON_eq_iff.mpr ⟨rfl, hsame⟩]

theorem marshal_withChecksum_isSome (ev : AuditEvent) (prevSum : GoString) :
    (ev.withChecksum sha256 prevSum).marshal.isSome = ev.marshal.isSome := by
  unfold AuditEvent.marshal AuditEvent.withChecksum
  rw [Option.isSome_map, Option.isSome_map]

/-- A line is read and its event verified exactly when the event is exact. -/
theorem line_verifies_iff {ev : AuditEvent} {prevSum : GoString} {line : Doc}
    (hline : (ev.withChecksum sha256 prevSum).marshal = some line)
    (hsha : CollisionFree sha256 (lineTexts ev prevSum)) :
    (line.depth ≤ maxNestingDepth ∧ ∃ ev', decodeEvent line = some ev' ∧
      checksumOf sha256 (canonicalEventJSON ev' prevSum) = ev'.checksum) ↔ ev.Exact := by
  have hread : decodeEvent line =
      (rereadDetail ev.detail).map (ev.withChecksum sha256 prevSum).reread :=
    decodeEvent_marshal hline
  have hdepth : line.depth ≤ maxNestingDepth ↔ ∀ es, ev.detail = some es → es ≠ [] →
      (Json.marshal (.map es)).depth < maxNestingDepth :=
    @marshal_depth_iff (ev.withChecksum sha256 prevSum) line hline
  rw [hread, reread_checksum_iff sha256 hsha, hdepth]
  constructor
  · rintro ⟨hdeep, hstrings, hzone, hdetail⟩
    refine ⟨hstrings, hzone, ?_⟩
    intro es hes
    obtain ⟨hne, hexact⟩ := hdetail es hes
    exact ⟨hne, hexact, hdeep es hes hne⟩
  · intro h
    exact ⟨fun es hes _ => (h.detail es hes).2.2, h.strings, h.zone,
      fun es hes => ⟨(h.detail es hes).1, (h.detail es hes).2.1⟩⟩

/-! ### Whole logs -/

variable (redactor : Option Redactor)

/-- Emits one event after the other; one that is refused leaves the log as it is. -/
def emitAll (l : AuditLogger) (calls : List (Time × AuditEvent)) : AuditLogger :=
  calls.foldl (fun l c => (emit sha256 redactor c.1 l c.2).getD l) l

/-- What is written for the calls, after an event with the given checksum. -/
def emittedText : GoString → List (Time × AuditEvent) → GoString
  | _, [] => []
  | prevSum, c :: cs =>
    let ev := (prepare redactor c.1 c.2).withChecksum sha256 prevSum
    match ev.marshal with
    | none => emittedText prevSum cs
    | some line => render line ++ newline :: emittedText ev.checksum cs

/-- What is hashed for them, by the writer and by the verifier. -/
def hashedTexts : GoString → List (Time × AuditEvent) → List GoString
  | _, [] => []
  | prevSum, c :: cs =>
    let ev := prepare redactor c.1 c.2
    match (ev.withChecksum sha256 prevSum).marshal with
    | none => hashedTexts prevSum cs
    | some _ =>
      lineTexts ev prevSum ++ hashedTexts (ev.withChecksum sha256 prevSum).checksum cs

theorem emit_eq (now : Time) (l : AuditLogger) (ev : AuditEvent) :
    emit sha256 redactor now l ev =
      ((prepare redactor now ev).withChecksum sha256 l.prevChecksum).marshal.map fun line =>
        ⟨((prepare redactor now ev).withChecksum sha256 l.prevChecksum).checksum,
          l.written ++ render line ++ [newline]⟩ := rfl

theorem emitAll_cons (l : AuditLogger) (c : Time × AuditEvent) (cs : List (Time × AuditEvent)) :
    emitAll sha256 redactor l (c :: cs) =
      emitAll sha256 redactor ((emit sha256 redactor c.1 l c.2).getD l) cs := rfl

theorem emitAll_written (l : AuditLogger) (calls : List (Time × AuditEvent)) :
    (emitAll sha256 redactor l calls).written =
      l.written ++ emittedText sha256 redactor l.prevChecksum calls := by
  induction calls generalizing l with
  | nil => exact (List.append_nil _).symm
  | cons c cs ih =>
    rw [emitAll_cons, ih, emit_eq, emittedText]
    cases ((prepare redactor c.1 c.2).withChecksum sha256 l.prevChecksum).marshal with
    | none => rfl
    | some line =>
      dsimp only [Option.map_some, Option.getD_some]
      simp

/-- One turn, on a text that begins with a line that was written. -/
theorem verifyLines_render {turns : ℕ} {prevSum : GoString} {lineNo : ℕ} {blanks more : GoString}
    {members : List (StringLit × Doc)} (hblanks : ∀ b ∈ blanks, Json.isSpace b = true) :
    verifyLines sha256 (turns + 1) prevSum lineNo
        (blanks ++ (render (.object members) ++ newline :: more)) = .ok () ↔
      (Doc.object members).depth ≤ maxNestingDepth ∧
        ∃ ev, decodeEvent (.object members) = some ev ∧
          checksumOf sha256 (canonicalEventJSON ev prevSum) = ev.checksum ∧
            verifyLines sha256 turns ev.checksum (lineNo + 1) (newline :: more) = .ok () := by
  have hends : Ends (newline :: more) := ends_cons rfl
  by_cases hdepth : (Doc.object members).depth ≤ maxNestingDepth
  · have hparse := parse_render_append hdepth ends_nil
    rw [List.append_nil] at hparse
    rw [verifyLines_object sha256 (parse_blanks_append hblanks hparse _), List.nil_append,
      and_iff_right hdepth]
  · have hnone : parse (blanks ++ (render (.object members) ++ newline :: more)) = none := by
      rw [parse, parseValue_blanks hblanks]
      by_contra hsome
      obtain ⟨p, hp⟩ := Option.ne_none_iff_exists'.mp hsome
      exact hdepth (parse_render_object hends hp).2.2
    have hnext : ∃ t, next (blanks ++ (render (.object members) ++ newline :: more)) =
        some (openBrace, t) := by
      rw [next_blanks hblanks]
      exact ⟨_, next_cons rfl _⟩
    obtain ⟨t, hnext⟩ := hnext
    refine iff_of_false (verifyLines_unread sha256 hnext hnone) ?_
    rintro ⟨hle, -⟩
    exact hdepth hle

/-- What is written for a list of calls is accepted when each event that is written is exact. -/
theorem verifyLines_emittedText {calls : List (Time × AuditEvent)} {prevSum : GoString}
    {turns : ℕ} (lineNo : ℕ) {blanks : GoString} (hblanks : ∀ b ∈ blanks, Json.isSpace b = true)
    (hturns : (blanks ++ emittedText sha256 redactor prevSum calls).length ≤ turns)
    (hsha : CollisionFree sha256 (hashedTexts sha256 redactor prevSum calls)) :
    verifyLines sha256 turns prevSum lineNo
        (blanks ++ emittedText sha256 redactor prevSum calls) = .ok () ↔
      ∀ c ∈ calls, (prepare redactor c.1 c.2).marshal.isSome → (prepare redactor c.1 c.2).Exact := by
  induction calls generalizing prevSum turns lineNo blanks with
  | nil =>
    rw [emittedText, List.append_nil]
    exact iff_of_true (verifyLines_blank sha256 turns prevSum lineNo hblanks) (by simp)
  | cons c cs ih =>
    have hsome := marshal_withChecksum_isSome sha256 (prepare redactor c.1 c.2) prevSum
    rw [List.forall_mem_cons, ← hsome]
    rw [emittedText] at hturns ⊢
    rw [hashedTexts] at hsha
    cases hline : ((prepare redactor c.1 c.2).withChecksum sha256 prevSum).marshal with
    | none =>
      rw [hline] at hturns hsha
      rw [ih lineNo hblanks hturns hsha]
      simp
    | some line =>
      rw [hline] at hturns hsha
      have hverifies := line_verifies_iff sha256 hline
        (hsha.mono (List.subset_append_left _ _))
      have hread := decodeEvent_marshal hline
      have hlater := hsha.mono (List.subset_append_right _ _)
      obtain ⟨ts, -, hobject⟩ := marshal_eq_some hline
      have hnewline : ∀ b ∈ [newline], Json.isSpace b = true := by simp [newline, Json.isSpace]
      have hchecksum : ∀ ev', decodeEvent line = some ev' →
          ev'.checksum = checksumOf sha256
            (canonicalEventJSON (prepare redactor c.1 c.2) prevSum) := by
        intro ev' hev'
        rw [hread] at hev'
        obtain ⟨d, -, rfl⟩ := Option.map_eq_some_iff.mp hev'
        exact sanitize_checksumOf sha256 _
      cases turns with
      | zero => simp at hturns
      | succ turns =>
        have hrest : ∀ ev', decodeEvent line = some ev' →
            (verifyLines sha256 turns ev'.checksum (lineNo + 1)
              ([newline] ++ emittedText sha256 redactor
                ((prepare redactor c.1 c.2).withChecksum sha256 prevSum).checksum cs) =
                  .ok () ↔ ∀ c ∈ cs, (prepare redactor c.1 c.2).marshal.isSome →
                    (prepare redactor c.1 c.2).Exact) := by
          intro ev' hev'
          rw [hchecksum ev' hev']
          apply ih (lineNo + 1) hnewline _ hlater
          have hne : 0 < (render line).length := by
            obtain ⟨b, s, hs, -⟩ := render_head line
            rw [hs, List.length_cons]
            omega
          simp only [List.length_append, List.length_cons, List.length_nil] at hturns ⊢
          omega
        rw [hobject] at hverifies hrest ⊢
        rw [verifyLines_render sha256 hblanks, Option.isSome_some, ← hverifies]
        constructor
        · rintro ⟨hdepth, ev', hev', hsum, hok⟩
          exact ⟨fun _ => ⟨hdepth, ev', hev', hsum⟩, (hrest ev' hev').mp hok⟩
        · rintro ⟨hfirst, hall⟩
          obtain ⟨hdepth, ev', hev', hsum⟩ := hfirst rfl
          exact ⟨hdepth, ev', hev', hsum, (hrest ev' hev').mpr hall⟩

/-- The line that was written last is read, and its event has the checksum of its hashed form. -/
def LineVerifies (l l' : AuditLogger) : Prop :=
  ∃ line ev, l'.written = l.written ++ render line ++ [newline] ∧
    parse (render line) = some (line, []) ∧ decodeEvent line = some ev ∧
      checksumOf sha256 (canonicalEventJSON ev l.prevChecksum) = ev.checksum

theorem lineVerifies_emit_iff {now : Time} {l l' : AuditLogger} {ev : AuditEvent}
    (hemit : emit sha256 redactor now l ev = some l')
    (hsha : CollisionFree sha256 (lineTexts (prepare redactor now ev) l.prevChecksum)) :
    LineVerifies sha256 l l' ↔ (prepare redactor now ev).Exact := by
  rw [emit_eq] at hemit
  obtain ⟨line, hline, rfl⟩ := Option.map_eq_some_iff.mp hemit
  rw [← line_verifies_iff sha256 hline hsha]
  have hobject := marshal_eq_some hline
  constructor
  · rintro ⟨line', ev', hwritten, hparse, hdecode, hsum⟩
    have htext : render line = render line' :=
      List.append_cancel_left (List.append_cancel_right hwritten)
    obtain ⟨ts, -, rfl⟩ := hobject
    rw [← htext, ← List.append_nil (render _)] at hparse
    obtain ⟨rfl, -, hdepth⟩ := parse_render_object ends_nil hparse
    exact ⟨hdepth, ev', hdecode, hsum⟩
  · rintro ⟨hdepth, ev', hdecode, hsum⟩
    have hparse := parse_render_append hdepth ends_nil
    rw [List.append_nil] at hparse
    exact ⟨line, ev', rfl, hparse, hdecode, hsum⟩

theorem lineTexts_subset {before after : List (Time × AuditEvent)} {c : Time × AuditEvent}
    {l l' : AuditLogger} (hemit : emit sha256 redactor c.1 (emitAll sha256 redactor l before) c.2 =
      some l') :
    lineTexts (prepare redactor c.1 c.2) (emitAll sha256 redactor l before).prevChecksum ⊆
      hashedTexts sha256 redactor l.prevChecksum (before ++ c :: after) := by
  induction before generalizing l with
  | nil =>
    have hsome : ((prepare redactor c.1 c.2).withChecksum sha256 l.prevChecksum).marshal.isSome := by
      rw [emit_eq] at hemit
      obtain ⟨line, hline, -⟩ := Option.map_eq_some_iff.mp hemit
      exact Option.isSome_of_eq_some hline
    obtain ⟨line, hline⟩ := Option.isSome_iff_exists.mp hsome
    rw [List.nil_append, hashedTexts]
    rw [hline]
    exact List.subset_append_left _ _
  | cons d ds ih =>
    rw [emitAll_cons] at hemit ⊢
    have hrest := ih hemit
    rw [emit_eq] at hrest ⊢
    rw [List.cons_append, hashedTexts]
    cases hline : ((prepare redactor d.1 d.2).withChecksum sha256 l.prevChecksum).marshal with
    | none =>
      rw [hline] at hrest
      exact hrest
    | some line =>
      rw [hline] at hrest
      exact List.subset_append_of_subset_right _ hrest

/-- A log is accepted, and each line of it verifies, exactly as far as the events are exact. -/
theorem verifyChain_emitAll_iff (calls : List (Time × AuditEvent))
    (hsha : CollisionFree sha256
      (hashedTexts sha256 redactor (emptyChecksum sha256) calls)) :
    (verifyChain sha256 (emitAll sha256 redactor ⟨emptyChecksum sha256, []⟩ calls).written =
        .ok () ↔
      ∀ c ∈ calls, (prepare redactor c.1 c.2).marshal.isSome → (prepare redactor c.1 c.2).Exact) ∧
    ∀ before c after l', calls = before ++ c :: after →
      emit sha256 redactor c.1 (emitAll sha256 redactor ⟨emptyChecksum sha256, []⟩ before) c.2 =
        some l' →
      (LineVerifies sha256 (emitAll sha256 redactor ⟨emptyChecksum sha256, []⟩ before) l' ↔
        (prepare redactor c.1 c.2).Exact) := by
  constructor
  · have hblanks : ∀ b ∈ ([] : GoString), Json.isSpace b = true := by simp
    rw [emitAll_written, List.nil_append]
    exact verifyLines_emittedText sha256 redactor 0 hblanks (Nat.le_refl _) hsha
  · rintro before c after l' rfl hemit
    exact lineVerifies_emit_iff sha256 redactor hemit
      (hsha.mono (lineTexts_subset sha256 redactor hemit))

end Chain

/-- The digest that is printed as the number in hexadecimal. -/
def digestOf (n : ℕ) : Digest :=
  ⟨(List.range 32).map fun i => UInt8.ofNat (n / 256 ^ (31 - i)), by simp⟩

/-- A time of emission. -/
def sampleTime : Time := ⟨63929358245, 0, 0, Time.nsec_zero⟩

def sampleEvent (detail : Option (List (GoString × Any))) : AuditEvent :=
  { AuditEvent.zero with
    eventType := ascii "tool.invoked"
    agentID := ascii "agent-1"
    action := ascii "invoke"
    resource := ascii "search"
    outcome := ascii "ok"
    detail := detail }

/-- SHA-256 of no text. -/
def emptyDigest : Digest :=
  digestOf 0xe3b0c44298fc1c149afbf4c8996fb92427ae41e4649b934ca495991b7852b855

/-- SHA-256 of the hashed form of the event without a detail on a first line. -/
def firstDigest : Digest :=
  digestOf 0x4b34007cc19110b062f87d486ac07a75bf750a798e36fcc792c17f630285327e

/-- The hashed form of the event after a digest, with what its detail adds. -/
def sampleText (prev : Digest) (detail : GoString) : GoString :=
  ascii "prev=64:" ++ hexString prev.1 ++ ascii "|action=\"invoke\"" ++
    ascii "|agent_id=\"agent-1\"" ++ ascii "|correlation_id=\"\"|" ++ detail ++
    ascii "event_type=\"tool.invoked\"" ++ ascii "|outcome=\"ok\"" ++
    ascii "|resource=\"search\"" ++ ascii "|timestamp=\"2026-01-02T03:04:05Z\"|"

/-- SHA-256 on no text and on hashed forms of the event. -/
def sampleSHA256 (s : GoString) : Digest :=
  if s = [] then emptyDigest
  else if s = sampleText emptyDigest (ascii "detail=[]|") then
    digestOf 0xe335c7305930063753f4b6ed82dcdc1a3c71b97936a52e67d268d13120573792
  else if s = sampleText emptyDigest (ascii "detail=[[\"count\",3]]|") then
    digestOf 0x0ec05f2df340936bf55f28889fac193d91489d65ab08bdedda0d8f4e664ca710
  else if s = sampleText emptyDigest [] then firstDigest
  else if s = sampleText firstDigest [] then
    digestOf 0x12979e2aa7710436ca5a04168733ac06aea3cc2c642599dcb56e125495b15492
  else digestOf 0

theorem sampleEvent_exact : (prepare none sampleTime
    (sampleEvent (some [(ascii "count", .int 3)]))).Exact := by
  refine ⟨?_, by decide, ?_⟩
  · intro f _
    cases f <;> decide
  · intro es hes
    cases hes
    have hthree : ∃ x, Float64.parse (intText 3) = some x ∧ x.format = intText 3 := by
      have hformat : (Float64.parse (intText 3)).map Float64.format = some (intText 3) := by
        decide +kernel
      exact Option.map_eq_some_iff.mp hformat
    exact ⟨by simp, ⟨fun _ => ⟨by decide, hthree⟩, trivial⟩, by decide⟩

theorem verifyChain_emitAll_sample :
    verifyChain sampleSHA256 (emitAll sampleSHA256 none ⟨emptyChecksum sampleSHA256, []⟩
      [(sampleTime, sampleEvent (some [(ascii "count", .int 3)]))]).written = .ok () := by
  refine (verifyChain_emitAll_iff sampleSHA256 none _ ?_).1.mpr ?_
  · unfold CollisionFree sampleSHA256 sampleText
    repeat rw [ascii_ofList]
    decide +kernel
  · intro c hc _
    rw [List.mem_singleton.mp hc]
    exact sampleEvent_exact

/-- The hashed form of an event with an empty detail has the detail, its line has not. -/
theorem empty_detail_mismatch :
    (emit sampleSHA256 none sampleTime ⟨emptyChecksum sampleSHA256, []⟩
      (sampleEvent (some []))).isSome ∧
    verifyChain sampleSHA256 (emitAll sampleSHA256 none ⟨emptyChecksum sampleSHA256, []⟩
        [(sampleTime, sampleEvent (some []))]).written =
      .error (1, .mismatch
        (ascii "e335c7305930063753f4b6ed82dcdc1a3c71b97936a52e67d268d13120573792")
        (ascii "4b34007cc19110b062f87d486ac07a75bf750a798e36fcc792c17f630285327e")) := by
  unfold sampleSHA256 sampleText
  repeat rw [ascii_ofList]
  decide +kernel

end Persatrix.Security
