import Persatrix.AuditRecords

/-!
# Crash recovery

However a file is cut, its last line is whole and its record ends a chain that began with the
file or with the record of a recovery, or the line is not read as a record at all. So the
session that is opened on it goes on with the chain, or begins one of its own.
-/
namespace Persatrix.Security
open Json

section Chain
variable {sha256 : GoString → Digest}

/-! ### Files that are cut -/

variable (sha256) in
/-- However the file is cut, its last line fits in the window, and when it is read as a record
the file up to it is sound with its checksum. -/
def Reopenable (file : GoString) : Prop :=
  ∀ s, s <+: file → (lastLine s).length + 1 < tailWindow ∧
    ∀ ev, unmarshalEvent (lastLine s) = some ev → looksLikeSHA256 ev.checksum = true →
      Sound sha256 (s ++ [newline]) ev.checksum

theorem reopenable_nil : Reopenable sha256 [] := by
  intro s hs
  rw [List.prefix_nil.mp hs]
  exact ⟨by decide, nofun⟩

theorem Reopenable.mono {file s : GoString} (h : Reopenable sha256 file) (hs : s <+: file) :
    Reopenable sha256 s := fun t ht => h t (ht.trans hs)

theorem Reopenable.newline {file : GoString} (h : Reopenable sha256 file) :
    Reopenable sha256 (file ++ [newline]) := by
  intro s hs
  rcases List.prefix_concat_iff.mp hs with rfl | hs
  · rw [lastLine_newline]
    exact ⟨by decide, nofun⟩
  · exact h s hs

theorem Reopenable.record {file prevSum : GoString} {ev : AuditEvent} {line : Doc}
    (h : Reopenable sha256 file) (hstart : LineStart file) (hev : Recordable sha256 ev)
    (hline : (ev.withChecksum sha256 prevSum).marshal = some line)
    (hsound : Sound sha256 (file ++ (render line ++ [Security.newline]))
      (ev.withChecksum sha256 prevSum).checksum) :
    Reopenable sha256 (file ++ (render line ++ [Security.newline])) := by
  intro s hs
  rcases prefix_append_cases hs with hs | ⟨c, hc, rfl⟩
  · exact h s hs
  · rcases List.prefix_concat_iff.mp hc with rfl | hc
    · rw [← List.append_assoc, lastLine_newline]
      exact ⟨by decide, nofun⟩
    · -- a part of the record, which has no newline
      have hmem : Security.newline ∉ c := fun hmem =>
        newline_not_mem_render line (hc.subset hmem)
      rw [lastLine_append hstart hmem]
      have hshort := hev.short prevSum line hline
      refine ⟨lt_of_le_of_lt (Nat.succ_le_succ hc.length_le) hshort, ?_⟩
      intro ev₁ hread₁ hsum
      obtain ⟨ev', hread⟩ := exists_recordRead sha256 hev.exact hline
      obtain ⟨members, rfl⟩ := hread.object
      have hall := eq_render_of_prefix hread.parsed hc hread₁ hsum
      rw [hall, unmarshalEvent_render hread.parsed hread.decoded] at hread₁
      cases hread₁
      rw [hall, List.append_assoc, hread.checksum]
      exact hsound

variable (sha256) in
/-- The last line is the record of an event. -/
def EndsWithRecord (file : GoString) : Prop :=
  ∃ g ev prevSum line, file = g ++ (render line ++ [newline]) ∧ LineStart g ∧
    Recordable sha256 ev ∧ (ev.withChecksum sha256 prevSum).marshal = some line

theorem Sound.endsWithRecord {file sum : GoString} (h : Sound sha256 file sum)
    (hne : file ≠ []) : EndsWithRecord sha256 file := by
  obtain ⟨g, text, evs, rfl, hg, hwritten, hstart⟩ := h
  cases hwritten with
  | nil =>
    rcases hstart with rfl | ⟨e, rest, hevs, -⟩
    · exact absurd rfl hne
    · cases hevs
  | @record text evs prevSum ev line hwritten hev hline =>
    exact ⟨g ++ text, ev, prevSum, line, (List.append_assoc ..).symm,
      hwritten.append_lineStart hg, hev, hline⟩

/-! ### Reopening -/

variable (unmarshalError : GoString → GoString)

/-- The three outcomes of an inspection, with the checksum the chain goes on from. -/
theorem inspectTail_cases {file : GoString} (h : Reopenable sha256 file) :
    (file = [] ∧ (inspectTail sha256 unmarshalError file).kind = .bootstrap ∧
      (inspectTail sha256 unmarshalError file).prevSum = emptyChecksum sha256) ∨
    (EndsWithRecord sha256 file ∧ (inspectTail sha256 unmarshalError file).kind = .restart ∧
      Sound sha256 file (inspectTail sha256 unmarshalError file).prevSum ∧
      ∃ s ev, file = s ++ [newline] ∧ unmarshalEvent (lastLine s) = some ev ∧
        (inspectTail sha256 unmarshalError file).prevSum = ev.checksum) ∨
    (file ≠ [] ∧ ¬ EndsWithRecord sha256 file ∧
      (inspectTail sha256 unmarshalError file).kind = .recovered ∧
      (inspectTail sha256 unmarshalError file).prevSum = emptyChecksum sha256) := by
  by_cases hnil : file = []
  · rw [inspectTail, if_pos hnil]
    exact .inl ⟨hnil, rfl, rfl⟩
  rw [inspectTail, if_neg hnil]
  refine .inr ?_
  by_cases hstart : LineStart file
  · obtain ⟨s, rfl⟩ := hstart.resolve_left hnil
    obtain ⟨hshort, hsound⟩ := h s (List.prefix_append s [newline])
    rw [readLastLine_terminated hshort]
    -- a complete record is read from the last line
    have hrecord : EndsWithRecord sha256 (s ++ [newline]) →
        s ≠ [] ∧ ∃ ev, unmarshalEvent (lastLine s) = some ev ∧
          looksLikeSHA256 ev.checksum = true := by
      rintro ⟨g, ev, prevSum, line, hfile, hg, hev, hline⟩
      obtain ⟨ev', hread⟩ := exists_recordRead sha256 hev.exact hline
      rw [← List.append_assoc] at hfile
      have hs := List.append_cancel_right hfile
      have hlast := lastLine_append hg (newline_not_mem_render line)
      rw [← hs] at hlast
      have hunmarshal := unmarshalEvent_render hread.parsed hread.decoded
      refine ⟨?_, ev', by rw [hlast, hunmarshal], ?_⟩
      · intro hempty
        rw [hempty] at hlast
        rw [← hlast] at hunmarshal
        cases hunmarshal
      · rw [hread.checksum]
        exact looksLikeSHA256_checksumOf sha256 _
    by_cases hs : s = []
    · rw [decide_eq_false (not_not_intro hs)]
      exact .inr ⟨hnil, fun hends => (hrecord hends).1 hs, rfl, rfl⟩
    rw [decide_eq_true hs]
    dsimp only
    cases hread : unmarshalEvent (lastLine s) with
    | none =>
      refine .inr ⟨hnil, ?_, rfl, rfl⟩
      intro hends
      obtain ⟨ev, hev, -⟩ := (hrecord hends).2
      rw [hread] at hev
      cases hev
    | some ev =>
      dsimp only
      split_ifs with hsum
      · have hsound' := hsound ev hread hsum
        exact .inl ⟨hsound'.endsWithRecord hnil, rfl, hsound', s, ev, rfl, hread, rfl⟩
      · refine .inr ⟨hnil, ?_, rfl, rfl⟩
        intro hends
        obtain ⟨ev', hev', hsum'⟩ := (hrecord hends).2
        rw [hread] at hev'
        cases hev'
        exact hsum hsum'
  · obtain ⟨last, hlast⟩ := readLastLine_unterminated hstart
    rw [hlast]
    refine .inr ⟨hnil, ?_, rfl, rfl⟩
    rintro ⟨g, ev, prevSum, line, hfile, -⟩
    rw [← List.append_assoc] at hfile
    exact hstart (.inr ⟨_, hfile⟩)

theorem EndsWithRecord.ne_nil {file : GoString} (h : EndsWithRecord sha256 file) : file ≠ [] := by
  obtain ⟨g, ev, prevSum, line, rfl, -⟩ := h
  simp

/-- A file is classified by its end. -/
theorem inspectTail_kind {file : GoString} (h : Reopenable sha256 file) :
    ((inspectTail sha256 unmarshalError file).kind = .bootstrap ↔ file = []) ∧
    ((inspectTail sha256 unmarshalError file).kind = .restart ↔ EndsWithRecord sha256 file) ∧
    ((inspectTail sha256 unmarshalError file).kind = .recovered ↔
      file ≠ [] ∧ ¬ EndsWithRecord sha256 file) := by
  rcases inspectTail_cases unmarshalError h with
    ⟨hnil, hkind, -⟩ | ⟨hends, hkind, -⟩ | ⟨hne, hnot, hkind, -⟩
  · rw [hkind]
    exact ⟨iff_of_true rfl hnil, iff_of_false nofun fun hends => hends.ne_nil hnil,
      iff_of_false nofun fun hrecovered => hrecovered.1 hnil⟩
  · rw [hkind]
    exact ⟨iff_of_false nofun hends.ne_nil, iff_of_true rfl hends,
      iff_of_false nofun fun hrecovered => hrecovered.2 hends⟩
  · rw [hkind]
    exact ⟨iff_of_false nofun hne, iff_of_false nofun hnot, iff_of_true rfl ⟨hne, hnot⟩⟩

variable (redactor : Option Redactor)

variable (sha256) in
/-- What is written in a session that is opened on the file is recordable, and only the opening
records a recovery. -/
structure SessionOK (file : GoString) (s : Session) : Prop where
  opening : (prepare redactor s.now
      (recoveryEvent (inspectTail sha256 unmarshalError file))).marshal.isSome →
    Recordable sha256 (prepare redactor s.now
      (recoveryEvent (inspectTail sha256 unmarshalError file)))
  calls : ∀ c ∈ s.calls, (prepare redactor c.1 c.2).marshal.isSome →
    Recordable sha256 (prepare redactor c.1 c.2) ∧ c.2.eventType ≠ chainRecovered

variable (sha256) in
/-- The log is sound, and its file may be cut anywhere. -/
structure AuditLogger.Live (l : AuditLogger) : Prop where
  sound : Sound sha256 l.written l.prevChecksum
  reopenable : Reopenable sha256 l.written

theorem prepare_eventType (now : Time) (ev : AuditEvent) :
    (prepare redactor now ev).eventType = ev.eventType := by
  unfold prepare
  cases redactor with
  | none =>
    dsimp only
    split_ifs <;> rfl
  | some r =>
    dsimp only
    split_ifs <;> rfl

theorem emit_eq_some {now : Time} {l l' : AuditLogger} {ev : AuditEvent}
    (h : emit sha256 redactor now l ev = some l') :
    (prepare redactor now ev).marshal.isSome ∧ ∃ line,
      ((prepare redactor now ev).withChecksum sha256 l.prevChecksum).marshal = some line ∧
        l' = ⟨((prepare redactor now ev).withChecksum sha256 l.prevChecksum).checksum,
          l.written ++ (render line ++ [newline])⟩ := by
  rw [emit_eq] at h
  obtain ⟨line, hline, rfl⟩ := Option.map_eq_some_iff.mp h
  refine ⟨?_, line, hline, by rw [List.append_assoc]⟩
  rw [← marshal_withChecksum_isSome sha256 _ l.prevChecksum, hline]
  rfl

theorem emit_live {now : Time} {l l' : AuditLogger} {ev : AuditEvent}
    (hlive : l.Live sha256) (hemit : emit sha256 redactor now l ev = some l')
    (hev : Recordable sha256 (prepare redactor now ev)) (htype : ev.eventType ≠ chainRecovered) :
    l'.Live sha256 := by
  obtain ⟨-, line, hline, rfl⟩ := emit_eq_some redactor hemit
  have hsound := hlive.sound.record hev (by rwa [prepare_eventType]) hline
  exact ⟨hsound, hlive.reopenable.record hlive.sound.lineStart hev hline hsound⟩

/-- What each emit that is accepted keeps holds after all of them. -/
theorem emitAll_keeps {P : AuditLogger → Prop} {calls : List (Time × AuditEvent)}
    {l : AuditLogger} (hl : P l)
    (hstep : ∀ c ∈ calls, ∀ l l', P l → emit sha256 redactor c.1 l c.2 = some l' → P l') :
    P (emitAll sha256 redactor l calls) := by
  induction calls generalizing l with
  | nil => exact hl
  | cons c cs ih =>
    rw [List.forall_mem_cons] at hstep
    rw [emitAll_cons]
    apply ih _ hstep.2
    cases hemit : emit sha256 redactor c.1 l c.2 with
    | none => exact hl
    | some l' => exact hstep.1 l l' hl hemit

/-- The log holds nothing but the records of one chain. -/
def AuditLogger.Whole (sha256 : GoString → Digest) (l : AuditLogger) : Prop :=
  ∃ evs, Written sha256 l.written evs l.prevChecksum

theorem emit_whole {now : Time} {l l' : AuditLogger} {ev : AuditEvent} (hwhole : l.Whole sha256)
    (hemit : emit sha256 redactor now l ev = some l')
    (hev : Recordable sha256 (prepare redactor now ev)) : l'.Whole sha256 := by
  obtain ⟨-, line, hline, rfl⟩ := emit_eq_some redactor hemit
  obtain ⟨evs, hwritten⟩ := hwhole
  exact ⟨_, hwritten.record hev hline⟩

section Session
variable {file : GoString} {s : Session} {l : AuditLogger}

theorem session_live (hok : SessionOK sha256 unmarshalError redactor file s)
    (hlive : l.Live sha256) (k : ℕ) : (emitAll sha256 redactor l (s.calls.take k)).Live sha256 := by
  apply emitAll_keeps redactor hlive
  intro c hc l l' hlive hemit
  have hev := hok.calls c (List.mem_of_mem_take hc) (emit_eq_some redactor hemit).1
  exact emit_live redactor hlive hemit hev.1 hev.2

theorem session_whole (hok : SessionOK sha256 unmarshalError redactor file s)
    (hwhole : l.Whole sha256) (k : ℕ) :
    (emitAll sha256 redactor l (s.calls.take k)).Whole sha256 := by
  apply emitAll_keeps redactor hwhole
  intro c hc l l' hwhole hemit
  have hev := hok.calls c (List.mem_of_mem_take hc) (emit_eq_some redactor hemit).1
  exact emit_whole redactor hwhole hemit hev.1

/-- At most a newline is added before the first record. -/
theorem repaired_eq (sha256 : GoString → Digest) (file : GoString) :
    ∃ terminator, (terminator = [] ∨ terminator = [newline]) ∧
      repaired sha256 unmarshalError file = file ++ terminator := by
  unfold repaired
  split_ifs
  · exact ⟨[newline], .inr rfl, rfl⟩
  · exact ⟨[], .inl rfl, (List.append_nil _).symm⟩

theorem Reopenable.repaired (h : Reopenable sha256 file) :
    Reopenable sha256 (repaired sha256 unmarshalError file) := by
  obtain ⟨terminator, rfl | rfl, heq⟩ := repaired_eq unmarshalError sha256 file
  · rwa [heq, List.append_nil]
  · rw [heq]
    exact h.newline

theorem repaired_of_not_recovered
    (h : (inspectTail sha256 unmarshalError file).kind ≠ .recovered) :
    repaired sha256 unmarshalError file = file := if_neg fun hrecovered => h hrecovered.1

/-- After the repair a line begins. -/
theorem lineStart_repaired
    (h : (inspectTail sha256 unmarshalError file).kind = .recovered) :
    LineStart (repaired sha256 unmarshalError file) := by
  unfold repaired
  split_ifs with hends
  · exact lineStart_newline file
  · rw [not_and] at hends
    have hlast := hends h
    unfold endsWithoutNewline at hlast
    cases hget : file.getLast? with
    | none => exact .inl (List.getLast?_eq_none_iff.mp hget)
    | some b =>
      rw [hget] at hlast
      obtain ⟨t, ht⟩ := List.getLast?_eq_some_iff.mp hget
      refine .inr ⟨t, ?_⟩
      rw [ht, show b = newline by simpa using hlast]

theorem opened_eq (hopen : newFileAuditLogger sha256 unmarshalError redactor s.now file = .ok l) :
    emit sha256 redactor s.now ⟨(inspectTail sha256 unmarshalError file).prevSum,
      repaired sha256 unmarshalError file⟩
      (recoveryEvent (inspectTail sha256 unmarshalError file)) = some l := by
  unfold newFileAuditLogger at hopen
  dsimp only at hopen
  split at hopen
  · cases hopen
  · rename_i hemit
    cases hopen
    exact hemit

theorem recoveryEvent_eventType (t : Tail) :
    (recoveryEvent t).eventType = chainRecovered ↔ t.kind = .recovered := by
  have hbootstrap : chainBootstrap ≠ chainRecovered := by decide
  have hrestart : chainRestart ≠ chainRecovered := by decide
  unfold recoveryEvent
  cases hkind : t.kind with
  | bootstrap => exact iff_of_false hbootstrap nofun
  | restart => exact iff_of_false hrestart nofun
  | recovered => exact iff_of_true rfl rfl

theorem left_eq {left : GoString}
    (hopen : newFileAuditLogger sha256 unmarshalError redactor s.now file = .error left) :
    left = repaired sha256 unmarshalError file := by
  unfold newFileAuditLogger at hopen
  dsimp only at hopen
  split at hopen
  · cases hopen
    rfl
  · cases hopen

theorem open_live (hfile : Reopenable sha256 file)
    (hok : SessionOK sha256 unmarshalError redactor file s)
    (hopen : newFileAuditLogger sha256 unmarshalError redactor s.now file = .ok l) :
    l.Live sha256 := by
  have hemit := opened_eq unmarshalError redactor hopen
  obtain ⟨hsome, line, hline, rfl⟩ := emit_eq_some redactor hemit
  have hev := hok.opening hsome
  have hrepaired := @repaired_of_not_recovered sha256 unmarshalError file
  have hstart := @lineStart_repaired sha256 unmarshalError file
  have hreopenable := hfile.repaired unmarshalError
  have htype : (prepare redactor s.now
      (recoveryEvent (inspectTail sha256 unmarshalError file))).eventType = chainRecovered ↔
        (inspectTail sha256 unmarshalError file).kind = .recovered := by
    rw [prepare_eventType, recoveryEvent_eventType]
  dsimp only at hline ⊢
  rcases inspectTail_cases unmarshalError hfile with
    ⟨hnil, hkind, hsum⟩ | ⟨-, hkind, hsound, -⟩ | ⟨-, -, hkind, hsum⟩
  · -- a chain begins with the file
    rw [(hrepaired (by rw [hkind]; nofun)).trans hnil]
    rw [hsum] at hline ⊢
    have hsound : Sound sha256 ([] ++ (render line ++ [newline])) _ :=
      ⟨[], _, _, rfl, .inl rfl, Written.nil.record hev hline, .inl rfl⟩
    exact ⟨hsound, reopenable_nil.record (.inl rfl) hev hline hsound⟩
  · -- the chain goes on
    rw [hrepaired (by rw [hkind]; nofun)]
    have hother : ¬ (prepare redactor s.now
        (recoveryEvent (inspectTail sha256 unmarshalError file))).eventType = chainRecovered := by
      rw [htype, hkind]
      nofun
    have hsound' := hsound.record hev hother hline
    exact ⟨hsound', hfile.record hsound.lineStart hev hline hsound'⟩
  · -- a chain begins with the record of the recovery
    rw [hsum] at hline ⊢
    have hsound : Sound sha256
        (repaired sha256 unmarshalError file ++ (render line ++ [newline])) _ :=
      ⟨_, _, _, rfl, hstart hkind, Written.nil.record hev hline,
        .inr ⟨_, [], rfl, htype.mpr hkind, by simp⟩⟩
    exact ⟨hsound, hreopenable.record (hstart hkind) hev hline hsound⟩

/-- A file of records that is cut between two of them is one. -/
theorem Written.cut {text sum cut : GoString} {evs : List AuditEvent}
    (h : Written sha256 text evs sum) (hcut : cut <+: text) (hstart : LineStart cut) :
    ∃ evs' sum', Written sha256 cut evs' sum' := by
  induction h with
  | nil =>
    rw [List.prefix_nil.mp hcut]
    exact ⟨_, _, .nil⟩
  | @record text evs prevSum ev line h hev hline ih =>
    rcases prefix_append_cases hcut with hcut | ⟨c, hc, rfl⟩
    · exact ih hcut
    · rcases List.prefix_concat_iff.mp hc with rfl | hc
      · exact ⟨_, _, h.record hev hline⟩
      · have hmem : newline ∉ c := fun hmem => newline_not_mem_render line (hc.subset hmem)
        have hlast := lastLine_append h.lineStart hmem
        have hnil : c = [] := by
          rcases hstart with hempty | ⟨t, ht⟩
          · exact (List.append_eq_nil_iff.mp hempty).2
          · rw [ht, lastLine_newline] at hlast
            exact hlast.symm
        rw [hnil, List.append_nil]
        exact ⟨_, _, h⟩

/-- At the end of one chain's records the chain's checksum is found. -/
theorem inspectTail_whole {evs : List AuditEvent} {sum : GoString}
    (hfile : Reopenable sha256 file) (hwritten : Written sha256 file evs sum) :
    (inspectTail sha256 unmarshalError file).kind ≠ .recovered ∧
      (inspectTail sha256 unmarshalError file).prevSum = sum := by
  rcases inspectTail_cases unmarshalError hfile with
    ⟨rfl, hkind, hsum⟩ | ⟨-, hkind, -, t, ev, rfl, hev, hsum⟩ | ⟨hne, hends, -⟩
  · refine ⟨by rw [hkind]; nofun, ?_⟩
    rw [hsum]
    generalize hnil : ([] : GoString) = text at hwritten
    cases hwritten with
    | nil => rfl
    | record _ _ _ => simp at hnil
  · refine ⟨by rw [hkind]; nofun, ?_⟩
    obtain ⟨t', ev', ht, hev', -, hsum', -⟩ := hwritten.last (by simp)
    have hsame : t = t' := List.append_cancel_right ht
    rw [hsame, hev'] at hev
    cases hev
    rw [hsum, hsum']
  · have hsound : Sound sha256 file sum := ⟨[], file, evs, rfl, .inl rfl, hwritten, .inl rfl⟩
    exact absurd (hsound.endsWithRecord hne) hends

/-- A file of one chain's records is opened to go on with the chain. -/
theorem open_whole {evs : List AuditEvent} {sum : GoString} (hfile : Reopenable sha256 file)
    (hwritten : Written sha256 file evs sum)
    (hok : SessionOK sha256 unmarshalError redactor file s)
    (hopen : newFileAuditLogger sha256 unmarshalError redactor s.now file = .ok l) :
    l.Whole sha256 := by
  have hemit := opened_eq unmarshalError redactor hopen
  obtain ⟨hkind, hsum⟩ := inspectTail_whole unmarshalError hfile hwritten
  rw [repaired_of_not_recovered unmarshalError hkind, hsum] at hemit
  have hwhole : AuditLogger.Whole sha256 ⟨sum, file⟩ := ⟨evs, hwritten⟩
  exact emit_whole redactor hwhole hemit (hok.opening (emit_eq_some redactor hemit).1)

end Session

/-! ### Sequences of sessions -/

section Sessions
variable {file : GoString} {sessions : List Session}

variable (sha256) in
/-- Each session of the sequence is all right on the file it is opened on. -/
def SessionsOK : GoString → List Session → Prop
  | _, [] => True
  | file, s :: ss =>
    SessionOK sha256 unmarshalError redactor file s ∧
      SessionsOK (runSession sha256 unmarshalError redactor file s) ss

variable (sha256) in
/-- Each session leaves a file that ends between two records. -/
def CutBetweenRecords : GoString → List Session → Prop
  | _, [] => True
  | file, s :: ss =>
    LineStart (runSession sha256 unmarshalError redactor file s) ∧
      CutBetweenRecords (runSession sha256 unmarshalError redactor file s) ss

theorem truncated_le (s : Session) (file : GoString) : s.truncated file <+: file := by
  unfold Session.truncated
  cases s.cut with
  | none => exact List.prefix_rfl
  | some n => exact List.take_prefix n file

theorem emitAll_take_all (l : AuditLogger) (s : Session) :
    emitAll sha256 redactor l (s.calls.take s.calls.length) = emitAll sha256 redactor l s.calls := by
  rw [List.take_length]

theorem runSession_reopenable {s : Session} (hfile : Reopenable sha256 file)
    (hok : SessionOK sha256 unmarshalError redactor file s) :
    Reopenable sha256 (runSession sha256 unmarshalError redactor file s) := by
  unfold runSession
  cases hopen : newFileAuditLogger sha256 unmarshalError redactor s.now file with
  | error left =>
    rw [left_eq unmarshalError redactor hopen]
    exact (hfile.repaired unmarshalError).mono (truncated_le s _)
  | ok l =>
    have hlive := open_live unmarshalError redactor hfile hok hopen
    have hall := session_live unmarshalError redactor hok hlive s.calls.length
    rw [emitAll_take_all] at hall
    exact hall.reopenable.mono (truncated_le s _)

theorem runSessions_reopenable (hfile : Reopenable sha256 file)
    (hok : SessionsOK sha256 unmarshalError redactor file sessions) :
    Reopenable sha256 (runSessions sha256 unmarshalError redactor file sessions) := by
  induction sessions generalizing file with
  | nil => exact hfile
  | cons s ss ih => exact ih (runSession_reopenable unmarshalError redactor hfile hok.1) hok.2

theorem runSession_whole {s : Session} {evs : List AuditEvent} {sum : GoString}
    (hfile : Reopenable sha256 file) (hwritten : Written sha256 file evs sum)
    (hok : SessionOK sha256 unmarshalError redactor file s)
    (hcut : LineStart (runSession sha256 unmarshalError redactor file s)) :
    ∃ evs' sum', Written sha256 (runSession sha256 unmarshalError redactor file s) evs' sum' := by
  unfold runSession at hcut ⊢
  cases hopen : newFileAuditLogger sha256 unmarshalError redactor s.now file with
  | error left =>
    have hleft : left = file := by
      rw [left_eq unmarshalError redactor hopen]
      exact repaired_of_not_recovered unmarshalError
        (inspectTail_whole unmarshalError hfile hwritten).1
    rw [hopen] at hcut
    rw [hleft] at hcut ⊢
    exact hwritten.cut (truncated_le s _) hcut
  | ok l =>
    rw [hopen] at hcut
    have hwhole := open_whole unmarshalError redactor hfile hwritten hok hopen
    have hall := session_whole unmarshalError redactor hok hwhole s.calls.length
    rw [emitAll_take_all] at hall
    obtain ⟨evs', hevs⟩ := hall
    exact hevs.cut (truncated_le s _) hcut

theorem runSessions_whole {evs : List AuditEvent} {sum : GoString}
    (hfile : Reopenable sha256 file) (hwritten : Written sha256 file evs sum)
    (hok : SessionsOK sha256 unmarshalError redactor file sessions)
    (hcut : CutBetweenRecords sha256 unmarshalError redactor file sessions) :
    ∃ evs' sum',
      Written sha256 (runSessions sha256 unmarshalError redactor file sessions) evs' sum' := by
  induction sessions generalizing file evs sum with
  | nil => exact ⟨evs, sum, hwritten⟩
  | cons s ss ih =>
    obtain ⟨evs', sum', hwritten'⟩ :=
      runSession_whole unmarshalError redactor hfile hwritten hok.1 hcut.1
    exact ih (runSession_reopenable unmarshalError redactor hfile hok.1) hwritten' hok.2 hcut.2

/-- What reopening a file does, and what holds of the file as the session goes on. -/
structure Recovers (sha256 : GoString → Digest) (unmarshalError : GoString → GoString)
    (redactor : Option Redactor) (file : GoString) (s : Session) (l : AuditLogger) : Prop where
  bootstrap : (inspectTail sha256 unmarshalError file).kind = .bootstrap ↔ file = []
  restart : (inspectTail sha256 unmarshalError file).kind = .restart ↔ EndsWithRecord sha256 file
  recovered : (inspectTail sha256 unmarshalError file).kind = .recovered ↔
    file ≠ [] ∧ ¬ EndsWithRecord sha256 file
  appends : ∃ terminator line, (terminator = [] ∨ terminator = [newline]) ∧
    l.written = file ++ terminator ++ (render line ++ [newline])
  keeps : ∀ k, ∃ text, (emitAll sha256 redactor l (s.calls.take k)).written = l.written ++ text
  verifies : ∀ k,
    verifiesFromRecovery sha256 (emitAll sha256 redactor l (s.calls.take k)).written = true

/-- After any sequence of sessions, wherever their files were cut, a file that is opened is
classified by its end, is only appended to, and verifies as a whole or from the last recovery
on; it verifies as a whole if it was only cut between records. -/
theorem sessions_recover {sessions : List Session} {s : Session} {l : AuditLogger}
    (hsessions : SessionsOK sha256 unmarshalError redactor [] sessions)
    (hs : SessionOK sha256 unmarshalError redactor
      (runSessions sha256 unmarshalError redactor [] sessions) s)
    (hopen : newFileAuditLogger sha256 unmarshalError redactor s.now
      (runSessions sha256 unmarshalError redactor [] sessions) = .ok l) :
    Recovers sha256 unmarshalError redactor
        (runSessions sha256 unmarshalError redactor [] sessions) s l ∧
      (CutBetweenRecords sha256 unmarshalError redactor [] sessions → ∀ k,
        verifyChain sha256 (emitAll sha256 redactor l (s.calls.take k)).written = .ok ()) := by
  have hfile := runSessions_reopenable unmarshalError redactor reopenable_nil hsessions
  have hlive := open_live unmarshalError redactor hfile hs hopen
  obtain ⟨hbootstrap, hrestart, hrecovered⟩ := inspectTail_kind unmarshalError hfile
  refine ⟨⟨hbootstrap, hrestart, hrecovered, ?_, ?_, ?_⟩, ?_⟩
  · obtain ⟨-, line, -, hl⟩ := emit_eq_some redactor (opened_eq unmarshalError redactor hopen)
    obtain ⟨terminator, hterminator, heq⟩ := repaired_eq unmarshalError sha256
      (runSessions sha256 unmarshalError redactor [] sessions)
    refine ⟨terminator, line, hterminator, ?_⟩
    rw [hl, heq]
  · intro k
    exact ⟨_, emitAll_written sha256 redactor l _⟩
  · intro k
    exact (session_live unmarshalError redactor hs hlive k).sound.verifies
  · intro hcut k
    obtain ⟨evs, sum, hwritten⟩ :=
      runSessions_whole unmarshalError redactor reopenable_nil .nil hsessions hcut
    have hwhole := open_whole unmarshalError redactor hfile hwritten hs hopen
    obtain ⟨evs', hevs⟩ := session_whole unmarshalError redactor hs hwhole k
    exact hevs.verifies

end Sessions

/-! ### Records of openings -/

theorem renderMembers_last_length (ms : List (StringLit × Doc)) {m m' : StringLit × Doc}
    (h : (renderMembers [m]).length = (renderMembers [m']).length) :
    (renderMembers (ms ++ [m])).length = (renderMembers (ms ++ [m'])).length := by
  induction ms with
  | nil => exact h
  | cons k ms ih =>
    have hne : ∀ n : StringLit × Doc, (ms ++ [n]).isEmpty = false := by simp
    rw [List.cons_append, List.cons_append, renderMembers, renderMembers, hne, hne]
    simp only [Bool.false_eq_true, if_false, List.length_append, List.length_cons, ih]

theorem encodeString_checksumOf (s : GoString) :
    (encodeString (checksumOf sha256 s)).1 = checksumOf sha256 s :=
  encodeString_plain fun b hb => isPlain_of_isHex (hexString_isHex _ b hb)

theorem checksumOf_length (s : GoString) : (checksumOf sha256 s).length = 64 := by
  rw [checksumOf, hexString_length, (sha256 s).2]

/-- The line of an event is as long with one checksum as with another. -/
theorem marshal_length {ev : AuditEvent} {s t : GoString} {line line' : Doc}
    (h : ({ ev with checksum := checksumOf sha256 s }).marshal = some line)
    (h' : ({ ev with checksum := checksumOf sha256 t }).marshal = some line') :
    (render line).length = (render line').length := by
  obtain ⟨ts, hts, rfl⟩ := marshal_eq_some h
  obtain ⟨ts', hts', rfl⟩ := marshal_eq_some h'
  cases Option.some.inj (hts.symm.trans hts')
  have hlast : ∀ u, (renderMembers [({ ev with checksum := checksumOf sha256 u } :
      AuditEvent).stringMember .checksum]).length = 77 := by
    intro u
    have hvalue : (encodeString (checksumOf sha256 u)).1.length = 64 := by
      rw [encodeString_checksumOf, checksumOf_length]
    have hkey : (encodeString AuditField.checksum.key).1.length = 8 := by decide
    simp only [AuditEvent.stringMember, member, renderMembers, render, stringText,
      List.length_append, List.length_cons, List.length_nil, AuditEvent.string, hkey, hvalue,
      List.isEmpty_nil, if_true]
  rw [render, render, List.length_cons, List.length_cons, List.length_append, List.length_append]
  exact congrArg (· + 1 + 1) (renderMembers_last_length _ ((hlast s).trans (hlast t).symm))

theorem recordable_of_line {ev : AuditEvent} (h : ev.Exact)
    (hshort : (({ ev with checksum := emptyChecksum sha256 }).marshal.map fun line =>
      decide ((render line).length + 1 < tailWindow)) = some true) : Recordable sha256 ev := by
  obtain ⟨line, hline, hfits⟩ := Option.map_eq_some_iff.mp hshort
  rw [decide_eq_true_eq] at hfits
  refine ⟨h, ?_⟩
  intro prevSum line' hline'
  have hlength : (render line').length = (render line).length := marshal_length hline' hline
  omega

theorem recoveryDetail_exact_iff (tail reason : GoString) :
    ExactEntries ([(ascii "prior_tail", .string (ascii "unknown")),
        (ascii "prior_tail_raw_truncated", .string tail)] ++
        if reason = [] then [] else [(ascii "recovery_reason", .string reason)]) ↔
      validString tail = true ∧ validString reason = true := by
  have hkeys : [ascii "prior_tail", ascii "prior_tail_raw_truncated",
      ascii "recovery_reason"].Nodup := by decide
  simp only [List.nodup_cons, List.mem_cons, List.not_mem_nil, or_false, not_or] at hkeys
  obtain ⟨⟨h12, h13⟩, h23, -⟩ := hkeys
  have hvalid : validString (ascii "prior_tail") = true ∧ validString (ascii "unknown") = true ∧
      validString (ascii "prior_tail_raw_truncated") = true ∧
      validString (ascii "recovery_reason") = true := by decide
  obtain ⟨hv1, hv2, hv3, hv4⟩ := hvalid
  by_cases hreason : reason = []
  · simp [hreason, ExactEntries, Any.Exact, h12, hv1, hv2, hv3]
  · simp [hreason, ExactEntries, Any.Exact, h12, h13, h23, hv1, hv2, hv3, hv4]

theorem recoveryDetail_depth (tail reason : GoString) :
    (Json.marshal (.map ([(ascii "prior_tail", .string (ascii "unknown")),
        (ascii "prior_tail_raw_truncated", .string tail)] ++
        if reason = [] then [] else [(ascii "recovery_reason", .string reason)]))).depth = 1 := by
  split_ifs <;> rfl

/-- Without a redactor the record of a recovery is exact when what it keeps of the last line and
the reason are encodings of texts. -/
theorem recoveryEvent_exact_iff {t : Tail} (hkind : t.kind = .recovered) (now : Time) :
    (prepare none now (recoveryEvent t)).Exact ↔
      validString (truncate t.priorTail 256) = true ∧ validString t.reason = true := by
  have hzero : (recoveryEvent t).timestamp.isZero = true := by
    unfold recoveryEvent
    rw [hkind]
    rfl
  have hprepare : prepare none now (recoveryEvent t) =
      { recoveryEvent t with timestamp := now.utc } := by
    unfold prepare
    dsimp only
    rw [if_pos hzero]
  rw [hprepare]
  unfold recoveryEvent
  rw [hkind]
  constructor
  · intro h
    exact (recoveryDetail_exact_iff _ _).mp (h.detail _ rfl).2.1
  · intro hvalid
    refine ⟨?_, rfl, ?_⟩
    · intro f _
      cases f <;> rfl
    · intro es hes
      cases hes
      refine ⟨by simp, (recoveryDetail_exact_iff _ _).mpr hvalid, ?_⟩
      rw [recoveryDetail_depth]
      decide

end Chain

/-- An event whose agent has a name of one character in two bytes. -/
def accentEvent : AuditEvent :=
  { AuditEvent.zero with eventType := ascii "tool.invoked", agentID := [0xC3, 0xA9] }

def bootDigest : Digest :=
  digestOf 0x3ec248b118fd75077d697357dfaceef188abdac6eea7d3d7336ca00e4eb5e232

def bootText : GoString :=
  ascii "prev=64:" ++ hexString emptyDigest.1 ++ ascii "|action=\"bootstrap\"|agent_id=\"\"|" ++
    ascii "correlation_id=\"\"|event_type=\"chain.bootstrap\"|outcome=\"ok\"|resource=\"\"|" ++
    ascii "timestamp=\"2026-01-02T03:04:05Z\"|"

def accentText : GoString :=
  ascii "prev=64:" ++ hexString bootDigest.1 ++ ascii "|action=\"\"|agent_id=\"" ++
    [0xC3, 0xA9] ++ ascii "\"|correlation_id=\"\"|event_type=\"tool.invoked\"|outcome=\"\"|" ++
    ascii "resource=\"\"|timestamp=\"2026-01-02T03:04:05Z\"|"

/-- The hashed form of the record of a recovery after the line of the event was cut in or before
the agent's name, of which the given text is left. -/
def cutText (left : GoString) : GoString :=
  ascii "prev=64:" ++ hexString emptyDigest.1 ++ ascii "|action=\"recovered\"|agent_id=\"\"|" ++
    ascii "correlation_id=\"\"|detail=[[\"prior_tail\",\"unknown\"]," ++
    ascii "[\"prior_tail_raw_truncated\",\"\x7b\\\"timestamp\\\":\\\"2026-01-02T03:04:05Z\\\"," ++
    ascii "\\\"correlation_id\\\":\\\"\\\",\\\"event_type\\\":\\\"tool.invoked\\\"," ++
    ascii "\\\"agent_id\\\":\\\"" ++ left ++ ascii "\"],[\"recovery_reason\"," ++
    ascii "\"tail-read: incomplete final line (truncated or oversized record)\"]]|" ++
    ascii "event_type=\"chain.recovered\"|outcome=\"warn\"|resource=\"\"|" ++
    ascii "timestamp=\"2026-01-02T03:04:05Z\"|"

/-- SHA-256 on no text and on these. -/
def cutSHA256 (s : GoString) : Digest :=
  if s = [] then emptyDigest
  else if s = bootText then bootDigest
  else if s = accentText then
    digestOf 0xfc5fcd418d277e991a738ebcbfe7bf69aea214c5747bf2da5f666dd485c7a786
  else if s = cutText (ascii "\\ufffd") then
    digestOf 0x3c9fac4bf1598fef0f4a4229a2d01cdeef52b71bc72f760f904a25a588517b6b
  else if s = cutText replacementChar then
    digestOf 0x4103d845bcd2ca31ed4cba140f979851777a0b3fc5c355741303b25ccbad4e8d
  else if s = cutText [] then
    digestOf 0x08cd1d026de1b71df9c2c063fa76ee7815753851ecffab652e793f81937edb14
  else digestOf 0

/-- A session that writes the event and is cut after that many bytes. -/
def cutSession (n : ℕ) : Session := ⟨sampleTime, [(sampleTime, accentEvent)], some n⟩

def endOfInput (_ : GoString) : GoString := ascii "unexpected end of JSON input"

theorem exists_of_toOption {α ε β : Type} {x : Except ε α} {f : α → β} {b : β}
    (h : x.toOption.map f = some b) : ∃ a, x = .ok a ∧ f a = b := by
  cases x with
  | error e => cases h
  | ok a => exact ⟨a, rfl, Option.some.inj h⟩

theorem boot_recordable : Recordable cutSHA256 (prepare none sampleTime
    (recoveryEvent (inspectTail cutSHA256 endOfInput []))) := by
  have hshort : (({ prepare none sampleTime (recoveryEvent (inspectTail cutSHA256 endOfInput []))
      with checksum := emptyChecksum cutSHA256 }).marshal.map fun line =>
        decide ((render line).length + 1 < tailWindow)) = some true := by
    unfold cutSHA256 bootText accentText cutText
    simp only [List.append_assoc]
    repeat rw [ascii_ofList]
    decide +kernel
  refine recordable_of_line ⟨?_, by decide, nofun⟩ hshort
  intro f _
  cases f <;> decide

theorem accent_recordable : Recordable cutSHA256 (prepare none sampleTime accentEvent) := by
  have hshort : (({ prepare none sampleTime accentEvent with
      checksum := emptyChecksum cutSHA256 }).marshal.map fun line =>
        decide ((render line).length + 1 < tailWindow)) = some true := by
    unfold cutSHA256 bootText accentText cutText
    simp only [List.append_assoc]
    repeat rw [ascii_ofList]
    decide +kernel
  refine recordable_of_line ⟨?_, by decide, nofun⟩ hshort
  intro f _
  cases f <;> decide

/-- What the session after the cut finds and records, computed in one go. -/
theorem cutSession_recorded :
    (newFileAuditLogger cutSHA256 endOfInput none sampleTime
      (runSessions cutSHA256 endOfInput none [] [cutSession 326])).toOption.map (fun _ => ()) =
        some () ∧
    (inspectTail cutSHA256 endOfInput
      (runSessions cutSHA256 endOfInput none [] [cutSession 326])).kind = .recovered ∧
    (validString (truncate (inspectTail cutSHA256 endOfInput
      (runSessions cutSHA256 endOfInput none [] [cutSession 326])).priorTail 256) = true ∧
    validString (inspectTail cutSHA256 endOfInput
      (runSessions cutSHA256 endOfInput none [] [cutSession 326])).reason = true) ∧
    (({ prepare none sampleTime (recoveryEvent (inspectTail cutSHA256 endOfInput
          (runSessions cutSHA256 endOfInput none [] [cutSession 326])))
      with checksum := emptyChecksum cutSHA256 }).marshal.map fun line =>
        decide ((render line).length + 1 < tailWindow)) = some true := by
  unfold cutSHA256 bootText accentText cutText
  simp only [List.append_assoc]
  repeat rw [ascii_ofList]
  decide +kernel

theorem sessions_recover_sample :
    ∃ l, newFileAuditLogger cutSHA256 endOfInput none sampleTime
        (runSessions cutSHA256 endOfInput none [] [cutSession 326]) = .ok l ∧
      Recovers cutSHA256 endOfInput none
        (runSessions cutSHA256 endOfInput none [] [cutSession 326]) ⟨sampleTime, [], none⟩ l := by
  obtain ⟨hopens, hkind, hvalid, hshort⟩ := cutSession_recorded
  obtain ⟨l, hopen, -⟩ := exists_of_toOption hopens
  have hfirst : SessionOK cutSHA256 endOfInput none [] (cutSession 326) := by
    refine ⟨fun _ => boot_recordable, ?_⟩
    intro c hc _
    rw [List.mem_singleton.mp hc]
    exact ⟨accent_recordable, by decide⟩
  have hsecond : SessionOK cutSHA256 endOfInput none
      (runSessions cutSHA256 endOfInput none [] [cutSession 326]) ⟨sampleTime, [], none⟩ := by
    refine ⟨?_, by simp⟩
    intro _
    exact recordable_of_line ((recoveryEvent_exact_iff hkind _).mpr hvalid) hshort
  have hsessions : SessionsOK cutSHA256 endOfInput none [] [cutSession 326] :=
    And.intro hfirst trivial
  exact ⟨l, hopen, (sessions_recover endOfInput none hsessions hsecond hopen).1⟩

/-- A file that was cut within a character does not verify after it is opened, nor does the part
from the record of the recovery on. -/
theorem cut_character_not_verified :
    ∃ l, newFileAuditLogger cutSHA256 endOfInput none sampleTime
        (runSessions cutSHA256 endOfInput none [] [cutSession 327]) = .ok l ∧
      verifiesFromRecovery cutSHA256 l.written = false := by
  apply exists_of_toOption
  unfold cutSHA256 bootText accentText cutText
  simp only [List.append_assoc]
  repeat rw [ascii_ofList]
  decide +kernel

end Persatrix.Security
