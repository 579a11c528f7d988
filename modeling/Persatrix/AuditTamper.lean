import Persatrix.AuditAgreement

/-!
# Tampering

The hashed form tells every field of an event that was read. So the checksums of an accepted log
are all different, a line that says something else changes every checksum from it on, and a line
that is deleted or moved leaves one that follows the wrong checksum.
-/
namespace Persatrix.Security
open Json

/-! ### Events that were read -/

/-- An event with the strings and the detail that decoding gives. -/
structure AuditEvent.Decoded (ev : AuditEvent) : Prop where
  strings : ∀ f, validString (ev.string f) = true
  detail : ∀ es, ev.detail = some es → (Any.map es).Plain

theorem setField_decoded {ev ev' : AuditEvent} {f : AuditField} {d : Doc} (hev : ev.Decoded)
    (h : ev.setField f d = some ev') : ev'.Decoded := by
  have hstring : ∀ (g : AuditField) (s : GoString), (ev.withString g (unquote s)).Decoded := by
    intro g s
    refine ⟨?_, ?_⟩
    · intro f'
      have hs := validString_unquote s
      have hold := hev.strings f'
      cases g <;> cases f' <;> first | exact hs | exact hold
    · intro es hes
      apply hev.detail es
      cases g <;> exact hes
  have htext : f ≠ .timestamp → f ≠ .detail → ev'.Decoded := by
    intro htime hdetail
    cases d with
    | null =>
      have hsame : ev.setField f .null = some ev := by cases f <;> first | rfl | contradiction
      rw [hsame] at h
      cases h
      exact hev
    | string s =>
      have hsame : ev.setField f (.string s) = some (ev.withString f (unquote s.1)) := by
        cases f <;> first | rfl | contradiction
      rw [hsame] at h
      cases h
      exact hstring f s.1
    | bool b => cases f <;> cases h
    | number n => cases f <;> cases h
    | array elems => cases f <;> cases h
    | object members => cases f <;> contradiction
  cases f with
  | timestamp =>
    cases d with
    | null =>
      cases h
      exact hev
    | string s =>
      obtain ⟨t, -, rfl⟩ := Option.map_eq_some_iff.mp h
      refine ⟨?_, hev.detail⟩
      intro f'
      have hold := hev.strings f'
      cases f' <;> exact hold
    | bool b => cases h
    | number n => cases h
    | array elems => cases h
    | object members => cases h
  | detail =>
    cases d with
    | null =>
      cases h
      refine ⟨?_, nofun⟩
      intro f'
      have hold := hev.strings f'
      cases f' <;> exact hold
    | object members =>
      obtain ⟨es, hes, rfl⟩ := Option.map_eq_some_iff.mp h
      refine ⟨?_, ?_⟩
      · intro f'
        have hold := hev.strings f'
        cases f' <;> exact hold
      · intro es' hes'
        cases hes'
        refine ⟨plain_sortEntries ?_, ascending_sortEntries _⟩
        rw [plainEntries_iff, List.forall_mem_append, ← plainEntries_iff, ← plainEntries_iff]
        refine ⟨?_, decodeMembers_plain members hes⟩
        cases hdetail : ev.detail with
        | none => trivial
        | some old => exact (hev.detail old hdetail).1
    | bool b => cases h
    | number n => cases h
    | array elems => cases h
    | string s => cases h
  | correlationID => exact htext nofun nofun
  | eventType => exact htext nofun nofun
  | agentID => exact htext nofun nofun
  | action => exact htext nofun nofun
  | resource => exact htext nofun nofun
  | outcome => exact htext nofun nofun
  | checksum => exact htext nofun nofun

theorem zero_decoded : AuditEvent.zero.Decoded := by
  refine ⟨?_, nofun⟩
  intro f
  cases f <;> rfl

theorem decodeEvent_decoded {d : Doc} {ev : AuditEvent} (h : decodeEvent d = some ev) :
    ev.Decoded := by
  have hmembers : ∀ (members : List (StringLit × Doc)) (ev₀ : AuditEvent), ev₀.Decoded →
      members.foldlM AuditEvent.setMember ev₀ = some ev → ev.Decoded := by
    intro members
    induction members with
    | nil =>
      intro ev₀ h₀ h
      cases h
      exact h₀
    | cons m ms ih =>
      intro ev₀ h₀ h
      rw [List.foldlM_cons] at h
      obtain ⟨ev₁, h₁, h⟩ := Option.bind_eq_some_iff.mp h
      apply ih ev₁ _ h
      unfold AuditEvent.setMember at h₁
      cases hlookup : AuditField.lookup (unquote m.1.1) with
      | none =>
        rw [hlookup] at h₁
        cases h₁
        exact h₀
      | some f =>
        rw [hlookup] at h₁
        exact setField_decoded h₀ h₁
  cases d with
  | null =>
    cases h
    exact zero_decoded
  | object members => exact hmembers members _ zero_decoded h
  | bool b => cases h
  | number n => cases h
  | string s => cases h
  | array elems => cases h

/-- Two events differ at most in the checksum and in the zone of the timestamp. -/
structure AuditEvent.Same (ev ev' : AuditEvent) : Prop where
  sec : ev.timestamp.sec = ev'.timestamp.sec
  nsec : ev.timestamp.nsec = ev'.timestamp.nsec
  strings : ∀ f, f ≠ .checksum → ev.string f = ev'.string f
  detail : ev.detail = ev'.detail

/-- The hashed fields of events that were read are the fields. -/
theorem sameCanonical_iff {ev ev' : AuditEvent} (hev : ev.Decoded) (hev' : ev'.Decoded) :
    SameCanonical ev ev' ↔ ev.Same ev' := by
  constructor
  · intro h
    have hinstant := (utcText_eq_iff _ _).mp (encodeString_text_injective h.timestamp)
    refine ⟨hinstant.1, hinstant.2, ?_, ?_⟩
    · intro f hf
      have htext := encodeString_injective (hev.strings f) (hev'.strings f)
      cases f with
      | timestamp => rfl
      | correlationID => exact htext h.correlationID
      | eventType => exact htext h.eventType
      | agentID => exact htext h.agentID
      | action => exact htext h.action
      | resource => exact htext h.resource
      | outcome => exact htext h.outcome
      | detail => rfl
      | checksum => exact absurd rfl hf
    · have hdetail := h.detail
      have hplain := hev.detail
      have hplain' := hev'.detail
      cases hd : ev.detail with
      | none =>
        cases hd' : ev'.detail with
        | none => rfl
        | some es' =>
          rw [hd, hd'] at hdetail
          cases hdetail
      | some es =>
        cases hd' : ev'.detail with
        | none =>
          rw [hd, hd'] at hdetail
          cases hdetail
        | some es' =>
          rw [hd, hd', Option.map_some, Option.map_some, Option.some.injEq,
            sortMap_eq_iff] at hdetail
          have hmap := marshal_injective (hplain es hd) (hplain' es' hd') hdetail
          rw [Any.map.inj hmap]
  · intro h
    have hencode : ∀ f, f ≠ .checksum →
        encodeString (ev.string f) = encodeString (ev'.string f) :=
      fun f hf => congrArg encodeString (h.strings f hf)
    have hinstant := (utcText_eq_iff ev.timestamp ev'.timestamp).mpr ⟨h.sec, h.nsec⟩
    exact ⟨hencode .action nofun, hencode .agentID nofun, hencode .correlationID nofun,
      congrArg _ h.detail, hencode .eventType nofun, hencode .outcome nofun,
      hencode .resource nofun, congrArg encodeString hinstant⟩

/-! ### Chains -/

section Chain
variable (sha256 : GoString → Digest)

/-- The checksum after the events. -/
def lastSum : GoString → List AuditEvent → GoString
  | prevSum, [] => prevSum
  | _, ev :: evs => lastSum ev.checksum evs

/-- What is hashed to check the events. -/
def chainTexts : GoString → List AuditEvent → List GoString
  | _, [] => []
  | prevSum, ev :: evs => canonicalEventJSON ev prevSum :: chainTexts ev.checksum evs

theorem lastSum_append (prevSum : GoString) (as bs : List AuditEvent) :
    lastSum prevSum (as ++ bs) = lastSum (lastSum prevSum as) bs := by
  induction as generalizing prevSum with
  | nil => rfl
  | cons a as ih => exact ih a.checksum

theorem chainTexts_append (prevSum : GoString) (as bs : List AuditEvent) :
    chainTexts prevSum (as ++ bs) = chainTexts prevSum as ++ chainTexts (lastSum prevSum as) bs := by
  induction as generalizing prevSum with
  | nil => rfl
  | cons a as ih => rw [List.cons_append, chainTexts, ih, chainTexts, List.cons_append, lastSum]

theorem chained_append (prevSum : GoString) (as bs : List AuditEvent) :
    Chained sha256 prevSum (as ++ bs) ↔
      Chained sha256 prevSum as ∧ Chained sha256 (lastSum prevSum as) bs := by
  induction as generalizing prevSum with
  | nil => exact (and_iff_right trivial).symm
  | cons a as ih => rw [List.cons_append, Chained, ih, Chained, lastSum, and_assoc]

theorem lastSum_mem (prevSum : GoString) (evs : List AuditEvent) :
    lastSum prevSum evs ∈ prevSum :: evs.map AuditEvent.checksum := by
  induction evs generalizing prevSum with
  | nil => exact List.mem_cons_self ..
  | cons ev evs ih => exact List.mem_cons_of_mem _ (ih ev.checksum)

theorem canonicalEventJSON_ne_nil (ev : AuditEvent) (prevSum : GoString) :
    canonicalEventJSON ev prevSum ≠ [] := nofun

/-- The checksums of an accepted log, and the one before it, are all different. -/
theorem checksums_nodup {evs : List AuditEvent} (h : Chained sha256 (emptyChecksum sha256) evs)
    (hsha : CollisionFree sha256 ([] :: chainTexts (emptyChecksum sha256) evs)) :
    (emptyChecksum sha256 :: evs.map AuditEvent.checksum).Nodup := by
  induction evs using List.reverseRecOn with
  | nil => exact List.nodup_singleton _
  | append_singleton evs ev ih =>
    rw [chained_append] at h
    rw [chainTexts_append] at hsha
    obtain ⟨hevs, hsum, -⟩ := h
    have hnodup := ih hevs (hsha.mono (by simp))
    have hlast : canonicalEventJSON ev (lastSum (emptyChecksum sha256) evs) ∈
        [] :: (chainTexts (emptyChecksum sha256) evs ++
          chainTexts (lastSum (emptyChecksum sha256) evs) [ev]) := by
      simp [chainTexts]
    have hnew : ev.checksum ∉ emptyChecksum sha256 :: evs.map AuditEvent.checksum := by
      intro hmem
      rw [← hsum] at hmem
      rcases List.mem_cons.mp hmem with hempty | hmem
      · -- the hashed form of an event is not empty
        have htext := hsha _ hlast _ (List.mem_cons_self ..)
          ((checksumOf_eq_iff sha256 _ _).mp hempty)
        exact canonicalEventJSON_ne_nil _ _ htext
      · -- an earlier event with the checksum follows the same checksum
        obtain ⟨ev', hev', hchecksum⟩ := List.mem_map.mp hmem
        obtain ⟨as, bs, rfl⟩ := List.append_of_mem hev'
        have hchain := (chained_append sha256 _ _ _).mp hevs
        rw [← hchain.2.1, checksumOf_eq_iff] at hchecksum
        have hmem' : canonicalEventJSON ev' (lastSum (emptyChecksum sha256) as) ∈
            [] :: (chainTexts (emptyChecksum sha256) (as ++ ev' :: bs) ++
              chainTexts (lastSum (emptyChecksum sha256) (as ++ ev' :: bs)) [ev]) := by
          simp [chainTexts_append, chainTexts]
        have hprev := (canonicalEventJSON_eq_iff.mp (hsha _ hmem' _ hlast hchecksum)).1
        have hbefore := lastSum_mem (emptyChecksum sha256) as
        have hafter : lastSum (emptyChecksum sha256) (as ++ ev' :: bs) ∈
            (ev' :: bs).map AuditEvent.checksum := by
          rw [lastSum_append]
          exact lastSum_mem ev'.checksum bs
        rw [hprev] at hbefore
        rw [List.map_append, ← List.cons_append] at hnodup
        exact (List.disjoint_of_nodup_append hnodup) hbefore hafter
    rw [List.map_append, ← List.cons_append]
    exact hnodup.append (List.nodup_singleton _) (List.disjoint_singleton.mpr hnew)

/-- After different checksums all checksums differ. -/
theorem checksums_differ {evs evs' : List AuditEvent} {prevSum prevSum' : GoString}
    (h : Chained sha256 prevSum evs) (h' : Chained sha256 prevSum' evs')
    (hsha : CollisionFree sha256 (chainTexts prevSum evs ++ chainTexts prevSum' evs'))
    (hne : prevSum ≠ prevSum') : ∀ p ∈ evs.zip evs', p.1.checksum ≠ p.2.checksum := by
  induction evs generalizing evs' prevSum prevSum' with
  | nil => simp
  | cons ev evs ih =>
    cases evs' with
    | nil => simp
    | cons ev' evs' =>
      have hsum : ev.checksum ≠ ev'.checksum := by
        intro heq
        rw [← h.1, ← h'.1, checksumOf_eq_iff] at heq
        have htexts := hsha _ (by simp [chainTexts]) _ (by simp [chainTexts]) heq
        exact hne (canonicalEventJSON_eq_iff.mp htexts).1
      have hsub : chainTexts ev.checksum evs ++ chainTexts ev'.checksum evs' ⊆
          chainTexts prevSum (ev :: evs) ++ chainTexts prevSum' (ev' :: evs') := by
        intro t ht
        rcases List.mem_append.mp ht with ht | ht
        · simp [chainTexts, ht]
        · simp [chainTexts, ht]
      rw [List.zip_cons_cons, List.forall_mem_cons]
      exact ⟨hsum, ih h.2 h'.2 (hsha.mono hsub) hsum⟩

/-- An event of an accepted log is not accepted before the events it follows. -/
theorem not_chained_earlier {as mid bs cs : List AuditEvent} {ev : AuditEvent} (hmid : mid ≠ [])
    (h : Chained sha256 (emptyChecksum sha256) (as ++ (mid ++ ev :: bs)))
    (h' : Chained sha256 (emptyChecksum sha256) (as ++ ev :: cs))
    (hsha : CollisionFree sha256 ([] :: (chainTexts (emptyChecksum sha256) (as ++ (mid ++ ev :: bs)) ++
      chainTexts (emptyChecksum sha256) (as ++ ev :: cs)))) : False := by
  have hnodup := checksums_nodup sha256 h (hsha.mono (by simp))
  rw [chained_append, chained_append] at h
  rw [chained_append] at h'
  have hsum := h.2.2.1.trans h'.2.1.symm
  rw [checksumOf_eq_iff] at hsum
  have htexts := hsha _ (by simp [chainTexts_append, chainTexts]) _
    (by simp [chainTexts_append, chainTexts]) hsum
  have hprev := (canonicalEventJSON_eq_iff.mp htexts).1
  have hbefore := lastSum_mem (emptyChecksum sha256) as
  cases mid with
  | nil => exact hmid rfl
  | cons e mid =>
    have hafter : lastSum (lastSum (emptyChecksum sha256) as) (e :: mid) ∈
        (e :: mid ++ ev :: bs).map AuditEvent.checksum := by
      rw [List.map_append]
      exact List.mem_append_left _ (lastSum_mem e.checksum mid)
    rw [← hprev] at hbefore
    rw [List.map_append, ← List.cons_append] at hnodup
    exact (List.disjoint_of_nodup_append hnodup) hbefore hafter

/-! ### Files -/

/-- A line of a file: an object, and blanks behind it. -/
structure Line where
  text : GoString
  members : List (StringLit × Doc)
  rest : GoString
  parsed : parse text = some (.object members, rest)
  blank : ∀ b ∈ rest, Json.isSpace b = true

def Line.event (line : Line) : Option AuditEvent := decodeEvent (.object line.members)

def fileText (lines : List Line) : GoString := lines.flatMap fun line => line.text ++ [newline]

theorem verifyLines_fileText {lines : List Line} {prevSum : GoString} {turns : ℕ} (lineNo : ℕ)
    {blanks : GoString} (hblanks : ∀ b ∈ blanks, Json.isSpace b = true)
    (hturns : lines.length ≤ turns) :
    verifyLines sha256 turns prevSum lineNo (blanks ++ fileText lines) = .ok () ↔
      ∃ evs, lines.map Line.event = evs.map some ∧ Chained sha256 prevSum evs := by
  induction lines generalizing prevSum turns lineNo blanks with
  | nil =>
    have hempty : blanks ++ fileText [] = blanks := List.append_nil _
    rw [hempty]
    exact iff_of_true (verifyLines_blank sha256 turns prevSum lineNo hblanks) ⟨[], rfl, trivial⟩
  | cons line lines ih =>
    have htext : fileText (line :: lines) = line.text ++ ([newline] ++ fileText lines) := by
      simp [fileText]
    cases turns with
    | zero => cases hturns
    | succ turns =>
      have hrest : ∀ b ∈ line.rest ++ [newline], Json.isSpace b = true := by
        rw [List.forall_mem_append]
        exact ⟨line.blank, by simp [newline, Json.isSpace]⟩
      rw [htext, verifyLines_object sha256 (parse_blanks_append hblanks line.parsed _),
        ← List.append_assoc]
      constructor
      · rintro ⟨ev, hev, hsum, hok⟩
        obtain ⟨evs, hevs, hchained⟩ :=
          (ih (lineNo + 1) hrest (Nat.le_of_succ_le_succ hturns)).mp hok
        exact ⟨ev :: evs, congrArg₂ List.cons hev hevs, hsum, hchained⟩
      · rintro ⟨evs, hevs, hchained⟩
        cases evs with
        | nil => cases hevs
        | cons ev evs =>
          obtain ⟨hev, hevs⟩ := List.cons.inj hevs
          exact ⟨ev, hev, hchained.1, (ih (lineNo + 1) hrest
            (Nat.le_of_succ_le_succ hturns)).mpr ⟨evs, hevs, hchained.2⟩⟩

theorem verifyChain_fileText_iff (lines : List Line) :
    verifyChain sha256 (fileText lines) = .ok () ↔
      ∃ evs, lines.map Line.event = evs.map some ∧
        Chained sha256 (emptyChecksum sha256) evs := by
  have hlength : lines.length ≤ (fileText lines).length := by
    induction lines with
    | nil => exact Nat.zero_le _
    | cons line lines ih =>
      have htext : fileText (line :: lines) = line.text ++ [newline] ++ fileText lines := rfl
      rw [htext]
      simp only [List.length_cons, List.length_append, List.length_nil]
      omega
  have hblanks : ∀ b ∈ ([] : GoString), Json.isSpace b = true := by simp
  exact verifyLines_fileText sha256 0 hblanks hlength

/-- What is hashed to check a file's lines. -/
def logTexts (lines : List Line) : List GoString :=
  chainTexts (emptyChecksum sha256) (lines.filterMap Line.event)

/-- One line is replaced by one that says something else, where it or a later line keeps its
checksum; or a line that is not last is deleted; or two lines are swapped. -/
inductive Tampered : List Line → List Line → Prop where
  | replace {before after after' : List Line} {line line' : Line}
      (differs : ∀ ev ev', line.event = some ev → line'.event = some ev' → ¬ ev.Same ev')
      (length : after'.length = after.length)
      (kept : ∃ p ∈ (line :: after).zip (line' :: after'),
        p.1.event.map AuditEvent.checksum = p.2.event.map AuditEvent.checksum) :
      Tampered (before ++ line :: after) (before ++ line' :: after')
  | delete {before after : List Line} {line next : Line} :
      Tampered (before ++ line :: next :: after) (before ++ next :: after)
  | swap {before between after : List Line} {line line' : Line} :
      Tampered (before ++ line :: (between ++ line' :: after))
        (before ++ line' :: (between ++ line :: after))

theorem events_append {as bs : List Line} {evs : List AuditEvent}
    (h : (as ++ bs).map Line.event = evs.map some) :
    ∃ es fs, evs = es ++ fs ∧ as.map Line.event = es.map some ∧
      bs.map Line.event = fs.map some := by
  rw [List.map_append] at h
  obtain ⟨es, fs, hevs, hes, hfs⟩ := List.map_eq_append_iff.mp h.symm
  exact ⟨es, fs, hevs, hes.symm, hfs.symm⟩

theorem events_cons {line : Line} {lines : List Line} {evs : List AuditEvent}
    (h : (line :: lines).map Line.event = evs.map some) :
    ∃ ev es, evs = ev :: es ∧ line.event = some ev ∧ lines.map Line.event = es.map some := by
  cases evs with
  | nil => cases h
  | cons ev es => exact ⟨ev, es, rfl, (List.cons.inj h).1, (List.cons.inj h).2⟩

theorem events_unique {lines : List Line} {es fs : List AuditEvent}
    (h : lines.map Line.event = es.map some) (h' : lines.map Line.event = fs.map some) :
    es = fs :=
  List.map_injective_iff.mpr (Option.some_injective _) (h.symm.trans h')

theorem logTexts_eq {lines : List Line} {evs : List AuditEvent}
    (h : lines.map Line.event = evs.map some) :
    logTexts sha256 lines = chainTexts (emptyChecksum sha256) evs := by
  have hfilter : lines.filterMap Line.event = (lines.map Line.event).filterMap id := by
    rw [List.filterMap_map]
    rfl
  rw [logTexts, hfilter, h, List.filterMap_map]
  congr 1
  exact List.filterMap_some

/-- An accepted log is not accepted after it was tampered with. -/
theorem tampered_not_accepted {lines lines' : List Line} (htampered : Tampered lines lines')
    (hsha : CollisionFree sha256 ([] :: (logTexts sha256 lines ++ logTexts sha256 lines')))
    (haccepted : verifyChain sha256 (fileText lines) = .ok ()) :
    verifyChain sha256 (fileText lines') ≠ .ok () := by
  intro haccepted'
  obtain ⟨evs, hevs, hchained⟩ := (verifyChain_fileText_iff sha256 _).mp haccepted
  obtain ⟨evs', hevs', hchained'⟩ := (verifyChain_fileText_iff sha256 _).mp haccepted'
  rw [logTexts_eq sha256 hevs, logTexts_eq sha256 hevs'] at hsha
  cases htampered with
  | @replace before after after' line line' differs length kept =>
    obtain ⟨as, es, rfl, has, hes⟩ := events_append hevs
    obtain ⟨ev, bs, rfl, hev, hbs⟩ := events_cons hes
    obtain ⟨as', es', rfl, has', hes'⟩ := events_append hevs'
    obtain ⟨ev', bs', rfl, hev', hbs'⟩ := events_cons hes'
    cases events_unique has has'
    have hrest := ((chained_append sha256 _ _ _).mp hchained).2
    have hrest' := ((chained_append sha256 _ _ _).mp hchained').2
    have hsum : ev.checksum ≠ ev'.checksum := by
      intro heq
      rw [← hrest.1, ← hrest'.1, checksumOf_eq_iff] at heq
      have htexts := hsha _ (by simp [chainTexts_append, chainTexts]) _
        (by simp [chainTexts_append, chainTexts]) heq
      have hsame := (canonicalEventJSON_eq_iff.mp htexts).2
      exact differs ev ev' hev hev'
        ((sameCanonical_iff (decodeEvent_decoded hev) (decodeEvent_decoded hev')).mp hsame)
    have hsub : chainTexts ev.checksum bs ++ chainTexts ev'.checksum bs' ⊆
        [] :: (chainTexts (emptyChecksum sha256) (as ++ ev :: bs) ++
          chainTexts (emptyChecksum sha256) (as ++ ev' :: bs')) := by
      intro t ht
      rcases List.mem_append.mp ht with ht | ht
      · simp [chainTexts_append, chainTexts, ht]
      · simp [chainTexts_append, chainTexts, ht]
    have hlater := checksums_differ sha256 hrest.2 hrest'.2 (hsha.mono hsub) hsum
    obtain ⟨p, hp, hchecksum⟩ := kept
    rcases List.mem_cons.mp hp with rfl | hp
    · rw [hev, hev'] at hchecksum
      exact hsum (Option.some.inj hchecksum)
    · have hmem : (p.1.event, p.2.event) ∈ (bs.map some).zip (bs'.map some) := by
        rw [← hbs, ← hbs', List.zip_map]
        exact List.mem_map_of_mem hp
      rw [List.zip_map] at hmem
      obtain ⟨q, hq, heq⟩ := List.mem_map.mp hmem
      obtain ⟨hfirst, hsecond⟩ := Prod.mk.inj heq
      rw [← hfirst, ← hsecond] at hchecksum
      exact hlater q hq (Option.some.inj hchecksum)
  | @delete before after line next =>
    obtain ⟨as, es, rfl, has, hes⟩ := events_append hevs
    obtain ⟨ev, fs, rfl, hev, hfs⟩ := events_cons hes
    obtain ⟨ev₂, bs, rfl, hev₂, hbs⟩ := events_cons hfs
    obtain ⟨as', es', rfl, has', hes'⟩ := events_append hevs'
    obtain ⟨ev', bs', rfl, hev', hbs'⟩ := events_cons hes'
    cases events_unique has has'
    cases Option.some.inj (hev₂.symm.trans hev')
    exact not_chained_earlier sha256 (List.cons_ne_nil ev []) hchained hchained' hsha
  | @swap before between after line line' =>
    obtain ⟨as, es, rfl, has, hes⟩ := events_append hevs
    obtain ⟨ev, fs, rfl, hev, hfs⟩ := events_cons hes
    obtain ⟨mid, gs, rfl, hmid, hgs⟩ := events_append hfs
    obtain ⟨ev₂, bs, rfl, hev₂, hbs⟩ := events_cons hgs
    obtain ⟨as', es', rfl, has', hes'⟩ := events_append hevs'
    obtain ⟨ev', bs', rfl, hev', hbs'⟩ := events_cons hes'
    cases events_unique has has'
    cases Option.some.inj (hev₂.symm.trans hev')
    exact not_chained_earlier sha256 (List.cons_ne_nil ev mid) hchained hchained' hsha

/-- The hashed form tells the checksum before an event and the event, and an accepted log is not
accepted after it was tampered with. -/
theorem chain_tamper_evident :
    (∀ {d d' : Doc} {ev ev' : AuditEvent} {prevSum prevSum' : GoString},
      decodeEvent d = some ev → decodeEvent d' = some ev' →
        (canonicalEventJSON ev prevSum = canonicalEventJSON ev' prevSum' ↔
          prevSum = prevSum' ∧ ev.Same ev')) ∧
    ∀ {lines lines' : List Line}, Tampered lines lines' →
      CollisionFree sha256 ([] :: (logTexts sha256 lines ++ logTexts sha256 lines')) →
        verifyChain sha256 (fileText lines) = .ok () →
          verifyChain sha256 (fileText lines') ≠ .ok () := by
  refine ⟨?_, fun htampered hsha haccepted =>
    tampered_not_accepted sha256 htampered hsha haccepted⟩
  intro d d' ev ev' prevSum prevSum' hev hev'
  rw [canonicalEventJSON_eq_iff, sameCanonical_iff (decodeEvent_decoded hev)
    (decodeEvent_decoded hev')]

end Chain

/-- The line of the event without a detail, after a digest. -/
def sampleMembers (prev : Digest) : List (StringLit × Doc) :=
  ((prepare none sampleTime (sampleEvent none)).withChecksum sampleSHA256
    (hexString prev.1)).firstMembers sampleTime.text ++
  [((prepare none sampleTime (sampleEvent none)).withChecksum sampleSHA256
    (hexString prev.1)).stringMember .checksum]

def sampleLine (prev : Digest) : Line where
  text := render (.object (sampleMembers prev))
  members := sampleMembers prev
  rest := []
  parsed := by
    have hdepth : (Doc.object (sampleMembers prev)).depth = 1 := rfl
    rw [← List.append_nil (render _)]
    exact parse_render_append (by rw [hdepth]; decide) ends_nil
  blank := by simp

theorem chain_tamper_evident_sample :
    verifyChain sampleSHA256 (fileText [sampleLine firstDigest]) ≠ .ok () :=
  (chain_tamper_evident sampleSHA256).2
    (@Tampered.delete [] [] (sampleLine emptyDigest) (sampleLine firstDigest))
    (by unfold CollisionFree; decide +kernel) (by decide +kernel)

end Persatrix.Security
