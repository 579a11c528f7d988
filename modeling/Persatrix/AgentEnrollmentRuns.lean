import Persatrix.AgentEnrollment
import Persatrix.AgentTokenTable

/-!
# The registry and the tokens agree

While no call is on its way, the registry holds the agents whose latest enrollment has not been
ended, each with the row of that enrollment, and of each of them only the token of that enrollment
can be accepted. A call that fails leaves what the store would be without it.
-/
namespace Persatrix.Security
open Registry

/-- What a successful Enroll was given and returned. -/
structure Enrollment where
  info : AgentInfo
  source : GoString
  token : GoString
  claims : AgentTokenClaims

/-- The latest enrollment of the agent, unless the agent was deregistered after it. -/
def enrollment (id : GoString) (log : List EnrollmentNote) : Option Enrollment :=
  log.foldl (fun latest n =>
    match n with
    | .outcome (.enrolled info source result) =>
      if info.id = id then some ⟨info, source, result.token, result.claims⟩ else latest
    | .outcome (.deregistered other) => if other = id then none else latest
    | _ => latest) none

def deedsOf (log : List EnrollmentNote) : List Deed :=
  log.filterMap fun
    | .deed d => some d
    | _ => none

def readingsOf (log : List EnrollmentNote) : List ℤ :=
  log.filterMap fun
    | .reading r => some r
    | _ => none

section Notes
variable (id : GoString) (log : List EnrollmentNote)

theorem enrollment_enrolled (info : AgentInfo) (source : GoString) (result : AgentEnrolled) :
    enrollment id (log ++ [.outcome (.enrolled info source result)]) =
      if info.id = id then some ⟨info, source, result.token, result.claims⟩
      else enrollment id log := by
  rw [enrollment, List.foldl_concat]
  rfl

theorem enrollment_deregistered (other : GoString) :
    enrollment id (log ++ [.outcome (.deregistered other)]) =
      if other = id then none else enrollment id log := by
  rw [enrollment, List.foldl_concat]
  rfl

theorem enrollment_failed (err : String) :
    enrollment id (log ++ [.outcome (.failed err)]) = enrollment id log := by
  rw [enrollment, List.foldl_concat]
  rfl

theorem enrollment_reading (running : ℤ) :
    enrollment id (log ++ [.reading running]) = enrollment id log := by
  rw [enrollment, List.foldl_concat]
  rfl

theorem enrollment_deed (d : Deed) : enrollment id (log ++ [.deed d]) = enrollment id log := by
  rw [enrollment, List.foldl_concat]
  rfl

@[simp] theorem deedsOf_outcome (o : EnrollmentOutcome) :
    deedsOf (log ++ [.outcome o]) = deedsOf log := by simp [deedsOf]

@[simp] theorem deedsOf_reading (running : ℤ) :
    deedsOf (log ++ [.reading running]) = deedsOf log := by simp [deedsOf]

@[simp] theorem deedsOf_deed (d : Deed) : deedsOf (log ++ [.deed d]) = deedsOf log ++ [d] := by
  simp [deedsOf]

@[simp] theorem readingsOf_outcome (o : EnrollmentOutcome) :
    readingsOf (log ++ [.outcome o]) = readingsOf log := by simp [readingsOf]

@[simp] theorem readingsOf_reading (running : ℤ) :
    readingsOf (log ++ [.reading running]) = readingsOf log ++ [running] := by simp [readingsOf]

@[simp] theorem readingsOf_deed (d : Deed) :
    readingsOf (log ++ [.deed d]) = readingsOf log := by simp [readingsOf]

end Notes

theorem enrollment_id {id : GoString} {log : List EnrollmentNote} {en : Enrollment}
    (h : enrollment id log = some en) : en.info.id = id := by
  induction log using List.reverseRecOn with
  | nil => cases h
  | append_singleton log n ih =>
    cases n with
    | deed d =>
      rw [enrollment_deed] at h
      exact ih h
    | reading running =>
      rw [enrollment_reading] at h
      exact ih h
    | outcome o =>
      cases o with
      | enrolled info source result =>
        rw [enrollment_enrolled] at h
        split_ifs at h with hid
        · cases h
          exact hid
        · exact ih h
      | deregistered other =>
        rw [enrollment_deregistered] at h
        split_ifs at h
        exact ih h
      | failed err =>
        rw [enrollment_failed] at h
        exact ih h

/-- The registry and the sources are those of the latest enrollments. -/
structure Recorded (store : EnrollmentStore) (log : List EnrollmentNote) : Prop where
  rows : ∀ id, store.registry.lookup id = (enrollment id log).map (·.info)
  sources : ∀ id, store.sources.lookup id = (enrollment id log).map (·.source)

/-- The agent holds the token of its latest enrollment. -/
def TokenRecorded (log : List EnrollmentNote) (id : GoString) : Prop :=
  (heldBy id (deedsOf log)).map (fun g => (g.token, g.claims)) =
    (enrollment id log).map fun en => (en.token, en.claims)

/-- What a call has changed so far. -/
inductive Underway (store before : EnrollmentStore) (log : List EnrollmentNote) :
    EnrollmentCall → EnrollmentStage → Prop where
  | entered (call : EnrollmentCall) (hstore : store = before)
      (htokens : ∀ id, TokenRecorded log id) : Underway store before log call .entered
  | read (info : AgentInfo) (source : GoString) (hstore : store = before)
      (htokens : ∀ id, TokenRecorded log id) :
      Underway store before log (.enroll info source) (.read (before.registry.lookup info.id))
  | registered (info : AgentInfo) (source : GoString)
      (hstore : store = { before with registry := before.registry.register info })
      (htokens : ∀ id, TokenRecorded log id) :
      Underway store before log (.enroll info source)
        (.registered (before.registry.lookup info.id))
  | refused (info : AgentInfo) (source : GoString) (err : String)
      (hstore : store = { before with registry := before.registry.register info })
      (htokens : ∀ id, TokenRecorded log id) :
      Underway store before log (.enroll info source)
        (.refused (before.registry.lookup info.id) err)
  | issued (info : AgentInfo) (source : GoString) (g : Grant)
      (hregistry : store.registry = before.registry.register info)
      (hsources : store.sources = before.sources)
      (hheld : heldBy info.id (deedsOf log) = some g)
      (htokens : ∀ id, id ≠ info.id → TokenRecorded log id) :
      Underway store before log (.enroll info source)
        (.issued (before.registry.lookup info.id) g.token g.claims)
  | unregistered (id : GoString)
      (hstore : store = { before with registry := before.registry.erase id })
      (htokens : ∀ id, TokenRecorded log id) :
      Underway store before log (.deregister id) .unregistered
  | revoked (id : GoString) (hregistry : store.registry = before.registry.erase id)
      (hsources : store.sources = before.sources)
      (hheld : heldBy id (deedsOf log) = none)
      (htokens : ∀ other, other ≠ id → TokenRecorded log other) :
      Underway store before log (.deregister id) .revoked

/-- Each enrollment reports the row and the source of the one it replaced. -/
def Reported (log : List EnrollmentNote) : Prop :=
  ∀ earlier info source result later,
    log = earlier ++ .outcome (.enrolled info source result) :: later →
      result.previous = (enrollment info.id earlier).map (·.info) ∧
      result.previousSource = ((enrollment info.id earlier).map (·.source)).getD []

/-- The stores cannot be told apart by their readers. -/
structure EnrollmentStore.Alike (store store' : EnrollmentStore) : Prop where
  rows : ∀ id, store.registry.lookup id = store'.registry.lookup id
  sources : store.sources = store'.sources
  issuer : store.issuer = store'.issuer

structure Consistent (mac : Mac) (s : EnrollmentState) (log : List EnrollmentNote) : Prop where
  tabled : Tabled mac s.store.issuer (deedsOf log) (readingsOf log)
  idle : s.current = none → Recorded s.store log ∧ ∀ id, TokenRecorded log id
  underway : ∀ c, s.current = some c →
    Recorded c.before log ∧ Underway s.store c.before log c.call c.stage
  reported : Reported log

/-- A serial number is left for an issue. -/
def SerialFits (s : EnrollmentState) : EnrollmentEvent → Prop
  | .act (.issue _ _) => s.store.issuer.serial + 1 < 2 ^ 64
  | _ => True

/-- What is noted besides an enrollment does not change what was reported. -/
theorem Reported.concat {log : List EnrollmentNote} {n : EnrollmentNote} (h : Reported log)
    (hn : ∀ info source result, n = .outcome (.enrolled info source result) →
      result.previous = (enrollment info.id log).map (·.info) ∧
      result.previousSource = ((enrollment info.id log).map (·.source)).getD []) :
    Reported (log ++ [n]) := by
  intro earlier info source result later heq
  rcases List.eq_nil_or_concat later with rfl | ⟨later, last, rfl⟩
  · obtain ⟨hlog, hlast⟩ := List.append_inj' heq rfl
    rw [← hlog]
    exact hn info source result (List.singleton_inj.mp hlast)
  · rw [List.concat_eq_append, ← List.cons_append, ← List.append_assoc] at heq
    obtain ⟨hlog, -⟩ := List.append_inj' heq rfl
    exact h earlier info source result later hlog

theorem TokenRecorded.congr {log log' : List EnrollmentNote} {id : GoString}
    (h : TokenRecorded log id) (hdeeds : heldBy id (deedsOf log') = heldBy id (deedsOf log))
    (henrollment : enrollment id log' = enrollment id log) : TokenRecorded log' id := by
  unfold TokenRecorded at h ⊢
  rw [hdeeds, henrollment, h]

theorem Recorded.congr {store store' : EnrollmentStore} {log log' : List EnrollmentNote}
    (h : Recorded store log) (hrows : ∀ id, store'.registry.lookup id = store.registry.lookup id)
    (hsources : store'.sources = store.sources)
    (henrollment : ∀ id, enrollment id log' = enrollment id log) : Recorded store' log' where
  rows id := by rw [hrows, henrollment, h.rows]
  sources id := by rw [hsources, henrollment, h.sources]

namespace Consistent
variable {mac : Mac} {s : EnrollmentState} {log : List EnrollmentNote}

theorem init (mac : Mac) : Consistent mac (enrollmentSystem mac).init [] where
  tabled := Tabled.init mac
  idle _ := by
    refine ⟨⟨fun id => ?_, fun id => ?_⟩, fun id => rfl⟩
    · exact GoMap.lookup_empty id
    · exact GoMap.lookup_empty id
  underway c h := by cases h
  reported := by
    intro earlier info source result later h
    cases earlier <;> cases h

theorem enter (h : Consistent mac s log) (hidle : s.current = none) (call : EnrollmentCall) :
    Consistent mac { s with current := some ⟨call, .entered, s.store⟩ } (log ++ []) := by
  obtain ⟨hrecorded, htokens⟩ := h.idle hidle
  rw [List.append_nil]
  refine ⟨h.tabled, nofun, fun c hc => ?_, h.reported⟩
  cases hc
  exact ⟨hrecorded, .entered call rfl htokens⟩

/-- A call that goes on without a note. -/
theorem advance {store : EnrollmentStore} {c : CallInProgress} {stage : EnrollmentStage}
    (htabled : Tabled mac store.issuer (deedsOf log) (readingsOf log))
    (hrecorded : Recorded c.before log) (hreported : Reported log)
    (hunderway : Underway store c.before log c.call stage) :
    Consistent mac ⟨store, some { c with stage := stage }⟩ (log ++ []) := by
  rw [List.append_nil]
  refine ⟨htabled, nofun, fun c' hc => ?_, hreported⟩
  cases hc
  exact ⟨hrecorded, hunderway⟩

/-- A call that fails on a store like the one before it. -/
theorem fail {store before : EnrollmentStore}
    (htabled : Tabled mac store.issuer (deedsOf log) (readingsOf log))
    (hrecorded : Recorded before log) (hreported : Reported log) (halike : store.Alike before)
    (htokens : ∀ id, TokenRecorded log id) (err : String) :
    Consistent mac ⟨store, none⟩ (log ++ [.outcome (.failed err)]) := by
  refine ⟨?_, fun _ => ⟨?_, fun id => ?_⟩, fun c hc => (by cases hc),
    hreported.concat fun _ _ _ heq => (by cases heq)⟩
  · rw [deedsOf_outcome, readingsOf_outcome]
    exact htabled
  · exact hrecorded.congr halike.rows halike.sources fun id => enrollment_failed id log err
  · exact (htokens id).congr (by rw [deedsOf_outcome]) (enrollment_failed id log err)

theorem sweep (h : Consistent mac s log) (running : ℤ) :
    Consistent mac
      { store := s.store.sweep running
        current := s.current.map fun c => { c with before := c.before.sweep running } }
      (log ++ [.reading running]) := by
  have hdeeds := deedsOf_reading log running
  have htoken : ∀ id, TokenRecorded log id → TokenRecorded (log ++ [.reading running]) id :=
    fun id hid => hid.congr (by rw [hdeeds]) (enrollment_reading id log running)
  constructor
  · rw [hdeeds, readingsOf_reading]
    exact h.tabled.sweep running
  · intro hnone
    obtain ⟨hrecorded, htokens⟩ := h.idle (Option.map_eq_none_iff.mp hnone)
    exact ⟨hrecorded.congr (fun _ => rfl) rfl fun id => enrollment_reading id log running,
      fun id => htoken id (htokens id)⟩
  · intro c hc
    obtain ⟨old, hold, rfl⟩ := Option.map_eq_some_iff.mp hc
    obtain ⟨hrecorded, hunderway⟩ := h.underway old hold
    refine ⟨hrecorded.congr (fun _ => rfl) rfl fun id => enrollment_reading id log running, ?_⟩
    obtain ⟨call, stage, before⟩ := old
    dsimp only at hunderway ⊢
    cases hunderway with
    | entered _ hstore htokens => exact .entered _ (by rw [hstore]) fun id => htoken id (htokens id)
    | read info source hstore htokens =>
      exact .read info source (by rw [hstore]) fun id => htoken id (htokens id)
    | registered info source hstore htokens =>
      exact .registered info source (by rw [hstore]; rfl) fun id => htoken id (htokens id)
    | refused info source err hstore htokens =>
      exact .refused info source err (by rw [hstore]; rfl) fun id => htoken id (htokens id)
    | issued info source g hregistry hsources hheld htokens =>
      exact .issued info source g hregistry hsources (by rw [hdeeds, hheld])
        fun id hid => htoken id (htokens id hid)
    | unregistered id hstore htokens =>
      exact .unregistered id (by rw [hstore]; rfl) fun id => htoken id (htokens id)
    | revoked id hregistry hsources hheld htokens =>
      exact .revoked id hregistry hsources (by rw [hdeeds, hheld])
        fun other hother => htoken other (htokens other hother)
  · exact h.reported.concat fun _ _ _ heq => (by cases heq)

/-- Undoing a registration puts the rows back. -/
theorem undo_alike {before : EnrollmentStore} (hrecorded : Recorded before log) (info : AgentInfo) :
    (EnrollmentStore.undo { before with registry := before.registry.register info } info.id
      (before.registry.lookup info.id)).Alike before := by
  cases hprevious : before.registry.lookup info.id with
  | none =>
    refine ⟨fun id => ?_, rfl, rfl⟩
    unfold EnrollmentStore.undo InMemoryRegistry.register
    dsimp only
    rw [GoMap.lookup_erase, GoMap.lookup_insert]
    split_ifs with hid
    · rw [hid, hprevious]
    · rfl
  | some row =>
    have hrow := hrecorded.rows info.id
    rw [hprevious] at hrow
    obtain ⟨en, hen, rfl⟩ := Option.map_eq_some_iff.mp hrow.symm
    have hid := enrollment_id hen
    refine ⟨fun id => ?_, rfl, rfl⟩
    unfold EnrollmentStore.undo InMemoryRegistry.register
    dsimp only
    rw [GoMap.lookup_insert, GoMap.lookup_insert, hid]
    split_ifs with hsame
    · rw [hsame, hprevious]
    · rfl

/-- The enrollment is returned. -/
theorem remember {store before : EnrollmentStore} {info : AgentInfo} {source : GoString} {g : Grant}
    (htabled : Tabled mac store.issuer (deedsOf log) (readingsOf log))
    (hrecorded : Recorded before log) (hreported : Reported log)
    (hregistry : store.registry = before.registry.register info)
    (hsources : store.sources = before.sources) (hheld : heldBy info.id (deedsOf log) = some g)
    (htokens : ∀ id, id ≠ info.id → TokenRecorded log id) (call : EnrollmentCall)
    (stage : EnrollmentStage) :
    let p := store.remember info source (before.registry.lookup info.id) g.token g.claims
    Consistent mac (p.state ⟨call, stage, before⟩) (log ++ p.noted) := by
  intro p
  have hnoted : ∃ result, p.noted = [.outcome (.enrolled info source result)] ∧
      result.token = g.token ∧ result.claims = g.claims ∧
      result.previous = before.registry.lookup info.id ∧
      result.previousSource = if (before.registry.lookup info.id).isSome then
        (store.sources.lookup info.id).getD [] else [] := ⟨_, rfl, rfl, rfl, rfl, rfl⟩
  obtain ⟨result, hnoted, htoken, hclaims, hprevious, hsource⟩ := hnoted
  rw [hnoted]
  refine ⟨?_, fun _ => ⟨⟨fun id => ?_, fun id => ?_⟩, fun id => ?_⟩, fun c hc => (by cases hc), ?_⟩
  · rw [deedsOf_outcome, readingsOf_outcome]
    exact htabled
  · have hrows : (p.state ⟨call, stage, before⟩).store.registry = store.registry := rfl
    rw [hrows, hregistry, enrollment_enrolled, InMemoryRegistry.register, GoMap.lookup_insert]
    by_cases hid : id = info.id
    · rw [if_pos hid, if_pos hid.symm, Option.map_some]
    · rw [if_neg hid, if_neg (Ne.symm hid), hrecorded.rows]
  · have hsources' : (p.state ⟨call, stage, before⟩).store.sources =
        AList.insert info.id source store.sources := rfl
    rw [hsources', hsources, enrollment_enrolled, GoMap.lookup_insert]
    by_cases hid : id = info.id
    · rw [if_pos hid, if_pos hid.symm, Option.map_some]
    · rw [if_neg hid, if_neg (Ne.symm hid), hrecorded.sources]
  · by_cases hid : id = info.id
    · unfold TokenRecorded
      rw [deedsOf_outcome, hid, hheld, enrollment_enrolled, if_pos rfl, Option.map_some,
        Option.map_some, htoken, hclaims]
    · refine (htokens id hid).congr (by rw [deedsOf_outcome]) ?_
      rw [enrollment_enrolled, if_neg (Ne.symm hid)]
  · refine hreported.concat fun info' source' result' heq => ?_
    cases heq
    rw [hprevious, hsource, hsources, hrecorded.rows, hrecorded.sources]
    refine ⟨rfl, ?_⟩
    cases enrollment info.id log <;> rfl

/-- A token is issued: the call has only to remember the source. -/
theorem grant {store before : EnrollmentStore} {info : AgentInfo} {source : GoString} {g : Grant}
    {running : ℤ} {call : EnrollmentCall} {stage : EnrollmentStage}
    (htabled : Tabled mac store.issuer (deedsOf log ++ [.issued info.id g])
      (readingsOf log ++ [running]))
    (hrecorded : Recorded before log) (hreported : Reported log)
    (hregistry : store.registry = before.registry.register info)
    (hsources : store.sources = before.sources) (htokens : ∀ id, TokenRecorded log id)
    (hcall : call = .enroll info source)
    (hstage : stage = .issued (before.registry.lookup info.id) g.token g.claims) :
    Consistent mac ⟨store, some ⟨call, stage, before⟩⟩
      (log ++ [.reading running, .deed (.issued info.id g)]) := by
  have hlog : log ++ [.reading running, .deed (.issued info.id g)] =
      log ++ [.reading running] ++ [.deed (.issued info.id g)] := by simp
  have hsame : ∀ id, enrollment id
      (log ++ [.reading running] ++ [.deed (.issued info.id g)]) = enrollment id log := by
    intro id
    rw [enrollment_deed, enrollment_reading]
  rw [hlog]
  refine ⟨?_, nofun, fun c hc => ?_, ?_⟩
  · rw [deedsOf_deed, deedsOf_reading, readingsOf_deed, readingsOf_reading]
    exact htabled
  · cases hc
    rw [hcall, hstage]
    refine ⟨hrecorded.congr (fun _ => rfl) rfl hsame,
      .issued info source g hregistry hsources ?_ fun id hid => ?_⟩
    · rw [deedsOf_deed, heldBy_issued, if_pos rfl]
    · refine (htokens id).congr ?_ (hsame id)
      rw [deedsOf_deed, deedsOf_reading, heldBy_issued, if_neg (Ne.symm hid)]
  · exact (hreported.concat fun _ _ _ heq => (by cases heq)).concat
      fun _ _ _ heq => (by cases heq)

/-- The tokens of an agent that is no longer registered are revoked. -/
theorem revoke {store before : EnrollmentStore} {id : GoString}
    (htabled : Tabled mac store.issuer (deedsOf log ++ [.revoked id]) (readingsOf log))
    (hrecorded : Recorded before log) (hreported : Reported log)
    (hregistry : store.registry = before.registry.erase id)
    (hsources : store.sources = before.sources) (htokens : ∀ id, TokenRecorded log id) :
    Consistent mac ⟨store, some ⟨.deregister id, .revoked, before⟩⟩
      (log ++ [.deed (.revoked id)]) := by
  refine ⟨?_, nofun, fun c hc => ?_, hreported.concat fun _ _ _ heq => (by cases heq)⟩
  · rw [deedsOf_deed, readingsOf_deed]
    exact htabled
  · cases hc
    refine ⟨hrecorded.congr (fun _ => rfl) rfl fun other => enrollment_deed other log _,
      .revoked id hregistry hsources ?_ fun other hother => ?_⟩
    · rw [deedsOf_deed, heldBy_revoked, if_pos rfl]
    · refine (htokens other).congr ?_ (enrollment_deed other log _)
      rw [deedsOf_deed, heldBy_revoked, if_neg (Ne.symm hother)]

/-- The deregistration returns. -/
theorem forget {store before : EnrollmentStore} {id : GoString}
    (htabled : Tabled mac store.issuer (deedsOf log) (readingsOf log))
    (hrecorded : Recorded before log) (hreported : Reported log)
    (hregistry : store.registry = before.registry.erase id)
    (hsources : store.sources = before.sources.erase id) (hheld : heldBy id (deedsOf log) = none)
    (htokens : ∀ other, other ≠ id → TokenRecorded log other) :
    Consistent mac ⟨store, none⟩ (log ++ [.outcome (.deregistered id)]) := by
  refine ⟨?_, fun _ => ⟨⟨fun other => ?_, fun other => ?_⟩, fun other => ?_⟩,
    fun c hc => (by cases hc), hreported.concat fun _ _ _ heq => (by cases heq)⟩
  · rw [deedsOf_outcome, readingsOf_outcome]
    exact htabled
  · rw [hregistry, enrollment_deregistered, GoMap.lookup_erase]
    by_cases hother : other = id
    · rw [if_pos hother, if_pos hother.symm, Option.map_none]
    · rw [if_neg hother, if_neg (Ne.symm hother), hrecorded.rows]
  · rw [hsources, enrollment_deregistered, GoMap.lookup_erase]
    by_cases hother : other = id
    · rw [if_pos hother, if_pos hother.symm, Option.map_none]
    · rw [if_neg hother, if_neg (Ne.symm hother), hrecorded.sources]
  · by_cases hother : other = id
    · unfold TokenRecorded
      rw [deedsOf_outcome, hother, hheld, enrollment_deregistered, if_pos rfl, Option.map_none,
        Option.map_none]
    · refine (htokens other hother).congr (by rw [deedsOf_outcome]) ?_
      rw [enrollment_deregistered, if_neg (Ne.symm hother)]

/-- One action of a call. -/
theorem act {c : CallInProgress} {p : Performed} (h : Consistent mac s log)
    (hcurrent : s.current = some c) (hacts : Acts mac s.store c.call c.stage p)
    (hserial : ∀ previous, c.stage = .registered previous → s.store.issuer.serial + 1 < 2 ^ 64) :
    Consistent mac (p.state c) (log ++ p.noted) := by
  obtain ⟨hrecorded, hunderway⟩ := h.underway c hcurrent
  obtain ⟨call, stage, before⟩ := c
  dsimp only at hrecorded hunderway hacts hserial
  cases hacts with
  | failed _ _ err hstage =>
    have halike : s.store.Alike before ∧ ∀ id, TokenRecorded log id := by
      rcases hstage with rfl | ⟨previous, rfl⟩
      · cases hunderway with
        | entered _ hstore htokens => exact ⟨⟨fun id => by rw [hstore], by rw [hstore], by rw [hstore]⟩, htokens⟩
      · cases hunderway with
        | read info source hstore htokens =>
          exact ⟨⟨fun id => by rw [hstore], by rw [hstore], by rw [hstore]⟩, htokens⟩
    exact fail h.tabled hrecorded h.reported halike.1 halike.2 err
  | read info source =>
    cases hunderway with
    | entered _ hstore htokens =>
      refine advance h.tabled hrecorded h.reported ?_
      rw [hstore]
      exact .read info source rfl htokens
  | registered info source previous =>
    cases hunderway with
    | read _ _ hstore htokens =>
      refine advance (c := ⟨_, _, _⟩) h.tabled hrecorded h.reported ?_
      rw [hstore]
      exact .registered info source rfl htokens
  | refused info source previous err =>
    cases hunderway with
    | registered _ _ hstore htokens =>
      exact advance h.tabled hrecorded h.reported (.refused info source err hstore htokens)
  | issued info source previous now issuer token claims hissue =>
    have htabled := h.tabled.issue now.wallFits (hserial _ rfl) hissue
    cases hunderway with
    | registered _ _ hstore htokens =>
      have hregistry : s.store.registry = before.registry.register info := by rw [hstore]
      have hsources : s.store.sources = before.sources := by rw [hstore]
      exact @grant mac log { s.store with issuer := issuer } before info source _ now.running _ _
        htabled hrecorded h.reported hregistry hsources htokens rfl rfl
  | undone info source previous err =>
    cases hunderway with
    | refused _ _ _ hstore htokens =>
      have halike := undo_alike hrecorded info
      rw [← hstore] at halike
      have htabled : Tabled mac (s.store.undo info.id (before.registry.lookup info.id)).issuer
          (deedsOf log) (readingsOf log) := by
        rw [halike.issuer]
        have hissuer : s.store.issuer = before.issuer := by rw [hstore]
        rw [← hissuer]
        exact h.tabled
      exact fail htabled hrecorded h.reported halike htokens err
  | remembered info source previous token claims =>
    cases hunderway with
    | issued _ _ g hregistry hsources hheld htokens =>
      exact remember h.tabled hrecorded h.reported hregistry hsources hheld htokens _ _
  | unregistered id row hrow =>
    cases hunderway with
    | entered _ hstore htokens =>
      refine advance h.tabled hrecorded h.reported ?_
      rw [hstore]
      exact .unregistered id rfl htokens
  | revoked id =>
    cases hunderway with
    | unregistered _ hstore htokens =>
      have hregistry : s.store.registry = before.registry.erase id := by rw [hstore]
      have hsources : s.store.sources = before.sources := by rw [hstore]
      exact @revoke mac log { s.store with issuer := s.store.issuer.revoke id } before id
        (h.tabled.revoke id) hrecorded h.reported hregistry hsources htokens
  | forgotten id =>
    cases hunderway with
    | revoked _ hregistry hsources hheld htokens =>
      have hlater : (s.store.sources.erase id) = before.sources.erase id := by rw [hsources]
      exact @forget mac log { s.store with sources := s.store.sources.erase id } before id
        h.tabled hrecorded h.reported hregistry hlater hheld htokens

end Consistent

theorem action_of_registered {mac : Mac} {store : EnrollmentStore} {call : EnrollmentCall}
    {previous : Option AgentInfo} {action : EnrollmentAction} {p : Performed}
    (h : store.perform mac call (.registered previous) action = some p) :
    ∃ failure now, action = .issue failure now := by
  cases call with
  | deregister id => cases action <;> cases h
  | enroll info source =>
    cases action with
    | issue failure now => exact ⟨failure, now, rfl⟩
    | _ => cases h

theorem consistent_of_reaches {mac : Mac} {p : EnrollmentState × List EnrollmentNote}
    (h : ((enrollmentSystem mac).logged (enrollmentNotes mac)).Reaches
      (fun q e => SerialFits q.1 e) p) : Consistent mac p.1 p.2 := by
  induction h with
  | init => exact Consistent.init mac
  | @step q r e _ hfits hstep ih =>
    obtain ⟨hnext, hlog⟩ := System.logged_step hstep
    rw [hlog]
    unfold enrollmentSystem at hnext
    cases e with
    | enter call =>
      dsimp only at hnext
      cases hcurrent : q.1.current with
      | some c =>
        rw [hcurrent] at hnext
        cases hnext
      | none =>
        rw [hcurrent] at hnext
        rw [← Option.some.inj hnext]
        exact ih.enter hcurrent call
    | act action =>
      unfold enrollmentNotes
      dsimp only at hnext ⊢
      cases hcurrent : q.1.current with
      | none =>
        rw [hcurrent] at hnext
        cases hnext
      | some c =>
        rw [hcurrent] at hnext
        obtain ⟨p, hp, hr⟩ := Option.map_eq_some_iff.mp hnext
        rw [← hr]
        dsimp only
        rw [hp, Option.map_some, Option.getD_some]
        refine ih.act hcurrent (EnrollmentStore.acts_of_perform hp) fun previous hstage => ?_
        rw [hstage] at hp
        obtain ⟨failure, now, rfl⟩ := action_of_registered hp
        exact hfits
    | check token now =>
      rw [← Option.some.inj hnext]
      unfold enrollmentNotes
      rw [List.append_nil]
      exact ih
    | sweep running =>
      rw [← Option.some.inj hnext]
      exact ih.sweep running

/-- What a call that fails leaves is like the store without the call. -/
theorem Consistent.failed_alike {mac : Mac} {s : EnrollmentState} {log : List EnrollmentNote}
    {c : CallInProgress} {p : Performed} {err : String} (h : Consistent mac s log)
    (hcurrent : s.current = some c) (hacts : Acts mac s.store c.call c.stage p)
    (hfailed : p.next = .inr (.failed err)) : p.store.Alike c.before := by
  obtain ⟨hrecorded, hunderway⟩ := h.underway c hcurrent
  obtain ⟨call, stage, before⟩ := c
  dsimp only at hrecorded hunderway hacts ⊢
  cases hacts with
  | failed _ _ err hstage =>
    have hstore : s.store = before := by
      rcases hstage with rfl | ⟨previous, rfl⟩
      · cases hunderway with
        | entered _ hstore htokens => exact hstore
      · cases hunderway with
        | read info source hstore htokens => exact hstore
    dsimp only
    rw [hstore]
    exact ⟨fun _ => rfl, rfl, rfl⟩
  | undone info source previous err =>
    cases hunderway with
    | refused _ _ _ hstore htokens =>
      dsimp only
      rw [hstore]
      exact undo_alike hrecorded info
  | _ => cases hfailed

/-- The registry and the tokens agree with the enrollments. -/
structure Agreed (mac : Mac) (store : EnrollmentStore) (log : List EnrollmentNote) : Prop where
  rows : ∀ id, store.registry.lookup id = (enrollment id log).map (·.info)
  sources : ∀ id, store.sources.lookup id = (enrollment id log).map (·.source)
  only : ∀ token, Unforged mac (deedsOf log) token → ∀ wall running claims,
    store.issuer.check mac token wall running = .ok claims →
      ∃ en, enrollment claims.agentID log = some en ∧ en.token = token ∧ en.claims = claims
  lives : ∀ id en, enrollment id log = some en → ∃ p : AgentTokenPayload,
    en.token = sign mac p ∧ en.claims = p.claims ∧
    ∀ wall running, (∀ r ∈ readingsOf log, r ≤ running) →
      (store.issuer.check mac en.token wall running = .ok en.claims ↔
        wall < p.expires ∧ running < p.runningExpires)

theorem Consistent.agreed {mac : Mac} {s : EnrollmentState} {log : List EnrollmentNote}
    (h : Consistent mac s log) (hidle : s.current = none) : Agreed mac s.store log := by
  obtain ⟨hrecorded, htokens⟩ := h.idle hidle
  have hheld : ∀ id en, enrollment id log = some en → ∃ g, heldBy id (deedsOf log) = some g ∧
      g.token = en.token ∧ g.claims = en.claims := by
    intro id en hen
    have htoken := htokens id
    unfold TokenRecorded at htoken
    rw [hen, Option.map_some] at htoken
    obtain ⟨g, hg, hpair⟩ := Option.map_eq_some_iff.mp htoken
    exact ⟨g, hg, (Prod.mk.inj hpair).1, (Prod.mk.inj hpair).2⟩
  refine ⟨hrecorded.rows, hrecorded.sources, ?_, ?_⟩
  · intro token hunforged wall running claims hok
    obtain ⟨g, hg, htoken, hclaims⟩ := h.tabled.check_ok hunforged hok
    have hrecord := htokens claims.agentID
    unfold TokenRecorded at hrecord
    rw [hg, Option.map_some] at hrecord
    obtain ⟨en, hen, hpair⟩ := Option.map_eq_some_iff.mp hrecord.symm
    obtain ⟨htoken', hclaims'⟩ := Prod.mk.inj hpair
    exact ⟨en, hen, htoken'.trans htoken, hclaims'.trans hclaims⟩
  · intro id en hen
    obtain ⟨g, hg, htoken, hclaims⟩ := hheld id en hen
    have hsigned := h.tabled.signed id g (h.tabled.issued id g hg)
    refine ⟨g.payload, htoken ▸ hsigned.token, hclaims ▸ hsigned.claims, ?_⟩
    intro wall running hclock
    rw [← htoken, ← hclaims]
    exact h.tabled.check_held_iff hg hclock

/-- In every run with a serial number left for each issue: while no call is on its way the registry
and the tokens agree, what an enrollment reports is the enrollment it replaced, and a call that
fails leaves what the store would be without it. -/
theorem enrollment_agrees {mac : Mac} {s : EnrollmentState} {log : List EnrollmentNote}
    (h : ((enrollmentSystem mac).logged (enrollmentNotes mac)).Reaches
      (fun q e => SerialFits q.1 e) (s, log)) :
    (s.current = none → Agreed mac s.store log) ∧ Reported log ∧
    ∀ c action p err, s.current = some c → s.store.perform mac c.call c.stage action = some p →
      p.next = .inr (.failed err) → p.store.Alike c.before := by
  have hconsistent := consistent_of_reaches h
  refine ⟨hconsistent.agreed, hconsistent.reported, ?_⟩
  intro c action p err hcurrent hperform hfailed
  exact hconsistent.failed_alike hcurrent (EnrollmentStore.acts_of_perform hperform) hfailed

/-- An agent that can have a token is issued one. -/
theorem issue_issuable (mac : Mac) (t : AgentTokenIssuer) {id : GoString}
    (h : issuableAgentID id = true) (wall running : ℤ) :
    ∃ issuer, t.issue mac id wall running =
        (issuer, .ok (sign mac (t.nextPayload id wall running),
          (t.nextPayload id wall running).claims)) ∧
      issuer.serial = (t.serial + 1) % 2 ^ 64 ∧
      issuer.agents.lookup id = some ⟨uint64 (((t.serial + 1) % 2 ^ 64 : ℕ) - 1),
        int64 (running + agentTokenTTL)⟩ := by
  unfold AgentTokenIssuer.issue
  rw [h]
  refine ⟨_, rfl, ?_, ?_⟩
  · dsimp only
    split_ifs <;> rfl
  · rw [GoMap.lookup_insert, if_pos rfl]
    rfl

theorem logged_act {mac : Mac} {store : EnrollmentStore} {c : CallInProgress} {p : Performed}
    {action : EnrollmentAction} (log : List EnrollmentNote)
    (h : store.perform mac c.call c.stage action = some p) :
    ((enrollmentSystem mac).logged (enrollmentNotes mac)).step (⟨store, some c⟩, log) (.act action) =
      some (p.state c, log ++ p.noted) := by
  unfold System.logged enrollmentSystem enrollmentNotes
  dsimp only
  rw [h]
  rfl

/-- An enrollment without a failure. -/
theorem enroll_runs {mac : Mac} {C : EnrollmentState × List EnrollmentNote → EnrollmentEvent → Prop}
    {store : EnrollmentStore} {log : List EnrollmentNote} {info : AgentInfo} {source token : GoString}
    {now : ClockReading} {issuer : AgentTokenIssuer} {claims : AgentTokenClaims}
    (hissue : store.issuer.issue mac info.id now.wall now.running = (issuer, .ok (token, claims)))
    (hC : ∀ q e, q.1.store.issuer.serial = store.issuer.serial ∨
      (∀ failure now, e ≠ .act (.issue failure now)) → C q e)
    (h : ((enrollmentSystem mac).logged (enrollmentNotes mac)).Reaches C (⟨store, none⟩, log)) :
    ∃ log' en g, ((enrollmentSystem mac).logged (enrollmentNotes mac)).Reaches C
        (⟨⟨store.registry.register info, issuer, AList.insert info.id source store.sources⟩, none⟩,
          log') ∧
      enrollment info.id log' = some en ∧ en.token = token ∧
      deedsOf log' = deedsOf log ++ [.issued info.id g] ∧ g.token = token := by
  have henter := h.step (e := .enter (.enroll info source)) (hC _ _ (.inl rfl)) rfl
  let previous := store.registry.lookup info.id
  have hread : store.perform mac (.enroll info source) .entered (.get none) =
      some { store := store, next := .inl (.read previous) } := rfl
  have hget := henter.step (e := .act (.get none)) (hC _ _ (.inl rfl)) (logged_act _ hread)
  have hrow : store.perform mac (.enroll info source) (.read previous) (.register none) =
      some { store := { store with registry := store.registry.register info }
             next := .inl (.registered previous) } := rfl
  have hregister := hget.step (e := .act (.register none)) (hC _ _ (.inl rfl)) (logged_act _ hrow)
  let registered : EnrollmentStore := { store with registry := store.registry.register info }
  let g : Grant := ⟨store.issuer.nextPayload info.id now.wall now.running, token, claims,
    now.wall, now.running⟩
  have hperform : registered.perform mac (.enroll info source) (.registered previous)
      (.issue none now) = some
        { store := { registered with issuer := issuer }
          next := .inl (.issued previous token claims)
          notes := [.reading now.running, .deed (.issued info.id g)] } := by
    unfold EnrollmentStore.perform EnrollmentStore.enroll EnrollmentStore.issue
    dsimp only
    rw [hissue]
  have hissued := hregister.step (hC _ _ (.inl rfl)) (logged_act _ hperform)
  let previousSource :=
    if previous.isSome then (store.sources.lookup info.id).getD [] else []
  have hlast : ({ registered with issuer := issuer } : EnrollmentStore).perform mac
      (.enroll info source) (.issued previous token claims) .remember = some
        { store := ⟨registered.registry, issuer, AList.insert info.id source store.sources⟩
          next := .inr (.enrolled info source ⟨token, claims, previous, previousSource⟩) } := rfl
  have hremember := hissued.step (e := .act .remember) (hC _ _ (.inr fun _ _ heq => (by cases heq))) (logged_act _ hlast)
  refine ⟨_, ⟨info, source, token, claims⟩, g, hremember, ?_, rfl, ?_, rfl⟩
  · simp only [Performed.noted, List.nil_append]
    rw [enrollment_enrolled, if_pos rfl]
  · simp [Performed.noted, deedsOf, enrollmentNotes]

def firstAgent : AgentInfo := { id := ascii "a1" }

def noTime : ClockReading := ⟨0, 0, rfl, rfl⟩

/-- The fields of a token for the agent, issued when both clocks read nothing. -/
def firstPayload (serial : ℕ) : AgentTokenPayload :=
  ⟨ascii "a1", 0, agentTokenTTL, agentTokenTTL, serial⟩

theorem nextPayload_first (t : AgentTokenIssuer) :
    t.nextPayload firstAgent.id noTime.wall noTime.running =
      firstPayload ((t.serial + 1) % 2 ^ 64) := rfl

/-- One enrollment, after which registry and tokens agree. -/
theorem firstEnrollment_agreed : ∃ store log en, Agreed blankMac store log ∧
    enrollment firstAgent.id log = some en ∧ en.token = sign blankMac (firstPayload 1) := by
  obtain ⟨issuer, hissue, -, -⟩ :=
    @issue_issuable blankMac {} firstAgent.id (by decide) noTime.wall noTime.running
  obtain ⟨log, en, -, hreaches, hen, htoken, -⟩ :=
    @enroll_runs blankMac (fun q e => SerialFits q.1 e) {} [] firstAgent [] _ noTime _ _ hissue
      (by
        intro q e h
        cases e with
        | act action =>
          cases action with
          | issue failure now =>
            have hserial := h.resolve_right fun hne => hne failure now rfl
            change q.1.store.issuer.serial + 1 < 2 ^ 64
            rw [hserial]
            decide
          | _ => trivial
        | _ => trivial) .init
  exact ⟨_, log, en, (enrollment_agrees hreaches).1 rfl, hen, htoken⟩

/-- Any number of enrollments of one agent, while both clocks stand still. -/
theorem laps (n : ℕ) : ∃ store log en,
    ((enrollmentSystem blankMac).logged (enrollmentNotes blankMac)).Reachable
      (⟨store, none⟩, log) ∧
    store.issuer.serial = (n + 1) % 2 ^ 64 ∧
    store.issuer.agents.lookup firstAgent.id =
      some ⟨uint64 (((n + 1) % 2 ^ 64 : ℕ) - 1), agentTokenTTL⟩ ∧
    enrollment firstAgent.id log = some en ∧
    en.token = sign blankMac (firstPayload ((n + 1) % 2 ^ 64)) ∧
    (1 ≤ n → ∃ g, Deed.issued firstAgent.id g ∈ deedsOf log ∧
      g.token = sign blankMac (firstPayload 2)) := by
  induction n with
  | zero =>
    obtain ⟨issuer, hissue, hserial, hlookup⟩ :=
      @issue_issuable blankMac {} firstAgent.id (by decide) noTime.wall noTime.running
    obtain ⟨log, en, -, hreaches, hen, htoken, -⟩ :=
      @enroll_runs blankMac (fun _ _ => True) {} [] firstAgent [] _ noTime _ _ hissue
        (fun _ _ _ => trivial) .init
    refine ⟨_, log, en, hreaches, hserial, hlookup, hen, htoken, fun h => by omega⟩
  | succ n ih =>
    obtain ⟨store, log, en, hreachable, hserial, -, -, -, hissued⟩ := ih
    obtain ⟨issuer, hissue, hserial', hlookup⟩ :=
      @issue_issuable blankMac store.issuer firstAgent.id (by decide) noTime.wall
        noTime.running
    obtain ⟨log', en', g, hreaches, hen, htoken, hdeeds, hg⟩ :=
      @enroll_runs blankMac (fun _ _ => True) store log firstAgent [] _ noTime _ _ hissue
        (fun _ _ _ => trivial) hreachable
    have hnext : (store.issuer.serial + 1) % 2 ^ 64 = (n + 1 + 1) % 2 ^ 64 := by
      rw [hserial]
      omega
    rw [nextPayload_first, hnext] at htoken hg
    rw [hnext] at hserial' hlookup
    refine ⟨_, log', en', hreaches, hserial', hlookup, hen, htoken, fun _ => ?_⟩
    rw [hdeeds]
    by_cases hn : n = 0
    · subst hn
      exact ⟨g, by simp, hg⟩
    · obtain ⟨g', hg', htoken'⟩ := hissued (by omega)
      exact ⟨g', List.mem_append_left _ hg', htoken'⟩

/-- The enrollment after 2^64 others has the serial number 1 again, and the token of the second one
is accepted beside its own. -/
theorem serial_wraps : ∃ store log token claims,
    ((enrollmentSystem blankMac).logged (enrollmentNotes blankMac)).Reachable
      (⟨store, none⟩, log) ∧
    Unforged blankMac (deedsOf log) token ∧
    store.issuer.check blankMac token 0 0 = .ok claims ∧
    ¬∃ en, enrollment claims.agentID log = some en ∧ en.token = token := by
  obtain ⟨store, log, en, hreachable, -, hlookup, hen, htoken, hissued⟩ := laps (2 ^ 64)
  obtain ⟨g, hg, hsecond⟩ := hissued (by decide)
  have hfits : (firstPayload 2).Fits := by constructor <;> decide
  refine ⟨store, log, sign blankMac (firstPayload 2), (firstPayload 2).claims, hreachable, ?_, ?_, ?_⟩
  · intro signed signature hcut _
    refine ⟨firstAgent.id, g, hg, ?_⟩
    rw [hsecond, hcut]
    rfl
  · rw [check_sign blankMac store.issuer hfits (by decide)]
    unfold AgentTokenIssuer.judge
    have hid : (firstPayload 2).agentID = firstAgent.id := rfl
    rw [hid, hlookup]
    decide
  · intro hlatest
    obtain ⟨en', hen', htoken'⟩ := hlatest
    have hid : (firstPayload 2).claims.agentID = firstAgent.id := rfl
    rw [hid, hen] at hen'
    cases hen'
    rw [htoken] at htoken'
    revert htoken'
    decide

end Persatrix.Security
