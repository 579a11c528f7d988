import Persatrix.DelegationSpawner

/-!
# A reply stays in its trust envelope

The reply of a child is refused as a whole or merged entry by entry, and a batch is stored as a whole or
not at all, except where a value of the reply cannot be converted, a tag that is looked at is no text,
or a store is cancelled or raises after its row was inserted.
-/
namespace Persatrix.SubAgents
open PyJson

/-! ### Which replies are refused or merged -/

/-- The tags of an entry, where they are looked at, are texts up to the first reserved one. -/
def RawTagsReadable (raw : List (PyText × Value)) : Prop :=
  match (get raw "source_agent").getD .null with
  | .null => ∀ tags, tupleOrEmpty (get raw "tags") = .ok tags → TextsToReserved tags
  | _ => True

structure ReplyReadable (u : UnicodeData) (request : DelegationRequest)
    (data : List (PyText × Value)) (writes : List Value) : Prop where
  entries : ∀ raw ∈ objectsOf writes, Convertible u raw
  tuples : allObjects writes = true → (readTuples data).isOk = true
  tags : allObjects writes = true → textOf u data "status" "" ∈ allowedStatuses →
    (∀ artifacts rest, readTuples data = .ok (artifacts, rest) →
      request.acceptsArtifacts artifacts = true) →
    ∀ raw ∈ (objectsOf writes).take request.maxMemoryWrites, RawTagsReadable raw

/-- No integer of the reply has too many digits, what is converted can be, and the tags that are
looked at are texts. -/
def ReplyHolds (u : UnicodeData) (request : DelegationRequest) (output : TaskOutput) : Prop :=
  output.failed = false → ∀ text, output.delegationResult = some (.str text) →
    loads text ≠ .error .valueError ∧ ∀ data writes, loads text = .ok (.object data) →
      writesOf data = .array writes → ReplyReadable u request data writes

theorem readEntry_tags {u : UnicodeData} {raw : List (PyText × Value)} {entry : MemoryWriteEntry}
    (h : readEntry u raw = .ok entry) : TagsReadable entry ↔ RawTagsReadable raw := by
  unfold readEntry at h
  cases himportance : importanceOf u raw with
  | error e =>
    rw [himportance] at h
    cases h
  | ok importance =>
    rw [himportance] at h
    cases httl : ttlOf u raw with
    | error e =>
      rw [httl] at h
      cases h
    | ok ttl =>
      rw [httl] at h
      cases htags : tupleOrEmpty (get raw "tags") with
      | error e =>
        rw [htags] at h
        cases h
      | ok tags =>
        rw [htags] at h
        cases h
        unfold TagsReadable RawTagsReadable
        dsimp only
        rw [htags]
        cases (get raw "source_agent").getD .null with
        | null =>
          refine ⟨fun hread tags' heq => ?_, fun hread => hread tags rfl⟩
          cases heq
          exact hread
        | _ => exact Iff.rfl

/-- The entries are those of the objects. -/
theorem readEntries_forall₂ {u : UnicodeData} {writes : List Value}
    {entries : List MemoryWriteEntry} (h : readEntries u writes = .ok entries) :
    List.Forall₂ (fun raw entry => readEntry u raw = .ok entry) (objectsOf writes) entries ∧
      entries.length = writes.length := by
  induction writes generalizing entries with
  | nil =>
    cases h
    exact ⟨.nil, rfl⟩
  | cons v writes ih =>
    cases v with
    | object raw =>
      unfold readEntries at h
      cases hentry : readEntry u raw with
      | error e =>
        rw [hentry] at h
        cases h
      | ok entry =>
        rw [hentry] at h
        cases hrest : readEntries u writes with
        | error e =>
          rw [hrest] at h
          cases h
        | ok rest =>
          rw [hrest] at h
          cases h
          exact ⟨.cons hentry (ih hrest).1, congrArg Nat.succ (ih hrest).2⟩
    | _ => cases h

theorem forall_mem_iff_of_forall₂ {α β : Type} {R : α → β → Prop} {p : α → Prop} {q : β → Prop}
    {as : List α} {bs : List β} (h : List.Forall₂ R as bs) (hR : ∀ a b, R a b → (p a ↔ q b)) :
    (∀ a ∈ as, p a) ↔ ∀ b ∈ bs, q b := by
  induction h with
  | nil => simp
  | cons hab _ ih => rw [List.forall_mem_cons, List.forall_mem_cons, hR _ _ hab, ih]

section
variable {u : UnicodeData} {request : DelegationRequest} {childID : PyText}
  {existingKeys : List PyText} {data : List (PyText × Value)} {writes : List Value}

/-- What the members of a reply come to. -/
def receiveData (u : UnicodeData) (request : DelegationRequest) (childID : PyText)
    (existingKeys : List PyText) (data : List (PyText × Value)) (writes : List Value) :
    Except DispatchError (DelegationResult × MergeOutcome) :=
  (((readEntries u writes).bind (resultOf u data)).mapError .ofRead).bind
    (mergeReply u request childID existingKeys)

theorem receiveData_python_iff :
    (∃ e, receiveData u request childID existingKeys data writes = .error (.python e)) ↔
      ¬ ReplyReadable u request data writes := by
  have hok := readEntries_isOk_iff u writes
  have hpython := readEntries_python_iff u writes
  unfold receiveData
  cases hentries : readEntries u writes with
  | error e =>
    rw [hentries] at hok hpython
    cases e with
    | python e =>
      refine iff_of_true ⟨e, rfl⟩ fun hreadable => ?_
      exact hpython.mp ⟨e, rfl⟩ hreadable.entries
    | contractError =>
      have hconvertible : ∀ raw ∈ objectsOf writes, Convertible u raw := by
        by_contra hnot
        obtain ⟨e, he⟩ := hpython.mpr hnot
        cases he
      have hother : ¬ allObjects writes = true := fun hall =>
        Bool.false_ne_true (hok.mpr ⟨hall, hconvertible⟩)
      refine iff_of_false (fun h => ?_) (not_not.mpr ⟨hconvertible, fun hall => absurd hall hother,
        fun hall => absurd hall hother⟩)
      obtain ⟨e, he⟩ := h
      cases he
  | ok entries =>
    rw [hentries] at hok
    obtain ⟨hall, hconvertible⟩ := hok.mp rfl
    unfold Except.bind resultOf
    dsimp only
    cases htuples : readTuples data with
    | error e =>
      refine iff_of_true ⟨e, rfl⟩ fun hreadable => ?_
      have htuplesOk := hreadable.tuples hall
      rw [htuples] at htuplesOk
      cases htuplesOk
    | ok tuples =>
      obtain ⟨artifacts, decisions, risks⟩ := tuples
      have htuplesOk : (readTuples data).isOk = true := by rw [htuples]; rfl
      dsimp only
      by_cases hstatus : textOf u data "status" "" ∈ allowedStatuses
      · rw [DelegationResult.valid, decide_eq_true hstatus, if_pos rfl]
        dsimp only [Except.mapError, mergeReply]
        by_cases haccepts : request.acceptsArtifacts artifacts = true
        · rw [if_pos haccepts]
          have hmerge := mergeResult_isOk_iff u request childID existingKeys entries
          have htake := List.forall₂_take request.maxMemoryWrites
            (readEntries_forall₂ hentries).1
          have htags : (∀ raw ∈ (objectsOf writes).take request.maxMemoryWrites,
              RawTagsReadable raw) ↔
              ∀ entry ∈ entries.take request.maxMemoryWrites, TagsReadable entry :=
            forall_mem_iff_of_forall₂ htake fun _ _ hread => (readEntry_tags hread).symm
          rw [← htags] at hmerge
          cases hresult : mergeResult u request childID existingKeys entries with
          | error e =>
            rw [hresult] at hmerge
            refine iff_of_true ⟨e, rfl⟩ fun hreadable => ?_
            refine Bool.false_ne_true (hmerge.mpr (hreadable.tags hall hstatus ?_))
            intro artifacts' rest heq
            rw [htuples] at heq
            cases heq
            exact haccepts
          | ok outcome =>
            rw [hresult] at hmerge
            refine iff_of_false (fun h => ?_) (not_not.mpr ⟨hconvertible, fun _ => htuplesOk,
              fun _ _ _ => hmerge.mp rfl⟩)
            obtain ⟨e, he⟩ := h
            cases he
        · rw [if_neg haccepts]
          refine iff_of_false (fun h => ?_) (not_not.mpr ⟨hconvertible, fun _ => htuplesOk,
            fun _ _ hall' => absurd (hall' artifacts _ htuples) haccepts⟩)
          obtain ⟨e, he⟩ := h
          cases he
      · rw [DelegationResult.valid, decide_eq_false hstatus, if_neg Bool.false_ne_true]
        refine iff_of_false (fun h => ?_) (not_not.mpr ⟨hconvertible, fun _ => htuplesOk,
          fun _ hstatus' => absurd hstatus' hstatus⟩)
        obtain ⟨e, he⟩ := h
        cases he

theorem receive_failed {output : TaskOutput} (h : output.failed = true) :
    receive u request childID existingKeys output = .error .delegationFailure := by
  unfold receive extractResult
  rw [if_pos h]
  rfl

theorem receive_text {output : TaskOutput} {text : PyText} (hfailed : output.failed = false)
    (htext : output.delegationResult = some (.str text)) :
    receive u request childID existingKeys output =
      ((fromMetadataValue u text).mapError .ofRead).bind
        (mergeReply u request childID existingKeys) := by
  unfold receive extractResult
  rw [hfailed, if_neg Bool.false_ne_true, htext]

theorem receive_data {output : TaskOutput} {text : PyText} (hfailed : output.failed = false)
    (htext : output.delegationResult = some (.str text))
    (hloads : loads text = .ok (.object data)) (hwrites : writesOf data = .array writes) :
    receive u request childID existingKeys output =
      receiveData u request childID existingKeys data writes := by
  rw [receive_text hfailed htext, fromMetadataValue, hloads]
  dsimp only
  rw [hwrites]
  rfl

/-- A reply is a text with members, or it is refused, or it has an integer of too many digits. -/
theorem receive_cases (output : TaskOutput) :
    (∃ text data writes, output.failed = false ∧ output.delegationResult = some (.str text) ∧
      loads text = .ok (.object data) ∧ writesOf data = .array writes) ∨
    (receive u request childID existingKeys output = .error .delegationFailure ∧
      ReplyHolds u request output) ∨
    (receive u request childID existingKeys output = .error (.python .valueError) ∧
      ¬ ReplyHolds u request output) := by
  cases hfailed : output.failed with
  | true =>
    refine .inr (.inl ⟨receive_failed hfailed, fun hnot => ?_⟩)
    rw [hfailed] at hnot
    cases hnot
  | false =>
    by_cases htext : ∃ text, output.delegationResult = some (.str text)
    · obtain ⟨text, htext⟩ := htext
      have hread := @receive_text u request childID existingKeys output text hfailed htext
      have hsame : ∀ text', output.delegationResult = some (.str text') → text' = text := by
        intro text' htext'
        rw [htext] at htext'
        cases htext'
        rfl
      cases hloads : loads text with
      | error e =>
        unfold fromMetadataValue at hread
        rw [hloads] at hread
        cases e with
        | jsonDecodeError =>
          refine .inr (.inl ⟨hread, fun _ text' htext' => ?_⟩)
          rw [hsame text' htext', hloads]
          exact ⟨fun heq => (by cases heq), fun _ _ heq => (by cases heq)⟩
        | valueError =>
          exact .inr (.inr ⟨hread, fun hholds => (hholds hfailed text htext).1 hloads⟩)
      | ok v =>
        by_cases hdata : ∃ data writes, v = .object data ∧ writesOf data = .array writes
        · obtain ⟨data, writes, rfl, hwrites⟩ := hdata
          exact .inl ⟨text, data, writes, rfl, htext, hloads, hwrites⟩
        · refine .inr (.inl ⟨?_, fun _ text' htext' => ?_⟩)
          · unfold fromMetadataValue at hread
            rw [hloads] at hread
            cases v with
            | object data =>
              cases hwrites : writesOf data with
              | array writes => exact absurd ⟨data, writes, rfl, hwrites⟩ hdata
              | _ =>
                dsimp only at hread
                rw [hwrites] at hread
                exact hread
            | _ => exact hread
          · rw [hsame text' htext', hloads]
            refine ⟨fun heq => (by cases heq), fun data writes heq hwrites => ?_⟩
            exact absurd ⟨data, writes, Except.ok.inj heq, hwrites⟩ hdata
    · have hnone : extractResult u output = .error .delegationFailure := by
        unfold extractResult
        rw [hfailed, if_neg Bool.false_ne_true]
        split
        · rename_i raw hraw
          exact absurd ⟨raw, hraw⟩ htext
        · rfl
      refine .inr (.inl ⟨?_, fun _ text htext' => absurd ⟨text, htext'⟩ htext⟩)
      unfold receive
      rw [hnone]
      rfl

theorem receive_python_iff (output : TaskOutput) :
    (∃ e, receive u request childID existingKeys output = .error (.python e)) ↔
      ¬ ReplyHolds u request output := by
  rcases @receive_cases u request childID existingKeys output with
    ⟨text, data, writes, hfailed, htext, hloads, hwrites⟩ | ⟨hread, hholds⟩ | ⟨hread, hholds⟩
  · rw [receive_data hfailed htext hloads hwrites, receiveData_python_iff, not_iff_not]
    constructor
    · intro hreadable _ text' htext'
      rw [htext] at htext'
      cases htext'
      refine ⟨fun heq => ?_, fun data' writes' hloads' hwrites' => ?_⟩
      · rw [hloads] at heq
        cases heq
      · rw [hloads] at hloads'
        cases hloads'
        rw [hwrites] at hwrites'
        cases hwrites'
        exact hreadable
    · exact fun hholds => (hholds hfailed text htext).2 data writes hloads hwrites
  · refine iff_of_false (fun h => ?_) (not_not.mpr hholds)
    obtain ⟨e, he⟩ := h
    rw [hread] at he
    cases he
  · exact iff_of_true ⟨_, hread⟩ hholds

/-- What was merged was read from the members of the reply. -/
theorem receive_ok {output : TaskOutput} {result : DelegationResult} {outcome : MergeOutcome}
    (h : receive u request childID existingKeys output = .ok (result, outcome)) :
    (∃ text data writes, output.delegationResult = some (.str text) ∧
      loads text = .ok (.object data) ∧ writesOf data = .array writes ∧
      readEntries u writes = .ok result.memoryWrites) ∧
    mergeResult u request childID existingKeys result.memoryWrites = .ok outcome := by
  rcases @receive_cases u request childID existingKeys output with
    ⟨text, data, writes, hfailed, htext, hloads, hwrites⟩ | ⟨hread, -⟩ | ⟨hread, -⟩
  · rw [receive_data hfailed htext hloads hwrites] at h
    unfold receiveData at h
    cases hentries : readEntries u writes with
    | error e =>
      rw [hentries] at h
      cases h
    | ok entries =>
      rw [hentries] at h
      unfold Except.bind resultOf at h
      dsimp only at h
      cases htuples : readTuples data with
      | error e =>
        rw [htuples] at h
        cases h
      | ok tuples =>
        rw [htuples] at h
        obtain ⟨artifacts, decisions, risks⟩ := tuples
        dsimp only at h
        split_ifs at h with hvalid
        · dsimp only [Except.mapError, mergeReply] at h
          split_ifs at h with haccepts
          cases hmerge : mergeResult u request childID existingKeys entries with
          | error e =>
            rw [hmerge] at h
            cases h
          | ok merged =>
            rw [hmerge] at h
            cases h
            exact ⟨⟨text, data, writes, htext, hloads, hwrites, hentries⟩, hmerge⟩
        · cases h
  · rw [hread] at h
    cases h
  · rw [hread] at h
    cases h

end

theorem mapError_python_ne_store {α : Type} (r : Except PyException α) (e : StoreError) :
    r.mapError DispatchError.python ≠ .error (.store e) := by
  cases r with
  | error e => exact fun h => by cases h
  | ok a => exact fun h => by cases h

/-- Nothing is stored before the reply is merged. -/
theorem receive_ne_store {u : UnicodeData} {request : DelegationRequest} {childID : PyText}
    {existingKeys : List PyText} {output : TaskOutput} (e : StoreError) :
    receive u request childID existingKeys output ≠ .error (.store e) := by
  intro h
  unfold receive at h
  cases hextract : extractResult u output with
  | error d =>
    rw [hextract] at h
    cases h
    unfold extractResult at hextract
    split_ifs at hextract
    · cases hextract
    split at hextract
    · rename_i raw _
      cases hread : fromMetadataValue u raw with
      | error d =>
        rw [hread] at hextract
        cases d <;> cases hextract
      | ok result =>
        rw [hread] at hextract
        cases hextract
    · cases hextract
  | ok result =>
    rw [hextract] at h
    have hmerge : mergeReply u request childID existingKeys result = .error (.store e) := h
    unfold mergeReply at hmerge
    split_ifs at hmerge
    · exact mapError_python_ne_store _ e hmerge
    · cases hmerge

/-! ### Each stored row has its tags once -/

/-- Whether a tag begins with this prefix. -/
def hasPrefix (p : PyText) : Value → Bool
  | .str s => p.isPrefixOf s
  | _ => false

/-- One tag of the row names its tier, one its key and one its source. -/
def TaggedOnce (row : StoredRow) : Prop :=
  ∀ p ∈ [word "tier:", word "key:", word "source:"], row.tags.countP (hasPrefix p) = 1

theorem Enveloped.taggedOnce {u : UnicodeData} {request : DelegationRequest} {childID : PyText}
    {entry : MemoryWriteEntry} (h : Enveloped request childID entry) :
    TaggedOnce (rowOf u entry) := by
  intro p hp
  have hreserved : p ∈ reservedTagPrefixes := by
    simp only [List.mem_cons, List.not_mem_nil, or_false] at hp
    rcases hp with rfl | rfl | rfl <;> simp [reservedTagPrefixes]
  have hown : entry.tags.countP (hasPrefix p) = 0 := by
    rw [List.countP_eq_zero]
    intro tag htag
    obtain ⟨s, rfl, hs⟩ := h.tags tag htag
    exact List.find?_eq_none.mp hs p hreserved
  unfold rowOf
  dsimp only
  rw [List.countP_append, hown, Nat.zero_add]
  simp only [List.mem_cons, List.not_mem_nil, or_false] at hp
  rcases hp with rfl | rfl | rfl <;> rfl

/-! ### The dispatch -/

/-- The dispatch refuses the reply, or its outcome is inside the envelope and stored as a whole, or
storing failed and nothing of the batch stays. -/
def StaysInEnvelope (u : UnicodeData) (request : DelegationRequest) (childID : PyText)
    (existingKeys : List PyText) (output : TaskOutput) (base : Episodes) :
    Except DispatchError SpawnResult × Episodes → Prop
  | (.error .delegationFailure, db) => db.rows = base.rows
  | (.error (.python _), _) => False
  | (.error (.store _), db) => db.rows = base.rows
  | (.ok r, db) =>
    (∃ text data writes, output.delegationResult = some (.str text) ∧
      loads text = .ok (.object data) ∧ writesOf data = .array writes ∧
      readEntries u writes = .ok r.result.memoryWrites ∧
      r.result.memoryWrites.length = writes.length) ∧
    Contained request childID existingKeys r.result.memoryWrites r.outcome ∧
    r.admittedEntryIDs.length = r.outcome.admitted.length ∧
    db.rows = base.rows ++ r.admittedEntryIDs.zip (r.outcome.admitted.map (rowOf u)) ∧
    ∀ entry ∈ r.outcome.admitted, TaggedOnce (rowOf u entry)

/-- The first call of the batch that does not return leaves nothing behind. -/
def StoresHold (u : UnicodeData) (request : DelegationRequest) (childID : PyText)
    (existingKeys : List PyText) (output : TaskOutput) (steps : ℕ → StoreStep) : Prop :=
  ∀ result outcome, receive u request childID existingKeys output = .ok (result, outcome) →
    StepsSafe steps outcome.admitted.length

/-- A reply stays in its envelope exactly where its values can be converted and storing leaves
nothing behind. -/
theorem dispatch_staysInEnvelope_iff (u : UnicodeData) (request : DelegationRequest)
    (childID : PyText) (existingKeys : List PyText) (output : TaskOutput)
    (steps : ℕ → StoreStep) (db : Episodes) :
    StaysInEnvelope u request childID existingKeys output db
        (dispatch u request childID existingKeys output steps db) ↔
      ReplyHolds u request output ∧
        StoresHold u request childID existingKeys output steps := by
  have hpython := @receive_python_iff u request childID existingKeys output
  unfold dispatch StoresHold
  cases hreceive : receive u request childID existingKeys output with
  | error e =>
    rw [hreceive] at hpython
    cases e with
    | python e => exact iff_of_false id fun h => hpython.mp ⟨e, rfl⟩ h.1
    | delegationFailure =>
      have hholds : ReplyHolds u request output := by
        by_contra hnot
        obtain ⟨e, he⟩ := hpython.mpr hnot
        cases he
      exact iff_of_true rfl ⟨hholds, fun _ _ heq => by cases heq⟩
    | store e =>
      exact absurd hreceive (receive_ne_store e)
  | ok merged =>
    obtain ⟨result, outcome⟩ := merged
    rw [hreceive] at hpython
    have hholds : ReplyHolds u request output := by
      by_contra hnot
      obtain ⟨e, he⟩ := hpython.mpr hnot
      cases he
    obtain ⟨⟨text, data, writes, htext, hloads, hwrites, hentries⟩, hmerge⟩ := receive_ok hreceive
    have hcontained := mergeResult_contained hmerge
    have hsafe : (∀ result' outcome', (.ok (result, outcome) :
        Except DispatchError (DelegationResult × MergeOutcome)) = .ok (result', outcome') →
        StepsSafe steps outcome'.admitted.length) ↔ StepsSafe steps outcome.admitted.length := by
      refine ⟨fun h => h result outcome rfl, fun h result' outcome' heq => ?_⟩
      cases heq
      exact h
    rw [and_iff_right hholds, hsafe]
    have hcount : (outcome.admitted.map (rowOf u)).length = outcome.admitted.length :=
      List.length_map _
    rcases @persist_cases steps (outcome.admitted.map (rowOf u)) [] [] db db (Grown.refl db)
      (fun i hi => absurd hi (Nat.not_lt_zero i)) with
      ⟨ids, db', hpersist, hgrown, hall⟩ | ⟨e, db', j, hpersist, hj, hbefore, hfirst, hrows⟩
    · dsimp only
      rw [hpersist]
      rw [List.nil_append] at hgrown hall
      refine iff_of_true ⟨⟨text, data, writes, htext, hloads, hwrites, hentries,
        (readEntries_forall₂ hentries).2⟩, hcontained, hgrown.length_eq.trans hcount,
        hgrown.held, fun entry hmem => (hcontained.enveloped entry hmem).taggedOnce⟩ ?_
      intro j hj _
      rw [hall j (hcount.symm ▸ hj)]
      trivial
    · dsimp only
      rw [hpersist]
      rw [List.nil_append, hcount] at hj
      refine hrows.trans ⟨fun hsafe i hi hbefore' => ?_, fun h => h j hj hbefore⟩
      rcases Nat.lt_trichotomy i j with hlt | rfl | hgt
      · rw [hbefore i hlt]
        trivial
      · exact hsafe
      · exact absurd (hbefore' j hgt) hfirst

/-! ### Two replies that do not -/

theorem trustCeiling_between : (toFloat false 0).le (toFloat false (4 / 5)) = true ∧
    (toFloat false (4 / 5)).le (toFloat false 1) = true := by
  decide +kernel

theorem trustCeiling_low : (toFloat false 0).le (toFloat false (4 / 5)) = true :=
  trustCeiling_between.1

theorem trustCeiling_high : (toFloat false (4 / 5)).le (toFloat false 1) = true :=
  trustCeiling_between.2

/-- A request with the defaults of the source and no output schema. -/
def defaultRequest : DelegationRequest where
  acceptsArtifacts := fun _ => true
  trustCeiling := toFloat false (4 / 5)
  maxMemoryWrites := 20
  ceiling_low := trustCeiling_low
  ceiling_high := trustCeiling_high

def asciiData : UnicodeData := ⟨fun c => 32 ≤ c && c ≤ 126, fun _ => none⟩

def emptyEpisodes : Episodes := ⟨[], 0, List.forall_mem_nil _⟩

/-- A reply whose one entry has a list for its importance. -/
def listImportance : TaskOutput :=
  ⟨false, some (.str (word "\x7b\"memory_writes\":[\x7b\"importance\":[]\x7d]\x7d"))⟩

/-- A reply with two entries. -/
def twoEntries : TaskOutput :=
  ⟨false, some (.str (word "\x7b\"status\":\"completed\",\"memory_writes\":[\x7b\"tier\":\"notes\",\"key\":\"k\",\"content\":\"c\"\x7d,\x7b\"tier\":\"notes\",\"key\":\"l\",\"content\":\"d\"\x7d]\x7d"))⟩

/-- The second store of a batch is cancelled before it inserts. -/
def secondCancelled (j : ℕ) : StoreStep := if j = 1 then .cancelled false else .returns

def isTypeError : Except DispatchError SpawnResult → Bool
  | .error (.python .typeError) => true
  | _ => false

def isCancelled : Except DispatchError SpawnResult → Bool
  | .error (.store .cancelled) => true
  | _ => false

theorem not_staysInEnvelope_of_typeError {u : UnicodeData} {request : DelegationRequest}
    {childID : PyText} {existingKeys : List PyText} {output : TaskOutput} {base : Episodes}
    {r : Except DispatchError SpawnResult × Episodes} (h : isTypeError r.1 = true) :
    ¬ StaysInEnvelope u request childID existingKeys output base r := by
  obtain ⟨r, db⟩ := r
  cases r with
  | ok r => cases h
  | error e =>
    cases e with
    | python e => exact id
    | _ => cases h

theorem not_staysInEnvelope_of_cancelled {u : UnicodeData} {request : DelegationRequest}
    {childID : PyText} {existingKeys : List PyText} {output : TaskOutput} {base : Episodes}
    {r : Except DispatchError SpawnResult × Episodes} (h : isCancelled r.1 = true)
    (hrows : r.2.rows.length ≠ base.rows.length) :
    ¬ StaysInEnvelope u request childID existingKeys output base r := by
  obtain ⟨r, db⟩ := r
  cases r with
  | ok r => cases h
  | error e =>
    cases e with
    | store e => exact fun hsame => hrows (congrArg List.length hsame)
    | _ => cases h

/-- The one raises what no caller expects, the other leaves its first row. -/
theorem dispatch_leaves_envelope :
    ¬ StaysInEnvelope asciiData defaultRequest (word "child") [] listImportance emptyEpisodes
      (dispatch asciiData defaultRequest (word "child") [] listImportance (fun _ => .returns)
        emptyEpisodes) ∧
    ¬ StaysInEnvelope asciiData defaultRequest (word "child") [] twoEntries emptyEpisodes
      (dispatch asciiData defaultRequest (word "child") [] twoEntries secondCancelled
        emptyEpisodes) := by
  have hraised : isTypeError (dispatch asciiData defaultRequest (word "child") [] listImportance
      (fun _ => .returns) emptyEpisodes).1 = true := by
    unfold listImportance
    repeat rw [word_ofList]
    decide
  have hcancelled : isCancelled (dispatch asciiData defaultRequest (word "child") [] twoEntries
        secondCancelled emptyEpisodes).1 = true ∧
      (dispatch asciiData defaultRequest (word "child") [] twoEntries secondCancelled
        emptyEpisodes).2.rows.length ≠ emptyEpisodes.rows.length := by
    unfold twoEntries
    repeat rw [word_ofList]
    decide +kernel
  exact ⟨not_staysInEnvelope_of_typeError hraised,
    not_staysInEnvelope_of_cancelled hcancelled.1 hcancelled.2⟩

end Persatrix.SubAgents
