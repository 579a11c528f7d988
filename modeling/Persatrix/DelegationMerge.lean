import Persatrix.Delegation
import Mathlib.Data.List.Forall2
import Mathlib.Data.List.Perm.Basic

/-!
# Merging the memory writes of a reply

The writes beyond the cap are rejected; of the others each is checked, given its source agent, held
below the trust ceiling and refused where its key must not be there and is. A tag that is no text has
no beginning: the check of such a tag raises.
-/
namespace Persatrix.SubAgents
open PyJson

inductive RejectionReason where
  | schemaInvalid
  | capExceeded
  | sourceAgentSet
  | proceduralTierRejected
  | reservedTagPrefix
  | conflict
deriving DecidableEq

structure RejectedEntry where
  index : ℕ
  reason : RejectionReason
  detail : PyText

structure MergeOutcome where
  admitted : List MemoryWriteEntry
  rejected : List RejectedEntry

def reservedTagPrefixes : List PyText :=
  [word "tier:", word "key:", word "source:", word "channel:", word "procedure:"]

/-- The reserved prefix that a tag has. -/
def reservedOf (tag : PyText) : Option PyText := reservedTagPrefixes.find? (·.isPrefixOf tag)

def MemoryWriteEntry.withSourceAgent (entry : MemoryWriteEntry) (agentID : PyText) :
    MemoryWriteEntry :=
  { entry with sourceAgent := .str agentID }

def checkTags (u : UnicodeData) : List Value → Except PyException (Option (RejectionReason × PyText))
  | [] => .ok none
  | .str tag :: tags =>
    match reservedOf tag with
    | some reserved =>
      .ok (some (.reservedTagPrefix, word "tag " ++ reprStr u tag ++
        word " uses reserved prefix " ++ reprStr u reserved ++
        word " (reserved: ['channel:', 'key:', 'procedure:', 'source:', 'tier:'])"))
    | none => checkTags u tags
  | _ :: _ => .error .attributeError

/-- The checks of an entry that come after the one of its tags. -/
def checkFields (u : UnicodeData) (entry : MemoryWriteEntry) : Option (RejectionReason × PyText) :=
  if entry.tier = word "procedural" then
    some (.proceduralTierRejected, word "procedural tier is not delegatable")
  else if entry.tier ∉ allowedTiers then
    some (.schemaInvalid, word "tier must be one of ['episodic', 'notes']")
  else if isBlank entry.key then some (.schemaInvalid, word "key must not be empty")
  else if isBlank entry.content then some (.schemaInvalid, word "content must not be empty")
  else if ¬ ((toFloat false 0).le entry.importance ∧ entry.importance.le (toFloat false 1)) then
    some (.schemaInvalid, word "importance must be in [0.0, 1.0], got " ++ entry.importance.repr)
  else if entry.ttlSeconds.any fun ttl => ttl.le (toFloat false 0) then
    some (.schemaInvalid, word "ttl_seconds must be positive, got " ++
      (entry.ttlSeconds.map PyFloat.repr).getD [])
  else if entry.mergeStrategy ∉ allowedStrategies then
    some (.schemaInvalid, word
      "merge_strategy must be one of ['append', 'patch', 'reject_on_conflict', 'replace'], got " ++
      reprStr u entry.mergeStrategy)
  else none

/-- The reason and the detail with which an entry is rejected. -/
def entryError (u : UnicodeData) (entry : MemoryWriteEntry) :
    Except PyException (Option (RejectionReason × PyText)) :=
  match entry.sourceAgent with
  | .null => (checkTags u entry.tags).map fun r => r.or (checkFields u entry)
  | v => .ok (some (.sourceAgentSet, word "caller-set source_agent=" ++ reprText u v))

/-- `_validate_entry` -/
def validateEntry (u : UnicodeData) (idx : ℕ) (entry : MemoryWriteEntry) :
    Except PyException (Option RejectedEntry) :=
  (entryError u entry).map fun r => r.map fun p => ⟨idx, p.1, p.2⟩

/-- The importance held below the trust ceiling. -/
def DelegationRequest.downscale (request : DelegationRequest) (entry : MemoryWriteEntry) :
    MemoryWriteEntry :=
  if request.trustCeiling.lt entry.importance then
    { entry with importance := request.trustCeiling }
  else entry

/-- `_apply_strategy`, as far as it rejects. -/
def applyStrategy (u : UnicodeData) (idx : ℕ) (entry : MemoryWriteEntry)
    (knownKeys : List PyText) : Option RejectedEntry :=
  if entry.mergeStrategy = rejectOnConflict ∧ entry.key ∈ knownKeys then
    some ⟨idx, .conflict, word "key=" ++ reprStr u entry.key ++ word " already present"⟩
  else none

structure MergeState where
  knownKeys : List PyText
  admitted : List MemoryWriteEntry
  rejected : List RejectedEntry

def MergeState.reject (st : MergeState) (r : RejectedEntry) : MergeState :=
  { st with rejected := st.rejected ++ [r] }

/-- An entry that was found valid, or its rejection. -/
def MergeState.take (st : MergeState) (u : UnicodeData) (idx : ℕ) (entry : MemoryWriteEntry) :
    MergeState :=
  match applyStrategy u idx entry st.knownKeys with
  | some r => st.reject r
  | none =>
    { st with knownKeys := entry.key :: st.knownKeys, admitted := st.admitted ++ [entry] }

section
variable (u : UnicodeData) (request : DelegationRequest) (sourceAgent : PyText)

def mergeEntry (st : MergeState) (idx : ℕ) (entry : MemoryWriteEntry) :
    Except PyException MergeState :=
  (validateEntry u idx entry).map fun
    | some r => st.reject r
    | none => st.take u idx (request.downscale (entry.withSourceAgent sourceAgent))

def mergeEntries : MergeState → ℕ → List MemoryWriteEntry → Except PyException MergeState
  | st, _, [] => .ok st
  | st, idx, entry :: entries =>
    (mergeEntry u request sourceAgent st idx entry).bind fun st => mergeEntries st (idx + 1) entries

/-- The rejections of the entries beyond the cap. -/
def capExceeded (count : ℕ) : List RejectedEntry :=
  (List.range' request.maxMemoryWrites (count - request.maxMemoryWrites)).map fun idx =>
    ⟨idx, .capExceeded, word "max_memory_writes=" ++ intText request.maxMemoryWrites⟩

/-- `merge_result` of a result that is valid. -/
def mergeResult (existingKeys : List PyText) (memoryWrites : List MemoryWriteEntry) :
    Except PyException MergeOutcome :=
  (mergeEntries u request sourceAgent
    ⟨existingKeys, [], capExceeded request memoryWrites.length⟩ 0
    (memoryWrites.take request.maxMemoryWrites)).map fun st => ⟨st.admitted, st.rejected⟩

end

/-! ### When a merge raises -/

/-- Each tag up to the first with a reserved prefix is a text. -/
def TextsToReserved : List Value → Prop
  | [] => True
  | .str tag :: tags => (reservedOf tag).isSome ∨ TextsToReserved tags
  | _ :: _ => False

/-- Its tags are looked at only where the entry names no source. -/
def TagsReadable (entry : MemoryWriteEntry) : Prop :=
  match entry.sourceAgent with
  | .null => TextsToReserved entry.tags
  | _ => True

theorem isOk_map {ε α β : Type} (f : α → β) (r : Except ε α) : (r.map f).isOk = r.isOk := by
  cases r <;> rfl

theorem checkTags_isOk_iff (u : UnicodeData) (tags : List Value) :
    (checkTags u tags).isOk ↔ TextsToReserved tags := by
  induction tags with
  | nil => exact iff_of_true rfl trivial
  | cons tag tags ih =>
    cases tag with
    | str s =>
      unfold checkTags TextsToReserved
      cases hreserved : reservedOf s with
      | some reserved => exact iff_of_true rfl (.inl rfl)
      | none =>
        dsimp only
        rw [ih]
        exact (or_iff_right Bool.false_ne_true).symm
    | _ => exact iff_of_false Bool.false_ne_true id

theorem entryError_isOk_iff (u : UnicodeData) (entry : MemoryWriteEntry) :
    (entryError u entry).isOk ↔ TagsReadable entry := by
  unfold entryError TagsReadable
  cases entry.sourceAgent with
  | null =>
    dsimp only
    rw [isOk_map]
    exact checkTags_isOk_iff u entry.tags
  | _ => exact iff_of_true rfl trivial

theorem mergeEntries_isOk_iff (u : UnicodeData) (request : DelegationRequest)
    (sourceAgent : PyText) (entries : List MemoryWriteEntry) (st : MergeState) (idx : ℕ) :
    (mergeEntries u request sourceAgent st idx entries).isOk ↔
      ∀ entry ∈ entries, TagsReadable entry := by
  induction entries generalizing st idx with
  | nil => exact iff_of_true rfl fun _ hmem => absurd hmem List.not_mem_nil
  | cons entry entries ih =>
    rw [List.forall_mem_cons, ← entryError_isOk_iff u entry]
    unfold mergeEntries mergeEntry validateEntry
    cases entryError u entry with
    | error e => exact iff_of_false Bool.false_ne_true fun h => Bool.false_ne_true h.1
    | ok found => exact (ih _ _).trans (and_iff_right rfl).symm

theorem mergeResult_isOk_iff (u : UnicodeData) (request : DelegationRequest)
    (sourceAgent : PyText) (existingKeys : List PyText) (writes : List MemoryWriteEntry) :
    (mergeResult u request sourceAgent existingKeys writes).isOk ↔
      ∀ entry ∈ writes.take request.maxMemoryWrites, TagsReadable entry := by
  unfold mergeResult
  rw [isOk_map]
  exact mergeEntries_isOk_iff u request sourceAgent _ _ _

/-! ### What is admitted -/

/-- An entry inside the trust envelope. -/
structure Enveloped (request : DelegationRequest) (sourceAgent : PyText)
    (entry : MemoryWriteEntry) : Prop where
  tier : entry.tier ∈ allowedTiers
  strategy : entry.mergeStrategy ∈ allowedStrategies
  key : isBlank entry.key = false
  content : isBlank entry.content = false
  low : (toFloat false 0).le entry.importance = true
  high : entry.importance.le request.trustCeiling = true
  source : entry.sourceAgent = .str sourceAgent
  tags : ∀ tag ∈ entry.tags, ∃ s, tag = .str s ∧ reservedOf s = none

theorem one_finite : ∃ x, toFloat false 1 = .finite x := by
  have hnan : toFloat false 1 ≠ .nan := by decide +kernel
  have hinf : ∀ neg, toFloat false 1 ≠ .inf neg := by decide +kernel
  cases h : toFloat false 1 with
  | finite x => exact ⟨x, rfl⟩
  | inf neg => exact absurd h (hinf neg)
  | nan => exact absurd h hnan

/-- What is at least zero and at most one is a finite number. -/
theorem finite_of_unit {x : PyFloat} (hlow : (toFloat false 0).le x = true)
    (hhigh : x.le (toFloat false 1) = true) : ∃ y, x = .finite y := by
  obtain ⟨one, hone⟩ := one_finite
  have hzero : ∃ z, toFloat false 0 = .finite z := by
    unfold toFloat Float64.nearest
    rw [if_pos rfl]
    exact ⟨_, rfl⟩
  obtain ⟨zero, hzero⟩ := hzero
  rw [hone] at hhigh
  rw [hzero] at hlow
  cases x with
  | finite y => exact ⟨y, rfl⟩
  | inf neg =>
    cases neg with
    | true => cases hlow
    | false => cases hhigh
  | nan => cases hhigh

theorem DelegationRequest.downscale_importance (request : DelegationRequest)
    {entry : MemoryWriteEntry} (hlow : (toFloat false 0).le entry.importance = true)
    (hhigh : entry.importance.le (toFloat false 1) = true) :
    (toFloat false 0).le (request.downscale entry).importance = true ∧
      (request.downscale entry).importance.le request.trustCeiling = true := by
  obtain ⟨x, hx⟩ := finite_of_unit hlow hhigh
  obtain ⟨c, hc⟩ := finite_of_unit request.ceiling_low request.ceiling_high
  unfold downscale
  split_ifs with hover
  · refine ⟨request.ceiling_low, ?_⟩
    dsimp only
    rw [hc]
    exact decide_eq_true (le_refl _)
  · refine ⟨hlow, ?_⟩
    rw [hx, hc] at hover ⊢
    simp only [PyFloat.lt, PyFloat.le, Bool.and_eq_true, Bool.not_eq_true', decide_eq_true_eq,
      decide_eq_false_iff_not, not_and, not_not] at hover ⊢
    by_contra hle
    exact hle (hover (le_of_not_ge hle))

theorem checkTags_none {u : UnicodeData} {tags : List Value} (h : checkTags u tags = .ok none) :
    ∀ tag ∈ tags, ∃ s, tag = .str s ∧ reservedOf s = none := by
  induction tags with
  | nil => exact fun _ hmem => absurd hmem List.not_mem_nil
  | cons tag tags ih =>
    cases tag with
    | str s =>
      unfold checkTags at h
      cases hreserved : reservedOf s with
      | some reserved =>
        rw [hreserved] at h
        cases h
      | none =>
        rw [hreserved] at h
        intro tag hmem
        rcases List.mem_cons.mp hmem with rfl | hmem
        · exact ⟨s, rfl, hreserved⟩
        · exact ih h tag hmem
    | _ => cases h

theorem entryError_none {u : UnicodeData} {entry : MemoryWriteEntry}
    (h : entryError u entry = .ok none) :
    checkTags u entry.tags = .ok none ∧ checkFields u entry = none := by
  unfold entryError at h
  split at h
  · cases htags : checkTags u entry.tags with
    | error e =>
      rw [htags] at h
      cases h
    | ok r =>
      rw [htags] at h
      have hor : r.or (checkFields u entry) = none := Except.ok.inj h
      obtain ⟨hr, hfields⟩ := Option.or_eq_none_iff.mp hor
      exact ⟨congrArg Except.ok hr, hfields⟩
  · cases h

/-- A valid entry is inside the envelope once it has its source and is below the ceiling. -/
theorem enveloped_of_valid {u : UnicodeData} {request : DelegationRequest} {sourceAgent : PyText}
    {entry : MemoryWriteEntry} (h : entryError u entry = .ok none) :
    Enveloped request sourceAgent (request.downscale (entry.withSourceAgent sourceAgent)) := by
  obtain ⟨htags, hfields⟩ := entryError_none h
  unfold checkFields at hfields
  split_ifs at hfields with hprocedural htier hkey hcontent himportance httl hstrategy
  obtain ⟨hlow, hhigh⟩ := himportance
  obtain ⟨hlow', hhigh'⟩ :=
    @DelegationRequest.downscale_importance request (entry.withSourceAgent sourceAgent) hlow hhigh
  have hsame : ∀ {α : Type} (f : MemoryWriteEntry → α),
      (∀ e i, f { e with importance := i } = f e) → (∀ e s, f { e with sourceAgent := s } = f e) →
      f (request.downscale (entry.withSourceAgent sourceAgent)) = f entry := by
    intro α f hi hs
    unfold DelegationRequest.downscale
    split_ifs
    · rw [hi]
      exact hs entry _
    · exact hs entry _
  constructor
  · rw [hsame MemoryWriteEntry.tier (fun _ _ => rfl) fun _ _ => rfl]
    exact htier
  · rw [hsame MemoryWriteEntry.mergeStrategy (fun _ _ => rfl) fun _ _ => rfl]
    exact hstrategy
  · rw [hsame MemoryWriteEntry.key (fun _ _ => rfl) fun _ _ => rfl]
    exact Bool.not_eq_true _ ▸ hkey
  · rw [hsame MemoryWriteEntry.content (fun _ _ => rfl) fun _ _ => rfl]
    exact Bool.not_eq_true _ ▸ hcontent
  · exact hlow'
  · exact hhigh'
  · unfold DelegationRequest.downscale
    split_ifs <;> rfl
  · rw [hsame MemoryWriteEntry.tags (fun _ _ => rfl) fun _ _ => rfl]
    exact checkTags_none htags

/-! ### Each entry is admitted or rejected once -/

/-- The entries are those of the reply at these places, with their source and below the ceiling. -/
def ComesFrom (request : DelegationRequest) (sourceAgent : PyText)
    (writes : List MemoryWriteEntry) : List ℕ → List MemoryWriteEntry → Prop :=
  List.Forall₂ fun i entry => ∃ write, writes[i]? = some write ∧
    entry = request.downscale (write.withSourceAgent sourceAgent)

/-- What was admitted does not conflict with a key that was there. -/
def Conflictless (existingKeys : List PyText) (admitted : List MemoryWriteEntry) : Prop :=
  ∀ pre entry post, admitted = pre ++ entry :: post → entry.mergeStrategy = rejectOnConflict →
    entry.key ∉ existingKeys ∧ entry.key ∉ pre.map MemoryWriteEntry.key

/-- The state of the merge when some entries are merged, others being rejected before. -/
structure Merging (request : DelegationRequest) (sourceAgent : PyText) (existingKeys : List PyText)
    (writes : List MemoryWriteEntry) (before : List ℕ) (done : ℕ) (st : MergeState) : Prop where
  accounted : ∃ idxs, ComesFrom request sourceAgent writes idxs st.admitted ∧
    (st.rejected.map RejectedEntry.index ++ idxs).Perm (before ++ List.range done)
  known : ∀ key, key ∈ st.knownKeys ↔
    key ∈ existingKeys ∨ key ∈ st.admitted.map MemoryWriteEntry.key
  enveloped : ∀ entry ∈ st.admitted, Enveloped request sourceAgent entry
  conflictless : Conflictless existingKeys st.admitted
  count : st.admitted.length ≤ done

theorem perm_range_succ {rejected idxs before : List ℕ} {done : ℕ}
    (h : (rejected ++ idxs).Perm (before ++ List.range done)) :
    (rejected ++ (idxs ++ [done])).Perm (before ++ List.range (done + 1)) := by
  rw [← List.append_assoc, List.range_succ, ← List.append_assoc]
  exact h.append_right [done]

section
variable {u : UnicodeData} {request : DelegationRequest} {sourceAgent : PyText}
  {existingKeys : List PyText} {writes : List MemoryWriteEntry} {before : List ℕ} {done : ℕ}
  {st : MergeState}

theorem Merging.reject (h : Merging request sourceAgent existingKeys writes before done st)
    {r : RejectedEntry} (hr : r.index = done) :
    Merging request sourceAgent existingKeys writes before (done + 1) (st.reject r) := by
  obtain ⟨idxs, hfrom, hperm⟩ := h.accounted
  refine ⟨⟨idxs, hfrom, ?_⟩, h.known, h.enveloped, h.conflictless, h.count.trans (Nat.le_succ _)⟩
  have hmap : (st.reject r).rejected.map RejectedEntry.index =
      st.rejected.map RejectedEntry.index ++ [done] := by
    rw [MergeState.reject, List.map_append, List.map_singleton, hr]
  rw [hmap, List.append_assoc]
  exact (List.perm_append_comm.append_left _).trans (perm_range_succ hperm)

theorem Conflictless.concat {admitted : List MemoryWriteEntry} {entry : MemoryWriteEntry}
    (h : Conflictless existingKeys admitted)
    (hnew : entry.mergeStrategy = rejectOnConflict →
      entry.key ∉ existingKeys ∧ entry.key ∉ admitted.map MemoryWriteEntry.key) :
    Conflictless existingKeys (admitted ++ [entry]) := by
  intro pre other post hsplit hstrategy
  rcases List.eq_nil_or_concat post with rfl | ⟨init, last, rfl⟩
  · obtain ⟨rfl, hlast⟩ := List.append_inj' hsplit rfl
    cases hlast
    exact hnew hstrategy
  · rw [List.concat_eq_append, ← List.cons_append, ← List.append_assoc] at hsplit
    exact h pre other init (List.append_inj' hsplit rfl).1 hstrategy

theorem Merging.take (h : Merging request sourceAgent existingKeys writes before done st)
    {write : MemoryWriteEntry} (hwrite : writes[done]? = some write)
    (hvalid : entryError u write = .ok none) :
    Merging request sourceAgent existingKeys writes before (done + 1)
      (st.take u done (request.downscale (write.withSourceAgent sourceAgent))) := by
  have henveloped : Enveloped request sourceAgent
    (request.downscale (write.withSourceAgent sourceAgent)) := enveloped_of_valid hvalid
  generalize hentry : request.downscale (write.withSourceAgent sourceAgent) = entry at henveloped ⊢
  unfold MergeState.take applyStrategy
  by_cases hconflict : entry.mergeStrategy = rejectOnConflict ∧ entry.key ∈ st.knownKeys
  · rw [if_pos hconflict]
    exact h.reject rfl
  · rw [if_neg hconflict]
    obtain ⟨idxs, hfrom, hperm⟩ := h.accounted
    constructor
    · refine ⟨idxs ++ [done], ?_, perm_range_succ hperm⟩
      exact List.rel_append hfrom (.cons ⟨write, hwrite, hentry.symm⟩ .nil)
    · intro key
      dsimp only
      rw [List.mem_cons, h.known, List.map_append, List.mem_append, List.map_singleton,
        List.mem_singleton]
      tauto
    · intro other hmem
      rcases List.mem_append.mp hmem with hmem | hmem
      · exact h.enveloped other hmem
      · rw [List.mem_singleton.mp hmem]
        exact henveloped
    · refine h.conflictless.concat fun hstrategy => ?_
      have hunknown : entry.key ∉ st.knownKeys := fun hmem => hconflict ⟨hstrategy, hmem⟩
      rw [h.known, not_or] at hunknown
      exact hunknown
    · dsimp only
      rw [List.length_append, List.length_singleton]
      exact Nat.succ_le_succ h.count

/-- The invariant is carried over the entries that follow. -/
theorem Merging.entries {rest : List MemoryWriteEntry} {final : MergeState}
    (h : Merging request sourceAgent existingKeys writes before done st)
    (hrest : ∀ i, rest[i]? ≠ none → writes[done + i]? = rest[i]?)
    (hmerge : mergeEntries u request sourceAgent st done rest = .ok final) :
    Merging request sourceAgent existingKeys writes before (done + rest.length) final := by
  induction rest generalizing done st with
  | nil =>
    cases hmerge
    exact h
  | cons write rest ih =>
    have hwrite : writes[done]? = some write := hrest 0 (Option.some_ne_none _)
    have hnext : ∀ i, rest[i]? ≠ none → writes[done + 1 + i]? = rest[i]? := by
      intro i hi
      have hat := hrest (i + 1) hi
      rw [List.getElem?_cons_succ] at hat
      rw [← hat]
      congr 1
      omega
    have hlength : done + (write :: rest).length = done + 1 + rest.length := by
      rw [List.length_cons]
      omega
    rw [hlength]
    unfold mergeEntries mergeEntry validateEntry at hmerge
    cases hvalid : entryError u write with
    | error e =>
      rw [hvalid] at hmerge
      cases hmerge
    | ok found =>
      rw [hvalid] at hmerge
      cases found with
      | some r => exact ih (h.reject rfl) hnext hmerge
      | none => exact ih (h.take hwrite hvalid) hnext hmerge

end

/-- The outcome of a merge stays inside the trust envelope. -/
structure Contained (request : DelegationRequest) (sourceAgent : PyText)
    (existingKeys : List PyText) (writes : List MemoryWriteEntry) (outcome : MergeOutcome) :
    Prop where
  accounted : ∃ idxs, ComesFrom request sourceAgent writes idxs outcome.admitted ∧
    (outcome.rejected.map RejectedEntry.index ++ idxs).Perm (List.range writes.length)
  capped : outcome.admitted.length ≤ request.maxMemoryWrites
  enveloped : ∀ entry ∈ outcome.admitted, Enveloped request sourceAgent entry
  conflictless : Conflictless existingKeys outcome.admitted

theorem range_perm (cap count : ℕ) :
    (List.range' cap (count - cap) ++ List.range (min cap count)).Perm (List.range count) := by
  rcases le_total cap count with hle | hle
  · rw [min_eq_left hle]
    have hsplit : List.range count = List.range cap ++ List.range' cap (count - cap) := by
      have happend := @List.range'_append_1 0 cap (count - cap)
      rw [Nat.zero_add, Nat.add_sub_cancel' hle] at happend
      rw [List.range_eq_range', List.range_eq_range', happend]
    rw [hsplit]
    exact List.perm_append_comm
  · rw [min_eq_right hle, Nat.sub_eq_zero_of_le hle]
    exact List.Perm.refl _

theorem mergeResult_contained {u : UnicodeData} {request : DelegationRequest}
    {sourceAgent : PyText} {existingKeys : List PyText} {writes : List MemoryWriteEntry}
    {outcome : MergeOutcome}
    (h : mergeResult u request sourceAgent existingKeys writes = .ok outcome) :
    Contained request sourceAgent existingKeys writes outcome := by
  unfold mergeResult at h
  cases hmerge : mergeEntries u request sourceAgent
      ⟨existingKeys, [], capExceeded request writes.length⟩ 0
      (writes.take request.maxMemoryWrites) with
  | error e =>
    rw [hmerge] at h
    cases h
  | ok final =>
    rw [hmerge] at h
    cases h
    have hstart : Merging request sourceAgent existingKeys writes
        ((capExceeded request writes.length).map RejectedEntry.index) 0
        ⟨existingKeys, [], capExceeded request writes.length⟩ := by
      refine ⟨⟨[], .nil, List.Perm.refl _⟩, ?_, ?_, ?_, le_refl _⟩
      · intro key
        simp
      · exact fun _ hmem => absurd hmem List.not_mem_nil
      · intro pre entry post hsplit
        exact absurd hsplit.symm (by simp)
    have hrest : ∀ i, (writes.take request.maxMemoryWrites)[i]? ≠ none →
        writes[0 + i]? = (writes.take request.maxMemoryWrites)[i]? := by
      intro i hi
      rw [List.getElem?_take] at hi ⊢
      split_ifs at hi ⊢ with hlt
      · rw [Nat.zero_add]
      · exact absurd rfl hi
    have hfinal := hstart.entries hrest hmerge
    rw [Nat.zero_add, List.length_take] at hfinal
    obtain ⟨idxs, hfrom, hperm⟩ := hfinal.accounted
    refine ⟨⟨idxs, hfrom, hperm.trans ?_⟩, hfinal.count.trans (min_le_left _ _),
      hfinal.enveloped, hfinal.conflictless⟩
    have hindex : (capExceeded request writes.length).map RejectedEntry.index =
        List.range' request.maxMemoryWrites (writes.length - request.maxMemoryWrites) := by
      rw [capExceeded, List.map_map]
      exact List.map_id _
    rw [hindex]
    exact range_perm _ _

end Persatrix.SubAgents
