import Persatrix.AuditEvent

/-!
# What the hashed form tells

The text that is hashed tells the checksum before it and each of the event's fields, and a line
is decoded to the event with every string made the encoding of a text.
-/
namespace Persatrix.Json

/-- The text of a document is no beginning of another's. -/
theorem render_cancel {d e : Doc} {r t : GoString} (hr : Ends r) (ht : Ends t)
    (h : render d ++ r = render e ++ t) : d = e ∧ r = t := by
  have hd : parseValue ((render d).length + (render e).length) (d.depth + e.depth)
      (render d ++ r) = some (d, r) := parse_render d (by omega) (by omega) hr
  have he : parseValue ((render d).length + (render e).length) (d.depth + e.depth)
      (render e ++ t) = some (e, t) := parse_render e (by omega) (by omega) ht
  rw [h, he] at hd
  have heq := Prod.mk.inj (Option.some.inj hd)
  exact ⟨heq.1.symm, heq.2.symm⟩

/-- A byte of ASCII that is written as it is. -/
def isPlain (b : UInt8) : Bool :=
  0x20 ≤ b.toNat && b.toNat < 0x80 && !(b = quote || b = backslash || b = 60 || b = 62 || b = 38)

theorem escapeByte_plain {b : UInt8} (h : isPlain b = true) : escapeByte b = [b] := by
  simp only [isPlain, Bool.and_eq_true, Bool.not_eq_true', Bool.or_eq_false_iff,
    decide_eq_true_eq, decide_eq_false_iff_not] at h
  obtain ⟨⟨hlow, -⟩, ⟨⟨⟨hquote, hback⟩, h60⟩, h62⟩, h38⟩ := h
  have hne : ∀ c : UInt8, c.toNat < 0x20 → b ≠ c := by
    intro c hc hbc
    rw [hbc] at hlow
    omega
  rw [escapeByte, if_neg (by tauto), if_neg (hne 8 (by decide)), if_neg (hne 12 (by decide)),
    if_neg (hne 10 (by decide)), if_neg (hne 13 (by decide)), if_neg (hne 9 (by decide)),
    if_neg]
  rintro (hcode | h)
  · omega
  · tauto

theorem plain_char {b : UInt8} (h : isPlain b = true) : isChar [b] = true := by
  simp only [isPlain, Bool.and_eq_true, decide_eq_true_eq] at h
  simpa [isChar] using h.1.2

theorem encodeString_plain {s : GoString} (h : ∀ b ∈ s, isPlain b = true) :
    (encodeString s).1 = s := by
  have htext : (pieces s).flatMap escapePiece = s := by
    induction s with
    | nil => rfl
    | cons b s ih =>
      rw [List.forall_mem_cons] at h
      rw [← List.singleton_append, pieces_char (plain_char h.1), List.flatMap_cons, ih h.2]
      exact congrArg (· ++ s) (escapeByte_plain h.1)
  exact htext

theorem validString_plain {s : GoString} (h : ∀ b ∈ s, isPlain b = true) :
    validString s = true := by
  induction s with
  | nil => rfl
  | cons b s ih =>
    rw [List.forall_mem_cons] at h
    rw [← List.singleton_append, validString_char (plain_char h.1), ih h.2]

theorem isPlain_of_isDigit {b : UInt8} (h : isDigit b = true) : isPlain b = true := by
  rw [← digit_digitValue h]
  have hlt : digitValue b < 10 := by
    simp only [isDigit, Bool.and_eq_true, decide_eq_true_eq] at h
    unfold digitValue
    omega
  generalize digitValue b = n at hlt
  interval_cases n <;> rfl

/-- The text of a timestamp needs no escapes. -/
theorem time_text_plain (t : Time) : ∀ b ∈ t.text, isPlain b = true := by
  have hpadded : ∀ k n, ∀ b ∈ padded k n, isPlain b = true := fun k n b hb =>
    isPlain_of_isDigit (isDigit_of_mem_padded hb)
  have hyear : ∀ y, ∀ b ∈ yearText y, isPlain b = true := by
    intro y b hb
    unfold yearText at hb
    rcases List.mem_append.mp hb with hb | hb
    · split_ifs at hb
      · rw [List.mem_singleton.mp hb]
        rfl
      · cases hb
    · split_ifs at hb
      · exact hpadded _ _ b hb
      · exact isPlain_of_isDigit (isDigit_of_mem_decimal hb)
  have hnanos : ∀ n, ∀ b ∈ nanosText n, isPlain b = true := by
    intro n b hb
    unfold nanosText at hb
    split_ifs at hb
    · cases hb
    · rcases List.mem_cons.mp hb with rfl | hb
      · rfl
      · obtain ⟨k, hk⟩ := trimZeros_append (padded 9 n)
        apply hpadded 9 n
        rw [hk]
        exact List.mem_append_left _ hb
  have hzone : ∀ o, ∀ b ∈ zoneText o, isPlain b = true := by
    intro o
    unfold zoneText
    split_ifs
    · simp only [List.forall_mem_cons]
      exact ⟨rfl, by simp⟩
    · rw [List.forall_mem_cons, List.forall_mem_append, List.forall_mem_cons]
      exact ⟨rfl, hpadded _ _, rfl, hpadded _ _⟩
    · rw [List.forall_mem_cons, List.forall_mem_append, List.forall_mem_cons]
      exact ⟨rfl, hpadded _ _, rfl, hpadded _ _⟩
  unfold Time.text restText
  simp only [List.forall_mem_append, List.forall_mem_cons]
  exact ⟨hyear _, rfl, hpadded _ _, rfl, hpadded _ _, rfl, hpadded _ _, rfl, hpadded _ _, rfl,
    hpadded _ _, hnanos _, hzone _⟩

end Persatrix.Json

namespace Persatrix.Security
open Json

theorem canonicalFields_eq (ev : AuditEvent) : ev.canonicalFields =
    [(AuditField.action.key, .string (encodeString ev.action)),
      (AuditField.agentID.key, .string (encodeString ev.agentID)),
      (AuditField.correlationID.key, .string (encodeString ev.correlationID))] ++
    (match ev.detail with
      | none => []
      | some es => [(AuditField.detail.key, sortMap es)]) ++
    [(AuditField.eventType.key, .string (encodeString ev.eventType)),
      (AuditField.outcome.key, .string (encodeString ev.outcome)),
      (AuditField.resource.key, .string (encodeString ev.resource)),
      (AuditField.timestamp.key, .string (encodeString ev.timestamp.utcText))] := by
  cases h : ev.detail with
  | none =>
    unfold AuditEvent.canonicalFields
    rw [h]
    rfl
  | some es =>
    unfold AuditEvent.canonicalFields
    rw [h]
    rfl

theorem segment_cancel {key : GoString} {d e : Doc} {r t : GoString}
    (h : segment (key, d) ++ r = segment (key, e) ++ t) : d = e ∧ r = t := by
  simp only [segment, List.append_assoc, List.cons_append, List.append_cancel_left_eq,
    List.cons.injEq, true_and] at h
  obtain ⟨hd, hr⟩ := render_cancel (ends_cons rfl) (ends_cons rfl) h
  exact ⟨hd, (List.cons.inj hr).2⟩

/-- The last fields of the hashed form. -/
theorem last_segments_cancel {ev ev' : AuditEvent}
    (h : segment (AuditField.eventType.key, .string (encodeString ev.eventType)) ++
        (segment (AuditField.outcome.key, .string (encodeString ev.outcome)) ++
        (segment (AuditField.resource.key, .string (encodeString ev.resource)) ++
        segment (AuditField.timestamp.key, .string (encodeString ev.timestamp.utcText)))) =
      segment (AuditField.eventType.key, .string (encodeString ev'.eventType)) ++
        (segment (AuditField.outcome.key, .string (encodeString ev'.outcome)) ++
        (segment (AuditField.resource.key, .string (encodeString ev'.resource)) ++
        segment (AuditField.timestamp.key, .string (encodeString ev'.timestamp.utcText))))) :
    encodeString ev.eventType = encodeString ev'.eventType ∧
      encodeString ev.outcome = encodeString ev'.outcome ∧
      encodeString ev.resource = encodeString ev'.resource ∧
      encodeString ev.timestamp.utcText = encodeString ev'.timestamp.utcText := by
  obtain ⟨htype, h⟩ := segment_cancel h
  obtain ⟨houtcome, h⟩ := segment_cancel h
  obtain ⟨hresource, h⟩ := segment_cancel h
  rw [← List.append_nil (segment (_, Doc.string (encodeString ev.timestamp.utcText))),
    ← List.append_nil (segment (_, Doc.string (encodeString ev'.timestamp.utcText)))] at h
  obtain ⟨htime, -⟩ := segment_cancel h
  exact ⟨Doc.string.inj htype, Doc.string.inj houtcome, Doc.string.inj hresource,
    Doc.string.inj htime⟩

/-- Two events have the same hashed fields. -/
structure SameCanonical (ev ev' : AuditEvent) : Prop where
  action : encodeString ev.action = encodeString ev'.action
  agentID : encodeString ev.agentID = encodeString ev'.agentID
  correlationID : encodeString ev.correlationID = encodeString ev'.correlationID
  detail : ev.detail.map sortMap = ev'.detail.map sortMap
  eventType : encodeString ev.eventType = encodeString ev'.eventType
  outcome : encodeString ev.outcome = encodeString ev'.outcome
  resource : encodeString ev.resource = encodeString ev'.resource
  timestamp : encodeString ev.timestamp.utcText = encodeString ev'.timestamp.utcText

theorem segments_cancel {ev ev' : AuditEvent}
    (h : ev.canonicalFields.flatMap segment = ev'.canonicalFields.flatMap segment) :
    SameCanonical ev ev' := by
  rw [canonicalFields_eq, canonicalFields_eq] at h
  simp only [List.flatMap_append, List.flatMap_cons, List.flatMap_nil, List.append_assoc,
    List.append_nil] at h
  obtain ⟨haction, h⟩ := segment_cancel h
  obtain ⟨hagent, h⟩ := segment_cancel h
  obtain ⟨hcorrelation, h⟩ := segment_cancel h
  have hdetail : ev.detail.map sortMap = ev'.detail.map sortMap ∧
      encodeString ev.eventType = encodeString ev'.eventType ∧
      encodeString ev.outcome = encodeString ev'.outcome ∧
      encodeString ev.resource = encodeString ev'.resource ∧
      encodeString ev.timestamp.utcText = encodeString ev'.timestamp.utcText := by
    -- a detail's key and the key of the event type begin with different letters
    cases hev : ev.detail with
    | none =>
      cases hev' : ev'.detail with
      | none =>
        rw [hev, hev'] at h
        exact ⟨rfl, last_segments_cancel h⟩
      | some es' =>
        rw [hev, hev'] at h
        have hhead := congrArg List.head? h
        change some (101 : UInt8) = some 100 at hhead
        cases hhead
    | some es =>
      cases hev' : ev'.detail with
      | none =>
        rw [hev, hev'] at h
        have hhead := congrArg List.head? h
        change some (100 : UInt8) = some 101 at hhead
        cases hhead
      | some es' =>
        rw [hev, hev'] at h
        simp only [List.flatMap_cons, List.flatMap_nil, List.append_nil] at h
        obtain ⟨hsort, h⟩ := segment_cancel h
        exact ⟨congrArg some hsort, last_segments_cancel h⟩
  exact ⟨Doc.string.inj haction, Doc.string.inj hagent, Doc.string.inj hcorrelation, hdetail.1,
    hdetail.2.1, hdetail.2.2.1, hdetail.2.2.2.1, hdetail.2.2.2.2⟩

theorem canonicalFields_of_same {ev ev' : AuditEvent} (h : SameCanonical ev ev') :
    ev.canonicalFields = ev'.canonicalFields := by
  have hdetail := h.detail
  rw [canonicalFields_eq, canonicalFields_eq, h.action, h.agentID, h.correlationID, h.eventType,
    h.outcome, h.resource, h.timestamp]
  cases hev : ev.detail with
  | none =>
    cases hev' : ev'.detail with
    | none => rfl
    | some es' =>
      rw [hev, hev'] at hdetail
      cases hdetail
  | some es =>
    cases hev' : ev'.detail with
    | none =>
      rw [hev, hev'] at hdetail
      cases hdetail
    | some es' =>
      rw [hev, hev', Option.map_some, Option.map_some, Option.some.injEq] at hdetail
      dsimp only
      rw [hdetail]

/-- The hashed text tells the checksum before the event and its hashed fields. -/
theorem canonicalEventJSON_eq_iff {ev ev' : AuditEvent} {prev prev' : GoString} :
    canonicalEventJSON ev prev = canonicalEventJSON ev' prev' ↔
      prev = prev' ∧ SameCanonical ev ev' := by
  constructor
  · intro h
    unfold canonicalEventJSON at h
    have htail := List.append_cancel_left h
    have hdigits : ∀ n, ∀ b ∈ decimal n, isDigit b = true := fun n b => isDigit_of_mem_decimal
    have hcolon : ∀ (r : GoString), ∀ b, (colon :: r).head? = some b → isDigit b = false := by
      intro r b hb
      cases hb
      rfl
    have hleft := span_digits (hdigits prev.length) (hcolon (prev ++ bar ::
      ev.canonicalFields.flatMap segment))
    have hright := span_digits (hdigits prev'.length) (hcolon (prev' ++ bar ::
      ev'.canonicalFields.flatMap segment))
    rw [htail] at hleft
    have hlength : prev.length = prev'.length :=
      decimal_injective (hleft.1.symm.trans hright.1)
    have hrest := (List.cons.inj (hleft.2.symm.trans hright.2)).2
    obtain ⟨hprev, hbar⟩ := List.append_inj hrest hlength
    exact ⟨hprev, segments_cancel (List.cons.inj hbar).2⟩
  · rintro ⟨rfl, hsame⟩
    rw [canonicalEventJSON, canonicalFields_of_same hsame, ← canonicalEventJSON]

theorem sortMap_eq_iff (es es' : List (GoString × Any)) :
    sortMap es = sortMap es' ↔ Json.marshal (.map es) = Json.marshal (.map es') := by
  have hpairs : ∀ l : List (GoString × Doc),
      (l.map fun e => Doc.array [.string (encodeString e.1), e.2]) =
        (asMembers l).map fun m => Doc.array [.string m.1, m.2] := by
    intro l
    rw [asMembers, List.map_map]
    rfl
  have hinjective : Function.Injective fun m : StringLit × Doc => Doc.array [.string m.1, m.2] := by
    intro m n h
    have helems := Doc.array.inj h
    simp only [List.cons.injEq, Doc.string.injEq, and_true] at helems
    exact Prod.ext helems.1 helems.2
  unfold sortMap
  rw [hpairs, hpairs, marshal, marshal, Doc.array.injEq, Doc.object.injEq]
  exact (List.map_injective_iff.mpr hinjective).eq_iff

theorem encodeString_text_injective {t u : Time}
    (h : encodeString t.text = encodeString u.text) : t.text = u.text := by
  have htext := congrArg Subtype.val h
  rwa [encodeString_plain (time_text_plain t), encodeString_plain (time_text_plain u)] at htext

/-! ### What a line is decoded to -/

theorem lookup_key (f : AuditField) :
    AuditField.lookup (unquote (encodeString f.key).1) = some f := by
  have hplain : ∀ b ∈ f.key, isPlain b = true := by
    apply List.all_eq_true.mp
    cases f <;> decide
  rw [unquote_encode_of_valid (validString_plain hplain)]
  cases f <;> decide

theorem setMember_member (ev : AuditEvent) (f : AuditField) (d : Doc) :
    ev.setMember (member f d) = ev.setField f d := by
  rw [AuditEvent.setMember, member, lookup_key]

/-- The detail a line is decoded with. -/
def rereadDetail : Option (List (GoString × Any)) → Option (Option (List (GoString × Any)))
  | none | some [] => some none
  | some es =>
    (decodeMembers (asMembers (sortEntries (marshalEntries es)))).map fun es' =>
      some (sortEntries es')

/-- The event that is read from what was written for an event. -/
def AuditEvent.reread (ev : AuditEvent) (detail : Option (List (GoString × Any))) : AuditEvent :=
  ⟨ev.timestamp.reread, sanitize ev.correlationID, sanitize ev.eventType, sanitize ev.agentID,
    sanitize ev.action, sanitize ev.resource, sanitize ev.outcome, detail, sanitize ev.checksum⟩

/-- The members before the detail. -/
def AuditEvent.firstMembers (ev : AuditEvent) (ts : GoString) : List (StringLit × Doc) :=
  [member .timestamp (.string (encodeString ts)), ev.stringMember .correlationID,
    ev.stringMember .eventType, ev.stringMember .agentID, ev.stringMember .action,
    ev.stringMember .resource, ev.stringMember .outcome]

def detailMembers : Option (List (GoString × Any)) → List (StringLit × Doc)
  | none | some [] => []
  | some es => [member .detail (Json.marshal (.map es))]

theorem marshal_eq_some {ev : AuditEvent} {line : Doc} (h : ev.marshal = some line) :
    ∃ ts, ev.timestamp.marshal = some ts ∧ line = .object
      (ev.firstMembers ts ++ detailMembers ev.detail ++ [ev.stringMember .checksum]) := by
  obtain ⟨ts, hts, rfl⟩ := Option.map_eq_some_iff.mp h
  exact ⟨ts, hts, rfl⟩

theorem firstMembers_decoded {ev : AuditEvent} {ts : GoString}
    (h : ev.timestamp.marshal = some ts) :
    (ev.firstMembers ts).foldlM AuditEvent.setMember AuditEvent.zero =
      some { ev.reread none with checksum := [] } := by
  have hplain : (encodeString ts).1 = ts := by
    apply encodeString_plain
    unfold Time.marshal at h
    dsimp only at h
    split_ifs at h
    cases h
    exact time_text_plain ev.timestamp
  have hparse := parseTime_marshal h
  simp only [AuditEvent.firstMembers, AuditEvent.stringMember, List.foldlM_cons, List.foldlM_nil,
    setMember_member, AuditEvent.setField, hplain, hparse, Option.map_some, Option.bind_eq_bind,
    Option.bind_some, AuditEvent.withString, unquote_encodeString]
  rfl

theorem decodeEvent_marshal {ev : AuditEvent} {line : Doc} (h : ev.marshal = some line) :
    decodeEvent line = (rereadDetail ev.detail).map ev.reread := by
  obtain ⟨ts, hts, rfl⟩ := marshal_eq_some h
  have hchecksum : ∀ detail, [ev.stringMember .checksum].foldlM AuditEvent.setMember
      { ev.reread none with checksum := [], detail := detail } = some (ev.reread detail) := by
    intro detail
    simp only [AuditEvent.stringMember, List.foldlM_cons, List.foldlM_nil, setMember_member,
      AuditEvent.setField, Option.bind_eq_bind, Option.bind_some, AuditEvent.withString,
      unquote_encodeString]
    rfl
  rw [decodeEvent, List.foldlM_append, List.foldlM_append, firstMembers_decoded hts]
  match ev.detail with
  | none => exact hchecksum none
  | some [] => exact hchecksum none
  | some (e :: es) =>
    rw [rereadDetail]
    · simp only [detailMembers, List.foldlM_cons, List.foldlM_nil, setMember_member,
        Option.bind_eq_bind, Option.bind_some, AuditEvent.setField, Json.marshal]
      cases decodeMembers (asMembers (sortEntries (marshalEntries (e :: es)))) with
      | none => rfl
      | some es' => exact hchecksum (some (sortEntries es'))
    · intro hnil
      cases hnil

end Persatrix.Security
