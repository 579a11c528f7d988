import Persatrix.AuditRecords

/-!
# Log entries

An entry as it is encoded to a line of a sequence file and decoded from one. A string that is
empty, a map without entries and a nil pointer are left out where the field says `omitempty`.
-/
namespace Persatrix.LogBuffer
open Json Security

structure Source where
  file : GoString
  line : UInt32
  function : GoString
deriving DecidableEq

structure Entry where
  schemaVersion : GoString
  timestamp : Time
  level : GoString
  serviceKind : GoString
  serviceInstance : GoString
  serviceRole : GoString
  message : GoString
  executionID : GoString
  stepID : GoString
  agentID : GoString
  requestID : GoString
  traceID : GoString
  spanID : GoString
  /-- The entries of a map that is not nil. -/
  attributes : Option (List (GoString × Any))
  source : Option Source

def Entry.zero : Entry :=
  ⟨[], Time.zero, [], [], [], [], [], [], [], [], [], [], [], none, none⟩

inductive EntryField where
  | schemaVersion | timestamp | level | serviceKind | serviceInstance | serviceRole | message
  | executionID | stepID | agentID | requestID | traceID | spanID | attributes | source
deriving DecidableEq

namespace EntryField

def all : List EntryField :=
  [.schemaVersion, .timestamp, .level, .serviceKind, .serviceInstance, .serviceRole, .message,
    .executionID, .stepID, .agentID, .requestID, .traceID, .spanID, .attributes, .source]

def key : EntryField → GoString
  | .schemaVersion => ascii "schema_version"
  | .timestamp => ascii "timestamp"
  | .level => ascii "level"
  | .serviceKind => ascii "service_kind"
  | .serviceInstance => ascii "service_instance"
  | .serviceRole => ascii "service_role"
  | .message => ascii "message"
  | .executionID => ascii "execution_id"
  | .stepID => ascii "step_id"
  | .agentID => ascii "agent_id"
  | .requestID => ascii "request_id"
  | .traceID => ascii "trace_id"
  | .spanID => ascii "span_id"
  | .attributes => ascii "attributes"
  | .source => ascii "source"

/-- The field a key stands for, by its name or without regard to case. -/
def lookup (key : GoString) : Option EntryField :=
  (all.find? fun f => f.key = key).or (all.find? fun f => foldName f.key = foldName key)

/-- The fields with a string. -/
def isString : EntryField → Bool
  | .timestamp | .attributes | .source => false
  | _ => true

end EntryField

inductive SourceField where
  | file | line | function
deriving DecidableEq

namespace SourceField

def all : List SourceField := [.file, .line, .function]

def key : SourceField → GoString
  | .file => ascii "file"
  | .line => ascii "line"
  | .function => ascii "function"

def lookup (key : GoString) : Option SourceField :=
  (all.find? fun f => f.key = key).or (all.find? fun f => foldName f.key = foldName key)

end SourceField

/-! ### Encoding -/

def optionalString (key s : GoString) : List (StringLit × Doc) :=
  if s = [] then [] else [(encodeString key, .string (encodeString s))]

def Source.marshal (src : Source) : Doc :=
  .object (optionalString SourceField.file.key src.file ++
    (if src.line = 0 then []
      else [(encodeString SourceField.line.key, .number (intLit src.line.toNat))]) ++
    optionalString SourceField.function.key src.function)

namespace Entry

/-- The string of a field; the other fields have none. -/
def string (e : Entry) : EntryField → GoString
  | .schemaVersion => e.schemaVersion
  | .level => e.level
  | .serviceKind => e.serviceKind
  | .serviceInstance => e.serviceInstance
  | .serviceRole => e.serviceRole
  | .message => e.message
  | .executionID => e.executionID
  | .stepID => e.stepID
  | .agentID => e.agentID
  | .requestID => e.requestID
  | .traceID => e.traceID
  | .spanID => e.spanID
  | .timestamp | .attributes | .source => []

def member (f : EntryField) (d : Doc) : StringLit × Doc := (encodeString f.key, d)

def stringMember (e : Entry) (f : EntryField) : StringLit × Doc :=
  member f (.string (encodeString (e.string f)))

def optionalMember (e : Entry) (f : EntryField) : List (StringLit × Doc) :=
  optionalString f.key (e.string f)

def attributesMember : Option (List (GoString × Any)) → List (StringLit × Doc)
  | none | some [] => []
  | some es => [member .attributes (Json.marshal (.map es))]

def sourceMember : Option Source → List (StringLit × Doc)
  | none => []
  | some src => [member .source src.marshal]

/-- The document of an entry; one whose timestamp does not fit has none. -/
def marshal (e : Entry) : Option Doc :=
  e.timestamp.marshal.map fun ts =>
    .object ([e.stringMember .schemaVersion, member .timestamp (.string (encodeString ts)),
      e.stringMember .level] ++ e.optionalMember .serviceKind ++
      e.optionalMember .serviceInstance ++ e.optionalMember .serviceRole ++
      [e.stringMember .message] ++ e.optionalMember .executionID ++ e.optionalMember .stepID ++
      e.optionalMember .agentID ++ e.optionalMember .requestID ++ e.optionalMember .traceID ++
      e.optionalMember .spanID ++ attributesMember e.attributes ++ sourceMember e.source)

/-- The line of an entry without its end. -/
def line (e : Entry) : Option GoString := e.marshal.map render

/-! ### Decoding -/

def withString (e : Entry) (f : EntryField) (s : GoString) : Entry :=
  match f with
  | .schemaVersion => { e with schemaVersion := s }
  | .level => { e with level := s }
  | .serviceKind => { e with serviceKind := s }
  | .serviceInstance => { e with serviceInstance := s }
  | .serviceRole => { e with serviceRole := s }
  | .message => { e with message := s }
  | .executionID => { e with executionID := s }
  | .stepID => { e with stepID := s }
  | .agentID => { e with agentID := s }
  | .requestID => { e with requestID := s }
  | .traceID => { e with traceID := s }
  | .spanID => { e with spanID := s }
  | .timestamp | .attributes | .source => e

end Entry

/-- A number of 32 bits without a sign, a fraction or an exponent. -/
def parseUint32 (s : GoString) : Option UInt32 :=
  (readDigits s).bind fun n => if n < 2 ^ 32 then some (UInt32.ofNat n) else none

def Source.setField (src : Source) (f : SourceField) (d : Doc) : Option Source :=
  match f, d with
  | _, .null => some src
  | .file, .string s => some { src with file := unquote s.1 }
  | .function, .string s => some { src with function := unquote s.1 }
  | .line, .number n => (parseUint32 n.1).map fun line => { src with line := line }
  | _, _ => none

def Source.setMember (src : Source) (m : StringLit × Doc) : Option Source :=
  match SourceField.lookup (unquote m.1.1) with
  | none => some src
  | some f => src.setField f m.2

namespace Entry

/-- The entry after a member was decoded into the field; `null` leaves a field as it is, and a
map or a pointer nil. -/
def setField (e : Entry) (f : EntryField) (d : Doc) : Option Entry :=
  match f with
  | .timestamp =>
    match d with
    | .null => some e
    | .string s => (parseTime s.1).map fun t => { e with timestamp := t }
    | _ => none
  | .attributes =>
    match d with
    | .null => some { e with attributes := none }
    | .object members =>
      (decodeMembers members).map fun es =>
        { e with attributes := some (sortEntries (e.attributes.getD [] ++ es)) }
    | _ => none
  | .source =>
    match d with
    | .null => some { e with source := none }
    | .object members =>
      (members.foldlM Source.setMember (e.source.getD ⟨[], 0, []⟩)).map fun src =>
        { e with source := some src }
    | _ => none
  | f =>
    match d with
    | .null => some e
    | .string s => some (e.withString f (unquote s.1))
    | _ => none

def setMember (e : Entry) (m : StringLit × Doc) : Option Entry :=
  match EntryField.lookup (unquote m.1.1) with
  | none => some e
  | some f => e.setField f m.2

end Entry

/-- The entry a document is decoded to. -/
def decodeEntry : Doc → Option Entry
  | .null => some Entry.zero
  | .object members => members.foldlM Entry.setMember Entry.zero
  | _ => none

def unmarshalEntry (s : GoString) : Option Entry :=
  (parse s).bind fun p => if p.2.all Json.isSpace then decodeEntry p.1 else none

/-! ### Round trips -/

namespace Entry

/-- The entry is encoded to the line, and decoded from it without a change. -/
def RoundTrips (e : Entry) (line : GoString) : Prop :=
  e.line = some line ∧ unmarshalEntry line = some e

theorem lookup_key (f : EntryField) :
    EntryField.lookup (unquote (encodeString f.key).1) = some f := by
  have hplain : ∀ b ∈ f.key, isPlain b = true := by
    apply List.all_eq_true.mp
    cases f <;> decide
  rw [unquote_encode_of_valid (validString_plain hplain)]
  cases f <;> decide

theorem setMember_member (e : Entry) (f : EntryField) (d : Doc) :
    e.setMember (member f d) = e.setField f d := by
  rw [setMember, member, lookup_key]

theorem setField_string (e : Entry) {f : EntryField} (hf : f.isString = true) (s : GoString) :
    e.setField f (.string (encodeString s)) = some (e.withString f (sanitize s)) := by
  rw [← unquote_encodeString s]
  cases f <;> first | rfl | cases hf

theorem withString_string (e : Entry) (f : EntryField) : e.withString f (e.string f) = e := by
  cases f <;> rfl

/-- A field that is left out when it is empty is decoded as well. -/
theorem optionalMember_decoded (e acc : Entry) {f : EntryField} (hf : f.isString = true)
    (hempty : acc.string f = []) :
    (e.optionalMember f).foldlM setMember acc = some (acc.withString f (sanitize (e.string f))) := by
  unfold optionalMember optionalString
  split_ifs with hs
  · rw [hs, sanitize_nil, ← hempty, withString_string]
    rfl
  · have hmember : (encodeString f.key, Doc.string (encodeString (e.string f))) =
        member f (.string (encodeString (e.string f))) := rfl
    rw [hmember, List.foldlM_cons, setMember_member, setField_string _ hf]
    rfl

/-- An entry with neither attributes nor a source, whose strings are UTF-8 and whose timestamp
can be written, round-trips. -/
structure Plain (e : Entry) : Prop where
  attributes : e.attributes = none
  source : e.source = none
  strings : ∀ f, validString (e.string f) = true
  time : ∃ ts, e.timestamp.marshal = some ts
  zone : e.timestamp.reread = e.timestamp

theorem string_withString (e : Entry) {f g : EntryField} (h : f ≠ g) (s : GoString) :
    (e.withString f s).string g = e.string g := by
  cases f <;> cases g <;> first | rfl | exact absurd rfl h

/-- The members of a string: those of a field that is never left out, or at most one. -/
def stringMembers (e : Entry) (f : EntryField) : List (StringLit × Doc) :=
  if f = .schemaVersion ∨ f = .level ∨ f = .message then [e.stringMember f] else e.optionalMember f

theorem stringMembers_decoded {e : Entry} (h : e.Plain) (acc : Entry) {f : EntryField}
    (hf : f.isString = true) (hempty : acc.string f = []) :
    (e.stringMembers f).foldlM setMember acc = some (acc.withString f (e.string f)) := by
  have hsame : sanitize (e.string f) = e.string f := sanitize_of_valid (h.strings f)
  unfold stringMembers
  split_ifs
  · rw [List.foldlM_cons, stringMember, setMember_member, setField_string acc hf, hsame]
    rfl
  · rw [optionalMember_decoded e acc hf hempty, hsame]

theorem fields_decoded {e : Entry} (h : e.Plain) {fs : List EntryField}
    (hfs : ∀ f ∈ fs, f.isString = true) (hnodup : fs.Nodup) (acc : Entry)
    (hacc : ∀ f ∈ fs, acc.string f = []) :
    (fs.flatMap e.stringMembers).foldlM setMember acc =
      some (fs.foldl (fun acc f => acc.withString f (e.string f)) acc) := by
  induction fs generalizing acc with
  | nil => rfl
  | cons f fs ih =>
    rw [List.flatMap_cons, List.foldlM_append,
      stringMembers_decoded h acc (hfs f List.mem_cons_self) (hacc f List.mem_cons_self)]
    apply ih (fun g hg => hfs g (List.mem_cons_of_mem f hg)) hnodup.of_cons
    intro g hg
    rw [string_withString acc (by rintro rfl; exact hnodup.notMem hg)]
    exact hacc g (List.mem_cons_of_mem f hg)

/-- The fields after the timestamp that have a string. -/
def laterFields : List EntryField :=
  [.level, .serviceKind, .serviceInstance, .serviceRole, .message, .executionID, .stepID,
    .agentID, .requestID, .traceID, .spanID]

theorem marshal_plain {e : Entry} (h : e.Plain) {d : Doc} (hd : e.marshal = some d) :
    ∃ ts, e.timestamp.marshal = some ts ∧ d = .object (e.stringMember .schemaVersion ::
      member .timestamp (.string (encodeString ts)) :: laterFields.flatMap e.stringMembers) := by
  obtain ⟨ts, hts, rfl⟩ := Option.map_eq_some_iff.mp hd
  refine ⟨ts, hts, ?_⟩
  rw [h.attributes, h.source]
  simp [laterFields, stringMembers, attributesMember, sourceMember]

theorem decodeEntry_marshal {e : Entry} (h : e.Plain) {d : Doc} (hd : e.marshal = some d) :
    decodeEntry d = some e := by
  obtain ⟨ts, hts, rfl⟩ := marshal_plain h hd
  have htext : (encodeString ts).1 = ts := by
    apply encodeString_plain
    unfold Time.marshal at hts
    dsimp only at hts
    split_ifs at hts
    cases hts
    exact time_text_plain e.timestamp
  have hparse : parseTime ts = some e.timestamp := by rw [parseTime_marshal hts, h.zone]
  have hfirst : Entry.zero.setMember (e.stringMember .schemaVersion) =
      some { Entry.zero with schemaVersion := e.schemaVersion } := by
    rw [stringMember, setMember_member, setField_string _ rfl, sanitize_of_valid (h.strings _)]
    rfl
  have hempty : ∀ f ∈ laterFields, string { Entry.zero with
      schemaVersion := e.schemaVersion, timestamp := e.timestamp } f = [] := by
    intro f hf
    cases f <;> first | rfl | exact absurd hf (by decide)
  rw [decodeEntry, List.foldlM_cons, hfirst, Option.bind_eq_bind, Option.bind_some,
    List.foldlM_cons, setMember_member, setField, htext, hparse, Option.map_some,
    Option.bind_eq_bind, Option.bind_some, fields_decoded h (by decide) (by decide) _ hempty]
  obtain ⟨⟩ := e
  obtain rfl := h.attributes
  obtain rfl := h.source
  rfl

theorem membersDepth_stringMembers (e : Entry) (f : EntryField) :
    membersDepth (e.stringMembers f) = 0 := by
  unfold stringMembers optionalMember optionalString
  split_ifs <;> rfl

theorem Plain.roundTrips {e : Entry} (h : e.Plain) : ∃ line, e.RoundTrips line := by
  obtain ⟨ts, hts⟩ := h.time
  obtain ⟨d, hd⟩ : ∃ d, e.marshal = some d := ⟨_, by rw [marshal, hts, Option.map_some]⟩
  refine ⟨render d, by rw [line, hd, Option.map_some], ?_⟩
  have hdepth : d.depth ≤ maxNestingDepth := by
    obtain ⟨ts, -, rfl⟩ := marshal_plain h hd
    have hflat (fs : List EntryField) : membersDepth (fs.flatMap e.stringMembers) = 0 := by
      induction fs with
      | nil => rfl
      | cons f fs ih => rw [List.flatMap_cons, membersDepth_append, membersDepth_stringMembers, ih]; rfl
    simp only [Doc.depth, membersDepth, stringMember, member, hflat]
    decide
  have hparse := parse_render_append hdepth ends_nil
  rw [List.append_nil] at hparse
  rw [unmarshalEntry, hparse, Option.bind_some]
  exact decodeEntry_marshal h hd

theorem newline_not_mem_line {e : Entry} {s : GoString} (h : e.line = some s) : newline ∉ s := by
  obtain ⟨d, -, rfl⟩ := Option.map_eq_some_iff.mp h
  exact newline_not_mem_render d

end Entry
end Persatrix.LogBuffer
