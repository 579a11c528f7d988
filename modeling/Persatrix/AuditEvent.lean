import Persatrix.JsonValues
import Persatrix.Timestamps

/-!
# Audit events

The event as it is written to a line, read from one, and put into the form that is hashed.
`sha256` is a parameter.
-/
namespace Persatrix.Security
open Json

structure AuditEvent where
  timestamp : Time
  correlationID : GoString
  eventType : GoString
  agentID : GoString
  action : GoString
  resource : GoString
  outcome : GoString
  /-- The entries of a map that is not nil. -/
  detail : Option (List (GoString × Any))
  checksum : GoString

def AuditEvent.zero : AuditEvent := ⟨Time.zero, [], [], [], [], [], [], none, []⟩

/-- The keys of the fields in JSON. -/
inductive AuditField where
  | timestamp | correlationID | eventType | agentID | action | resource | outcome | detail
  | checksum
deriving DecidableEq

namespace AuditField

def all : List AuditField :=
  [.timestamp, .correlationID, .eventType, .agentID, .action, .resource, .outcome, .detail,
    .checksum]

def key : AuditField → GoString
  | .timestamp => ascii "timestamp"
  | .correlationID => ascii "correlation_id"
  | .eventType => ascii "event_type"
  | .agentID => ascii "agent_id"
  | .action => ascii "action"
  | .resource => ascii "resource"
  | .outcome => ascii "outcome"
  | .detail => ascii "detail"
  | .checksum => ascii "checksum"

end AuditField

/-- The text of a string with the letters of ASCII, and the two characters that fold to them,
in upper case. -/
def foldName : GoString → GoString
  | [] => []
  | 0xC5 :: 0xBF :: s => 83 :: foldName s
  | 0xE2 :: 0x84 :: 0xAA :: s => 75 :: foldName s
  | b :: s => (if 97 ≤ b.toNat ∧ b.toNat ≤ 122 then b - 32 else b) :: foldName s

/-- The field a key stands for, by its name or without regard to case. -/
def AuditField.lookup (key : GoString) : Option AuditField :=
  (all.find? fun f => f.key = key).or (all.find? fun f => foldName f.key = foldName key)

def AuditEvent.withString (ev : AuditEvent) (f : AuditField) (s : GoString) : AuditEvent :=
  match f with
  | .correlationID => { ev with correlationID := s }
  | .eventType => { ev with eventType := s }
  | .agentID => { ev with agentID := s }
  | .action => { ev with action := s }
  | .resource => { ev with resource := s }
  | .outcome => { ev with outcome := s }
  | .checksum => { ev with checksum := s }
  | .timestamp | .detail => ev

/-- The event after a member was decoded into the field; `null` leaves a field as it is, and a
map nil. -/
def AuditEvent.setField (ev : AuditEvent) (f : AuditField) (d : Doc) : Option AuditEvent :=
  match f with
  | .timestamp =>
    match d with
    | .null => some ev
    | .string s => (parseTime s.1).map fun t => { ev with timestamp := t }
    | _ => none
  | .detail =>
    match d with
    | .null => some { ev with detail := none }
    | .object members =>
      (decodeMembers members).map fun es =>
        { ev with detail := some (sortEntries (ev.detail.getD [] ++ es)) }
    | _ => none
  | f =>
    match d with
    | .null => some ev
    | .string s => some (ev.withString f (unquote s.1))
    | _ => none

def AuditEvent.setMember (ev : AuditEvent) (m : StringLit × Doc) : Option AuditEvent :=
  match AuditField.lookup (unquote m.1.1) with
  | none => some ev
  | some f => ev.setField f m.2

/-- The event a document is decoded to. -/
def decodeEvent : Doc → Option AuditEvent
  | .null => some AuditEvent.zero
  | .object members => members.foldlM AuditEvent.setMember AuditEvent.zero
  | _ => none

/-- The string of a field; the timestamp and the detail have none. -/
def AuditEvent.string (ev : AuditEvent) : AuditField → GoString
  | .correlationID => ev.correlationID
  | .eventType => ev.eventType
  | .agentID => ev.agentID
  | .action => ev.action
  | .resource => ev.resource
  | .outcome => ev.outcome
  | .checksum => ev.checksum
  | .timestamp | .detail => []

def member (f : AuditField) (d : Doc) : StringLit × Doc := (encodeString f.key, d)

def AuditEvent.stringMember (ev : AuditEvent) (f : AuditField) : StringLit × Doc :=
  member f (.string (encodeString (ev.string f)))

/-- The line of an event, where a detail without entries is left out; an event whose timestamp
does not fit has none. -/
def AuditEvent.marshal (ev : AuditEvent) : Option Doc :=
  ev.timestamp.marshal.map fun ts =>
    .object ([member .timestamp (.string (encodeString ts)), ev.stringMember .correlationID,
      ev.stringMember .eventType, ev.stringMember .agentID, ev.stringMember .action,
      ev.stringMember .resource, ev.stringMember .outcome] ++
      (match ev.detail with
        | none | some [] => []
        | some es => [member .detail (Json.marshal (.map es))]) ++ [ev.stringMember .checksum])

/-- The entries in ascending order of their keys, as pairs. -/
def sortMap (es : List (GoString × Any)) : Doc :=
  .array ((sortEntries (marshalEntries es)).map fun e => .array [.string (encodeString e.1), e.2])

/-- What of an event is hashed. -/
def AuditEvent.canonicalFields (ev : AuditEvent) : List (GoString × Doc) :=
  let text (f : AuditField) : GoString × Doc := (f.key, .string (encodeString (ev.string f)))
  sortEntries
    ([(AuditField.timestamp.key, .string (encodeString ev.timestamp.utcText)),
      text .correlationID, text .eventType, text .agentID, text .action, text .resource,
      text .outcome] ++
      match ev.detail with
      | none => []
      | some es => [(AuditField.detail.key, sortMap es)])

def equals : UInt8 := 61

def bar : UInt8 := 124

def segment (f : GoString × Doc) : GoString := f.1 ++ equals :: (render f.2 ++ [bar])

/-- The text whose checksum chains an event to the one before. -/
def canonicalEventJSON (ev : AuditEvent) (prevChecksum : GoString) : GoString :=
  ascii "prev=" ++ (decimal prevChecksum.length ++ colon :: (prevChecksum ++
    bar :: ev.canonicalFields.flatMap segment))

abbrev Digest := {s : GoString // s.length = 32}

def hexString (s : GoString) : GoString :=
  s.flatMap fun b => [hexDigit (b.toNat / 16), hexDigit (b.toNat % 16)]

def looksLikeSHA256 (s : GoString) : Bool := s.length = 64 && s.all isHex

section Chain
variable (sha256 : GoString → Digest)

def checksumOf (s : GoString) : GoString := hexString (sha256 s).1

def emptyChecksum : GoString := checksumOf sha256 []

/-- What is wrong with a line. -/
inductive LineError where
  | decode
  | malformed (recorded : GoString)
  | mismatch (recorded computed : GoString)
deriving DecidableEq

/-- Checks the event on a line, after the checksum of the line before. -/
def checkLine (prevSum : GoString) (ev : AuditEvent) : Except LineError Unit :=
  if !looksLikeSHA256 ev.checksum then .error (.malformed ev.checksum)
  else
    let got := checksumOf sha256 (canonicalEventJSON ev prevSum)
    if got ≠ ev.checksum then .error (.mismatch ev.checksum got) else .ok ()

/-- Checks the lines from some line on, in at most the given number of turns; the error carries
the number of the line. -/
def verifyLines : ℕ → GoString → ℕ → GoString → Except (ℕ × LineError) Unit
  | 0, _, _, _ => .ok ()
  | turns + 1, prevSum, lineNo, s =>
    match next s with
    | none => .ok ()
    | some (b, _) =>
      if b = closeBracket ∨ b = closeBrace then .ok ()
      else
        match (parse s).bind fun p => (decodeEvent p.1).map fun ev => (ev, p.2) with
        | none => .error (lineNo + 1, .decode)
        | some (ev, rest) =>
          match checkLine sha256 prevSum ev with
          | .error e => .error (lineNo + 1, e)
          | .ok () => verifyLines turns ev.checksum (lineNo + 1) rest

/-- The check of a whole file. -/
def verifyChain (file : GoString) : Except (ℕ × LineError) Unit :=
  verifyLines sha256 file.length (emptyChecksum sha256) 0 file

/-! ### Emitting -/

/-- The redactor of a logger. A detail that is not redacted to a map has none. -/
structure Redactor where
  redact : GoString → GoString
  redactStruct : List (GoString × Any) → Option (List (GoString × Any))

/-- The event that is hashed and written. -/
def prepare (redactor : Option Redactor) (now : Time) (ev : AuditEvent) : AuditEvent :=
  let ev := if ev.timestamp.isZero then { ev with timestamp := now.utc } else ev
  match redactor with
  | none => ev
  | some r =>
    { ev with
      action := r.redact ev.action
      resource := r.redact ev.resource
      detail := ev.detail.map fun es =>
        (r.redactStruct es).getD [(ascii "_redacted", .string (ascii "depth-exceeded"))] }

/-- The checksum of the last event, and what was written. -/
structure AuditLogger where
  prevChecksum : GoString
  written : GoString

def newline : UInt8 := 10

/-- Writes an event that is ready to be hashed. -/
def record (l : AuditLogger) (ev : AuditEvent) : Option AuditLogger :=
  let checksum := checksumOf sha256 (canonicalEventJSON ev l.prevChecksum)
  ({ ev with checksum := checksum }).marshal.map fun line =>
    ⟨checksum, l.written ++ render line ++ [newline]⟩

def emit (redactor : Option Redactor) (now : Time) (l : AuditLogger) (ev : AuditEvent) :
    Option AuditLogger :=
  record sha256 l (prepare redactor now ev)

end Chain
end Persatrix.Security
