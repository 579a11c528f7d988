import Persatrix.GoValues

/-!
# Channel messages

The metadata bag of a publish is a map from strings to values of any type. Its readers
are tolerant: a value of another type reads as if the key were absent. A number stands
for every numeric type, by the integer it converts to.
-/
namespace Persatrix.Channels

inductive MetadataValue where
  | str (s : String)
  | bool (b : Bool)
  | number (n : ℤ)
  | other
deriving DecidableEq

abbrev Metadata := GoMap String MetadataValue

structure ChannelMessage where
  channelID : String
  senderID : String
  threadID : String := ""
  mentions : List String := []
  metadata : Metadata := ∅

def interactionIDMetadataKey : String := "interaction_id"
def interactionIDMaxBytes : ℕ := 128
def participantTypeMetadataKey : String := "participant_type"
def endVoteMetadataKey : String := "end_interaction_vote"

def readBoundedIDValue (metadata : Metadata) (key : String) : String :=
  match metadata.lookup key with
  | some (.str v) => if interactionIDMaxBytes < v.utf8ByteSize then "" else v
  | _ => ""

def readInteractionID (metadata : Metadata) : String :=
  readBoundedIDValue metadata interactionIDMetadataKey

def readParticipantType (metadata : Metadata) : String :=
  match metadata.lookup participantTypeMetadataKey with
  | some (.str v) => v
  | _ => ""

def readEndInteractionVote (metadata : Metadata) : Bool :=
  match metadata.lookup endVoteMetadataKey with
  | some (.bool v) => v
  | _ => false

namespace ChannelMessage

def interactionID (msg : ChannelMessage) : String := readInteractionID msg.metadata

def isVote (msg : ChannelMessage) : Bool := readEndInteractionVote msg.metadata

end ChannelMessage
end Persatrix.Channels
