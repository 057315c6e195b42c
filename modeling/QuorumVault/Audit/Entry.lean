import QuorumVault.Audit.Uuid
import QuorumVault.Json.Decode
import QuorumVault.Time.Rfc3339

/-!
# Audit entries

One entry tells of one event in the life of a vault: what happened and when, how many shares were
pending, further details, and the cause if it was a failure. No entry holds key material.
-/

namespace QuorumVault

/-- What an entry tells of. -/
inductive EventKind where
  | unsealStarted
  | unsealed
  | sealed
  | shareAccepted
  | shareRejected
  | unwrapFailed
  /-- The master key was handed to a peer. -/
  | provisioningServed
  /-- A peer came too late. -/
  | provisioningDeclined
  /-- A peer was refused. -/
  | provisioningRejected
  /-- A peer was asked for the master key. -/
  | provisioningRequested
  /-- The master key was taken over from a peer. -/
  | provisioned
deriving DecidableEq

namespace EventKind

def all : List EventKind :=
  [.unsealStarted, .unsealed, .sealed, .shareAccepted, .shareRejected, .unwrapFailed,
    .provisioningServed, .provisioningDeclined, .provisioningRejected, .provisioningRequested,
    .provisioned]

def name : EventKind → String
  | .unsealStarted => "unseal_started"
  | .unsealed => "unsealed"
  | .sealed => "sealed"
  | .shareAccepted => "share_accepted"
  | .shareRejected => "share_rejected"
  | .unwrapFailed => "unwrap_failed"
  | .provisioningServed => "provisioning_served"
  | .provisioningDeclined => "provisioning_declined"
  | .provisioningRejected => "provisioning_rejected"
  | .provisioningRequested => "provisioning_requested"
  | .provisioned => "provisioned"

def shown : EventKind → String
  | .unsealStarted => "UnsealStarted"
  | .unsealed => "Unsealed"
  | .sealed => "Sealed"
  | .shareAccepted => "ShareAccepted"
  | .shareRejected => "ShareRejected"
  | .unwrapFailed => "UnwrapFailed"
  | .provisioningServed => "ProvisioningServed"
  | .provisioningDeclined => "ProvisioningDeclined"
  | .provisioningRejected => "ProvisioningRejected"
  | .provisioningRequested => "ProvisioningRequested"
  | .provisioned => "Provisioned"

def toJson (kind : EventKind) : Json := .string kind.name

def reader (form : Decode.Form) : Decode.Reader EventKind :=
  Decode.oneOf form (all.map fun kind => (kind.name, kind))

end EventKind

/-- What an entry takes from its surroundings. -/
structure Stamp where
  identifier : Octets 16
  time : Timestamp

/-- An entry. -/
structure Entry where
  id : String
  time : Timestamp
  kind : EventKind
  shareCount : Option Nat
  details : Option Json
  success : Bool
  error : Option String

namespace Entry

def ofStamp (stamp : Stamp) (kind : EventKind) : Entry :=
  ⟨Uuid.ofOctets stamp.identifier, stamp.time, kind, none, none, true, none⟩

/-- The entry with a number of pending shares. -/
def withShareCount (e : Entry) (count : Nat) : Entry := { e with shareCount := some count }

def withDetails (e : Entry) (details : Json) : Entry := { e with details := some details }

def failed (e : Entry) (cause : String) : Entry := { e with success := false, error := some cause }

/-! ### JSON -/

def toJson (e : Entry) : Json :=
  .object [("event_id", .string e.id), ("timestamp", .string e.time.text),
    ("event_type", e.kind.toJson), ("share_count", .option .nat e.shareCount),
    ("details", e.details.getD .null), ("success", .bool e.success),
    ("error", .option .string e.error)]

/-- The timestamp that a text denotes, with the wording of its faults. -/
def timeOfText? (text : String) : Except String Timestamp :=
  match Timestamp.ofText? text with
  | .ok time => .ok time
  | .error fault => .error fault.message

def record (form : Decode.Form) : Decode.Record Entry :=
  Entry.mk <$> .required "event_id" Decode.text
    <*> .required "timestamp"
      (Decode.parsedAs "an RFC 3339 formatted date and time string" timeOfText?)
    <*> .required "event_type" (EventKind.reader form)
    <*> .optional "share_count" .named Decode.count
    <*> .optional "details" .named Decode.any
    <*> .required "success" Decode.flag
    <*> .optional "error" .named Decode.text

def reader (form : Decode.Form) : Decode.Reader Entry := (record form).read form "AuditEvent"

end Entry

end QuorumVault
