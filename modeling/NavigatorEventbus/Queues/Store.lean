import NavigatorEventbus.Queues.Config
import NavigatorEventbus.Redis.Server

/-!
# QueueStore

The request-scoped operations of the pull plane (`queues/store.py`): `send`, `receive` with its
reclaim, `delete` and `change_visibility`.  Times are in milliseconds; the signed form of a receipt
is left out.
-/

namespace NavigatorEventbus

open Interleave

/-- The claims carried inside a receipt handle. `delivered` is the lease generation. -/
structure Receipt where
  queue : String
  group : String
  stream : String
  messageId : EntryId
  consumer : String
  delivered : ℕ
  expiresAtMs : ℤ
  deriving DecidableEq

/-- One message handed out by `receive`. -/
structure DeliveredMessage where
  messageId : EntryId
  envelope : Envelope
  receipt : Receipt
  delivered : ℕ
  deriving DecidableEq

/-- An entry that a receive may hand out: its id, its fields and its delivery count. -/
abbrev Claimed := EntryId × Fields × ℕ

/-- A store: the prefix of its streams, its consumer name, and whether it has an `on_dlq`. -/
structure QueueStore where
  queuePrefix : String := "evb:queue:"
  consumer : String
  onDlq : Bool := true
  deriving DecidableEq

namespace QueueStore

variable (store : QueueStore) (cfg : QueueConfig)

/-- Redis stream key backing a queue. -/
def streamFor (queue : String) : String := store.queuePrefix ++ queue

/-- Append an envelope to the queue's stream. -/
def send (envelope : Envelope) : Script EntryId :=
  .stream (.xadd (store.streamFor cfg.name) (encode envelope) cfg.maxlen)

/-- Best-effort `XACK`. -/
def ack (stream group : String) (messageId : EntryId) : Script Unit := do
  let _ ← Script.stream (.xack stream group messageId)
  return ()

/-- Hand a poison message to the DLQ, then ACK it terminally. -/
def parkToDlq (group stream : String) (messageId : EntryId) (fields : Fields) (attempts : ℕ) :
    Script Unit := do
  if store.onDlq then
    match decode fields with
    | none => pure ()
    | some envelope =>
      Script.stream (.onDlq envelope attempts
        s!"exceeded max_receives={cfg.receivesCap group}" s!"{stream}:{group}")
  Script.stream (.warnParked stream group messageId attempts)
  ack stream group messageId

/-- Counts of the `XPENDING` scan: the entry for `messageId`, when the scan listed it. -/
def seenCount (seen : List (EntryId × ℕ)) (messageId : EntryId) : Option ℕ := seen.lookup messageId

/-- The entries of the `XPENDING` scan that are over the cap. -/
def overCap (cap : ℕ) (seen : List (EntryId × ℕ)) (messageId : EntryId) : Option ℕ :=
  (seenCount seen messageId).filter fun n => cap < n

/-- The reclaimed entries, one after another: parked when over the cap, else usable. -/
def sortReclaimed (group stream : String) (seen : List (EntryId × ℕ)) :
    List (EntryId × Fields) → Script (List Claimed)
  | [] => pure []
  | (messageId, fields) :: rest =>
    match overCap (cfg.receivesCap group) seen messageId with
    | some n => do
      store.parkToDlq cfg group stream messageId fields n
      sortReclaimed group stream seen rest
    | none => do
      let usable ← sortReclaimed group stream seen rest
      -- XAUTOCLAIM increments the counter, hence the +1.
      return (messageId, fields, (seenCount seen messageId).getD 0 + 1) :: usable

/-- The second half of a reclaim, after its `XPENDING`. -/
def claimExpired (group stream : String) (thresholdMs : ℤ) (count : ℕ)
    (seen : List (EntryId × ℕ)) : Script (List Claimed) := do
  match ← Script.stream (.xautoclaim stream group store.consumer thresholdMs count) with
  | none => return []
  | some entries => store.sortReclaimed cfg group stream seen entries

/-- Reclaim expired leases, parking poison messages to the DLQ. -/
def reclaim (group stream : String) (thresholdMs : ℤ) (count : ℕ) : Script (List Claimed) := do
  match ← Script.stream (.xpendingIdle stream group count thresholdMs) with
  | none => return []
  | some seen => store.claimExpired cfg group stream thresholdMs count seen

/-- Read never-before-delivered entries. -/
def readNew (stream group : String) (count : ℕ) : Script (List Claimed) := do
  let entries ← Script.stream (.xreadgroup stream group store.consumer count)
  return entries.map fun e => (e.1, e.2, 1)

/-- Offset each entry's idle clock so its lease ends in `leaseMs`. -/
def applyVisibility (stream group : String) (messageIds : List EntryId) (thresholdMs leaseMs : ℤ) :
    Script Unit :=
  if messageIds = [] ∨ thresholdMs ≤ leaseMs then pure ()
  else do
    let _ ← Script.stream
      (.xclaim stream group store.consumer messageIds (max 0 (thresholdMs - leaseMs)))
    return ()

/-- The messages of the claimed entries, one after another; an entry that cannot be decoded is ACKed
to stop it blocking the group. -/
def deliver (group stream : String) (expiresAt : ℤ) : List Claimed → Script (List DeliveredMessage)
  | [] => pure []
  | (messageId, fields, count) :: rest =>
    match decode fields with
    | none => do
      ack stream group messageId
      deliver group stream expiresAt rest
    | some envelope => do
      let delivered ← deliver group stream expiresAt rest
      return {
        messageId, envelope
        receipt := {
          queue := cfg.name, group, stream, messageId, consumer := store.consumer
          delivered := count, expiresAtMs := expiresAt }
        delivered := count } :: delivered

/-- Lease up to `maxMessages` messages for `group`. -/
def receive (group : String) (maxMessages : ℕ) (visibilityMs : Option ℤ) :
    Script (List DeliveredMessage) := do
  let stream := store.streamFor cfg.name
  let threshold := cfg.maxVisibilityTimeoutMs
  let leaseMs := visibilityMs.getD cfg.defaultVisibilityTimeoutMs
  Script.stream (.xgroupCreate stream group)
  let reclaimed ← store.reclaim cfg group stream threshold maxMessages
  let fresh ←
    if 0 < maxMessages - reclaimed.length then
      store.readNew stream group (maxMessages - reclaimed.length)
    else pure []
  if reclaimed ++ fresh = [] then return []
  store.applyVisibility stream group ((reclaimed ++ fresh).map Prod.fst) threshold leaseMs
  let now ← Script.now
  store.deliver cfg group stream (now + leaseMs) (reclaimed ++ fresh)

/-- Whether the message was reclaimed since the handle was minted. -/
def leaseSuperseded (receipt : Receipt) : Script Bool := do
  match ← Script.stream (.xpendingEntry receipt.stream receipt.group receipt.messageId) with
  | none => return false
  | some pending => return pending.any fun e => receipt.delivered < e.timesDelivered

/-- The commands of a delete once its receipt is accepted: `XACK`, and `XDEL` when opted in. -/
def removeEntry (receipt : Receipt) : Script Unit := do
  ack receipt.stream receipt.group receipt.messageId
  if cfg.deleteEntries then
    let _ ← Script.stream (.xdel receipt.stream receipt.messageId)

/-- Acknowledge a message, removing it from the group's pending list. -/
def delete (receipt : Receipt) : Script (Except Exc Unit) := do
  let stale ← if cfg.strictAck then leaseSuperseded receipt else pure false
  if stale then return .error (.staleReceipt receipt.messageId)
  removeEntry cfg receipt
  return .ok ()

/-- Extend or shorten a message's lease; `none` when the command failed. -/
def changeVisibility (receipt : Receipt) (visibilityMs : ℤ) : Script (Option Unit) :=
  .stream (.xclaim receipt.stream receipt.group receipt.consumer [receipt.messageId]
    (if visibilityMs ≤ 0 then cfg.maxVisibilityTimeoutMs
      else max 0 (cfg.maxVisibilityTimeoutMs - visibilityMs)))

end QueueStore

end NavigatorEventbus
