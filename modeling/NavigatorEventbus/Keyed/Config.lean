import NavigatorEventbus.Queues.Config
import Mathlib.Algebra.Order.Ring.Rat

/-!
# Keyed-queue models

Configuration, messages and outcomes of a keyed queue (`queues/keyed/config.py`), and the errors its
operations raise.
-/

namespace NavigatorEventbus

/-- An ordering key. -/
abbrev Key := String

/-- A message id. -/
abbrev MsgId := String

/-- A message body, as the JSON text that is stored. -/
abbrev Body := String

/-- The id of a stream entry; Redis hands them out in increasing order. -/
abbrev EntryId := ℕ

/-- One keyed queue; `signal` is the embedded pull queue (exactly one group). -/
structure KeyedQueueConfig where
  name : String
  signal : QueueConfig
  lockTtlMs : ℤ := 60000
  maxAttempts : ℕ := 0
  maxAgeMs : Option ℤ := none
  retryBaseMs : ℤ := 30000
  retryMaxMs : ℤ := 900000
  retryFactor : ℚ := 2
  promoteBatch : ℕ := 100
  pauseDefaultTtlMs : ℤ := 60000
  recoverIntervalMs : ℤ := 60000
  waitSafetyMs : Option ℤ := none
  lockTtl_pos : 0 < lockTtlMs
  maxAge_pos : ∀ a, maxAgeMs = some a → 0 < a
  retryBase_pos : 0 < retryBaseMs
  retryFactor_ge : 1 ≤ retryFactor
  promoteBatch_pos : 0 < promoteBatch
  pauseDefaultTtl_pos : 0 < pauseDefaultTtlMs
  recoverInterval_pos : 0 < recoverIntervalMs
  waitSafety_pos : ∀ w, waitSafetyMs = some w → 0 < w
  single_group : signal.groups.length = 1
  /-- Signal lease must outlive the lock (signal rule 2). -/
  lockTtl_lt_visibility : lockTtlMs < signal.defaultVisibilityTimeoutMs
  retryBase_le_max : retryBaseMs ≤ retryMaxMs

namespace KeyedQueueConfig

/-- Deadline applied to a `wait` without `until_ms`. -/
def effectiveWaitSafetyMs (cfg : KeyedQueueConfig) : ℤ :=
  cfg.waitSafetyMs.getD (cfg.lockTtlMs * 10)

/-- The group of the signal queue. -/
def signalGroup (cfg : KeyedQueueConfig) : String :=
  (cfg.signal.groups.head cfg.signal.groups_ne).name

end KeyedQueueConfig

inductive MsgState where
  | pending
  | leased
  | waiting
  | held
  deriving DecidableEq, Repr

/-- A message as stored in `msg:<id>`. -/
structure KeyedMessage where
  messageId : MsgId
  key : Key
  body : Body
  order : ℚ
  createdMs : ℤ
  attempts : ℕ := 0
  state : MsgState := .pending
  lastError : Option String := none
  waitUntilMs : Option ℤ := none
  dueMs : Option ℤ := none
  gen : ℕ := 0
  deriving DecidableEq

/-- What a handler returns; applied by `apply`. -/
inductive Outcome where
  | ack
  | retry (delayMs : Option ℕ) (reason : Option String)
  | wait (untilMs : Option ℤ) (reason : Option String)
  | hold (reason : Option String)
  deriving DecidableEq

/-- Why a lease was lost. -/
inductive LostReason where
  | lockGone (key : Key)
  | messageGone (mid : MsgId)
  | generationChanged (mid : MsgId)
  | recreated (mid : MsgId)
  | superseded (key : Key)
  | changedWhileExpiring (key : Key)
  deriving DecidableEq

/-- The exceptions that the operations raise. -/
inductive Exc where
  | leaseLost (why : LostReason)
  | staleReceipt (entry : EntryId)
  | keyError (field : String)
  | valueError (what : String)
  | runtimeError (what : String)
  deriving DecidableEq

namespace Exc

def isLeaseLost : Exc → Bool
  | leaseLost _ => true
  | _ => false

end Exc

end NavigatorEventbus
