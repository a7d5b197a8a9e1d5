import NavigatorEventbus.Lib.Double
import NavigatorEventbus.Queues.Store
import Mathlib.Data.List.Dedup

/-!
# KeyedQueue

The operations of a keyed queue (`queues/keyed/store.py`): per-key FIFO, one in flight per key,
fenced outcomes.  The signal stream only carries hints that a key may have work; the sorted set of a
key is the real order, and its lock with the fenced transactions is the real mutual exclusion.  Every
atomic step is one command or one transaction.  The scores of the default order are computed in double
precision; retry delays are exact rationals here.
-/

namespace NavigatorEventbus

open Interleave

/-- How many signals one `lease` call may burn through before giving up. -/
def maxSignalsPerLease : ℕ := 16

/-- Pipeline chunk of `recover`. -/
def pipelineChunk : ℕ := 500

/-- Capped exponential delay; no failed attempts give `baseMs`. -/
def backoffMs (attempts : ℕ) (baseMs maxMs : ℤ) (factor : ℚ) : ℤ :=
  if maxMs ≤ baseMs then maxMs
  else if attempts = 0 ∨ factor ≤ 1 then baseMs
  else if (maxMs : ℚ) ≤ baseMs * factor ^ attempts then maxMs
  else (min (maxMs : ℚ) (baseMs * factor ^ attempts)).floor

/-- A keyed queue: its configuration, the store of its signal stream, whether it has an `on_dlq`, and
its consumer name. -/
structure KeyedQueue where
  config : KeyedQueueConfig
  store : QueueStore
  onDlq : Bool := true
  consumer : String

/-- The head of one key, leased under its lock. -/
structure KeyedLease where
  key : Key
  message : KeyedMessage
  lock : Token
  gen : ℕ
  receipt : Option Receipt
  deriving DecidableEq

/-- How an attempt to lease a key ended. -/
inductive LeaseReason where
  | leased
  | busy
  | empty
  | held
  | waiting
  deriving DecidableEq

/-- The deadline before which the head may not be leased, or `0`. -/
def KeyedMessage.deadline (message : KeyedMessage) (ignoreDue : Bool) (now : ℤ) : ℤ :=
  let wait :=
    if message.state = .waiting ∧ now < message.waitUntilMs.getD 0 then message.waitUntilMs.getD 0
    else 0
  if ignoreDue = false ∧ now < message.dueMs.getD 0 then max wait (message.dueMs.getD 0) else wait

namespace KeyedQueue

variable (q : KeyedQueue)

/-! ## Helpers -/

/-- Record a signal of `key` as live for one visibility window. -/
def markSignal (key : Key) (entry : EntryId) : Script Unit := do
  let now ← Script.now
  let window := q.config.signal.defaultVisibilityTimeoutMs
  Script.stream (.zaddSig key entry (now + window))
  Script.stream (.pexpireSig key (window * 2))

/-- Send one wake-up hint for `key`, and mark it live for `recover`. -/
def signal (key : Key) : Script Unit := do
  let entry ← q.store.send q.config.signal
    { topic := s!"keyed.{q.config.name}.signal", payload := [("key", key)] }
  q.markSignal key entry

/-- Delete a signal. That it was stale only means that the pull plane reclaimed it. -/
def ackSignal (receipt : Option Receipt) (key : Option Key) : Script Unit :=
  match receipt with
  | none => pure ()
  | some receipt => do
    let _ ← QueueStore.delete q.config.signal receipt
    match key with
    | none => pure ()
    | some key => Script.stream (.zremSig key receipt.messageId)

/-- Whether an undelivered signal entry actually exists. -/
def hasBacklog : Script Bool := do
  let stream := q.store.streamFor q.config.signal.name
  match ← Script.stream (.xinfoGroup stream q.config.signalGroup) with
  | none => return false
  | some none => Script.stream (.xrangeAfter stream 0)
  | some (some (last, lag)) =>
    if lag = some 0 then return false else Script.stream (.xrangeAfter stream last)

/-- Release a lock, tolerating one that already expired. -/
def release (key : Key) (lock : Token) : Script Unit := do
  let _ ← Script.keyed (.release key lock)
  return ()

/-- Best-effort `on_dlq` handoff; without an `on_dlq` the body is logged. -/
def handoffDlq (message : KeyedMessage) (error : String) : Script Unit :=
  if q.onDlq then Script.keyed (.onDlq { message, error })
  else Script.keyed (.logDropped { message, error })

/-- Guarded `SREM keys`: only while the index of the key is really empty. -/
def dropKeyIfEmpty (key : Key) : (tries : ℕ) → Script Bool
  | 0 => return false
  | tries + 1 => do
    let w ← Script.keyed (.watch [.key key])
    let n ← Script.keyed (.zcard key)
    if 0 < n then return false
    if ← Script.keyed (.exec w (.dropKey key)) then return true
    dropKeyIfEmpty key tries

/-- What remains of a fence once the message is read. -/
def checkFence (mid : MsgId) (gen : Option ℕ) (createdMs : Option ℤ) (w : Watch) (raw : MsgHash) :
    Except Exc (Watch × KeyedMessage) :=
  match toMessage raw mid with
  | .error e => .error e
  | .ok current =>
    if gen.any (· ≠ current.gen) then .error (.leaseLost (.generationChanged mid))
    else if createdMs.any (· ≠ current.createdMs) then .error (.leaseLost (.recreated mid))
    else .ok (w, current)

/-- `WATCH` lock and message, then check token, generation and identity. -/
def verifyFence (lock : Token) (key : Key) (mid : MsgId) (gen : Option ℕ) (createdMs : Option ℤ) :
    Script (Except Exc (Watch × KeyedMessage)) := do
  let w ← Script.keyed (.watch [.lock key, .msg mid])
  let stored ← Script.keyed (.getLock key)
  if stored ≠ some lock then return .error (.leaseLost (.lockGone key))
  match ← Script.keyed (.hgetall mid) with
  | none => return .error (.leaseLost (.messageGone mid))
  | some raw => return checkFence mid gen createdMs w raw

/-- The end of a reconcile: the head is not held. -/
def reconcileHead (key : Key) (mid : MsgId) (raw : MsgHash) : Script (Except Exc Bool) :=
  match toMessage raw mid with
  | .error e => return .error e
  | .ok message => do
    let now ← Script.now
    let deadline := message.deadline false now
    if deadline ≠ 0 then
      let _ ← Script.keyed (.write (.zaddDelayed key deadline))
      return .ok false
    let _ ← Script.keyed (.write (.zremDelayed key))
    q.signal key
    return .ok true

/-- Make `delayed` reflect the current head of `key`: nothing for a held head, its deadline for one
that is waiting or not due, a signal for one that is leasable now; an empty key is dropped. -/
def reconcile (key : Key) : Script (Except Exc Bool) := do
  match ← Script.keyed (.zrangeHead key) with
  | none =>
    let _ ← dropKeyIfEmpty key 2
    return .ok false
  | some mid =>
    match ← Script.keyed (.hgetall mid) with
    | none =>
      -- dangling member: a lease attempt repairs it
      q.signal key
      return .ok true
    | some raw =>
      if (← Script.keyed (.hgetHeld key)).isSome then
        let _ ← Script.keyed (.write (.zremDelayed key))
        return .ok false
      q.reconcileHead key mid raw

/-! ## Push -/

/-- The default score: the enqueue time, or a little more than the last one when that is later. -/
def defaultScore (now : ℤ) : Option ℚ → ℚ
  | none => Double.round now
  | some last => max (Double.round now) (Double.round (last + 1 / 1024))

/-- The score of a push: the given order, or the default one. -/
def pushScore (now : ℤ) (order : Option ℚ) : Script ℚ :=
  match order with
  | some order => return order
  | none => do
    let last ← Script.keyed .getLastscore
    return defaultScore now last

/-- The tries of a push, until one is not overtaken. -/
def pushTries (key : Key) (mid : MsgId) (body : Body) (order : Option ℚ) (now : ℤ) :
    (tries : ℕ) → Script (Except Exc Unit)
  | 0 => return .error (.runtimeError s!"push of {mid} lost 64 WATCH races")
  | tries + 1 => do
    let w ← Script.keyed (.watch (.msg mid :: if order.isNone then [.lastscore] else []))
    match ← Script.keyed (.hgetKey mid) with
    | some existing =>
      if existing ≠ key then
        return .error
          (.valueError s!"message_id {mid} already exists under key {existing}, not {key}")
      return .ok ()
    | none =>
      let score ← pushScore now order
      if ← Script.keyed (.exec w (.push key mid body score now order.isNone)) then return .ok ()
      pushTries key mid body order now tries

/-- Enqueue `body` under `key` and send a wake-up signal; an id that exists changes nothing. -/
def push (key : Key) (body : Body) (mid : MsgId) (order : Option ℚ) :
    Script (Except Exc MsgId) := do
  let now ← Script.now
  match ← pushTries key mid body order now 64 with
  | .error e => return .error e
  | .ok () =>
    q.signal key
    return .ok mid

/-! ## Expiry -/

/-- The transaction of `expire_head`, fenced like an outcome. -/
def expireFenced (key : Key) (message : KeyedMessage) (lock : Token) (own : Bool) :
    Script (Except Exc Bool) := do
  match ← verifyFence lock key message.messageId (some message.gen) (some message.createdMs) with
  | .error e => return .error e
  | .ok (w, _) =>
    q.handoffDlq message "expired: max_age_ms exceeded"
    let held ← Script.keyed (.hgetHeld key)
    let unhold := held.any fun h => h.messageId = message.messageId
    if ← Script.keyed (.exec w (.expire key message.messageId lock unhold own)) then
      return .ok true
    return .error (.leaseLost (.changedWhileExpiring key))

/-- Expire `message` when it is older than `max_age_ms`, under the caller's lock or one of its own. -/
def expireHead (key : Key) (message : KeyedMessage) (lock : Option Token) :
    Script (Except Exc Bool) :=
  match q.config.maxAgeMs with
  | none => return .ok false
  | some maxAge => do
    let now ← Script.now
    if now ≤ message.createdMs + maxAge then return .ok false
    match lock with
    | some lock => q.expireFenced key message lock false
    | none =>
      match ← Script.keyed (.acquire key q.config.lockTtlMs) with
      | none => return .ok false
      | some own =>
        let r ← q.expireFenced key message own true
        release key own
        return r

/-! ## Lease -/

/-- The end of a lease attempt on the head: held, waiting, or leased in one fenced transaction. -/
def leaseHead (key : Key) (lock : Token) (receipt : Option Receipt) (ignoreDue : Bool) (mid : MsgId)
    (message : KeyedMessage) (now : ℤ) : Script (Except Exc (Option KeyedLease × LeaseReason)) := do
  if (← Script.keyed (.hgetHeld key)).isSome then return .ok (none, .held)
  let deadline := message.deadline ignoreDue now
  if deadline ≠ 0 then
    let _ ← Script.keyed (.write (.zaddDelayed key deadline))
    return .ok (none, .waiting)
  match ← verifyFence lock key mid (some message.gen) (some message.createdMs) with
  | .error e => if e.isLeaseLost then return .ok (none, .busy) else return .error e
  | .ok (w, _) =>
    if ← Script.keyed (.exec w (.lease key mid lock message.gen ignoreDue now)) then
      return .ok (some {
        key, lock, receipt, gen := message.gen + 1
        message := { message with
          gen := message.gen + 1, state := .leased, waitUntilMs := none, dueMs := none } }, .leased)
    return .ok (none, .busy)

/-- Examine heads under the lock until one is leased or decides the attempt. -/
def leaseLocked (key : Key) (lock : Token) (receipt : Option Receipt) (ignoreDue : Bool) :
    (fuel : ℕ) → Script (Except Exc (Option KeyedLease × LeaseReason))
  | 0 => .hang
  | fuel + 1 => do
    match ← Script.keyed (.zrangeHead key) with
    | none =>
      let _ ← dropKeyIfEmpty key 2
      return .ok (none, .empty)
    | some mid =>
      match ← Script.keyed (.hgetall mid) with
      | none =>
        -- dangling member (hash lost): repair and continue
        let _ ← Script.keyed (.write (.zremKey key mid))
        let _ ← Script.keyed (.write (.zremAll mid))
        leaseLocked key lock receipt ignoreDue fuel
      | some raw =>
        match toMessage raw mid with
        | .error e => return .error e
        | .ok message =>
          let now ← Script.now
          match ← q.expireHead key message (some lock) with
          | .ok true => leaseLocked key lock receipt ignoreDue fuel
          | .ok false => leaseHead key lock receipt ignoreDue mid message now
          | .error e => if e.isLeaseLost then return .ok (none, .busy) else return .error e

/-- Lease one key, with the reason for a refusal. `ignoreDue` skips the retry delay, but never a
`wait` deadline. -/
def leaseKeyDetailed (key : Key) (receipt : Option Receipt) (ignoreDue : Bool) (fuel : ℕ) :
    Script (Except Exc (Option KeyedLease × LeaseReason)) := do
  match ← Script.keyed (.acquire key q.config.lockTtlMs) with
  | none =>
    q.ackSignal receipt (some key)
    return .ok (none, .busy)
  | some lock =>
    match ← q.leaseLocked key lock receipt ignoreDue fuel with
    | .error e =>
      release key lock
      return .error e
    | .ok (some lease, reason) => return .ok (some lease, reason)
    | .ok (none, reason) =>
      release key lock
      q.ackSignal receipt (some key)
      return .ok (none, reason)

/-- The key of a signal; a payload without one, or with the empty key, has none. -/
def signalKey (envelope : Envelope) : Option Key := (envelope.payload.lookup "key").filter (· ≠ "")

/-- The attempts of a lease, one signal each. -/
def leaseTries (fuel : ℕ) : (tries : ℕ) → Script (Except Exc (Option KeyedLease))
  | 0 => return .ok none
  | tries + 1 => do
    if (← Script.stream .getPaused).isSome then return .ok none
    match ← q.store.receive q.config.signal q.config.signalGroup 1 none with
    | [] => return .ok none
    | item :: _ =>
      if (← Script.stream .getPaused).isSome then
        -- a pause set while the receive was in flight: hand the signal straight back
        let _ ← QueueStore.changeVisibility q.config.signal item.receipt 0
        return .ok none
      match signalKey item.envelope with
      | none =>
        q.ackSignal item.receipt none
        leaseTries fuel tries
      | some key =>
        q.markSignal key item.receipt.messageId
        match ← q.leaseKeyDetailed key (some item.receipt) false fuel with
        | .error e => return .error e
        | .ok (some lease, _) => return .ok (some lease)
        | .ok (none, _) => leaseTries fuel tries

/-- Lease the head of one key that a signal names. -/
def lease (fuel : ℕ) : Script (Except Exc (Option KeyedLease)) :=
  q.leaseTries fuel maxSignalsPerLease

/-- The visibility that goes with a lock extended by `ms`. -/
def extendVisibility (ms : ℤ) : ℤ :=
  let margin := q.config.signal.defaultVisibilityTimeoutMs - q.config.lockTtlMs
  min (max (ms + margin) (ms + 1)) q.config.signal.maxVisibilityTimeoutMs

/-- The signal's part of an extension; it is a hint, so a failure is never fatal. -/
def extendSignal (key : Key) (ms : ℤ) (receipt : Receipt) : Script Unit := do
  match ← QueueStore.changeVisibility q.config.signal receipt (q.extendVisibility ms) with
  | none => return ()
  | some () =>
    match ← Script.stream (.xpendingEntry receipt.stream receipt.group receipt.messageId) with
    | none => return ()
    | some pending => if pending = [] then return () else q.markSignal key receipt.messageId

/-- Extend the lock and the signal visibility together. -/
def extend (lease : KeyedLease) (additionalMs : Option ℤ) : Script (Except Exc Unit) := do
  let ms := additionalMs.getD q.config.lockTtlMs
  if ms ≤ 0 ∨ q.config.lockTtlMs < ms then
    return .error (.valueError
      s!"additional_ms must be in (0, lock_ttl_ms={q.config.lockTtlMs}], got {ms}")
  if ← Script.keyed (.extend lease.key lease.lock ms) then
    match lease.receipt with
    | none => return .ok ()
    | some receipt =>
      q.extendSignal lease.key ms receipt
      return .ok ()
  return .error (.leaseLost (.lockGone lease.key))

/-! ## Apply -/

/-- The message that a retry drops, with the reason, once its attempts are exhausted. -/
def exhausted (current : KeyedMessage) : Outcome → Option (KeyedMessage × String)
  | .retry _ reason =>
    if 0 < q.config.maxAttempts ∧ q.config.maxAttempts < current.attempts + 1 then
      some ({ current with attempts := current.attempts + 1 },
        (reason.filter (· ≠ "")).getD "max_attempts exceeded")
    else none
  | _ => none

/-- The transaction of an outcome. -/
def outcomeTx (lease : KeyedLease) (current : KeyedMessage) (now : ℤ) (outcome : Outcome) : Tx :=
  let key := lease.key
  let mid := lease.message.messageId
  if (q.exhausted current outcome).isSome then .ack key mid lease.lock true
  else
    match outcome with
    | .ack => .ack key mid lease.lock false
    | .retry delayMs reason =>
      let delay := (delayMs.map Int.ofNat).getD
        (backoffMs current.attempts q.config.retryBaseMs q.config.retryMaxMs q.config.retryFactor)
      .retry key mid lease.lock (current.attempts + 1) (now + delay) reason
    | .wait untilMs reason =>
      .wait key mid lease.lock (untilMs.getD (now + q.config.effectiveWaitSafetyMs)) reason
    | .hold reason => .hold key mid lease.lock now reason

/-- What follows a committed outcome: release, reconcile unless held, delete the signal. -/
def settle (lease : KeyedLease) (outcome : Outcome) : Script (Except Exc Unit) := do
  release lease.key lease.lock
  match outcome with
  | .hold _ =>
    q.ackSignal lease.receipt (some lease.key)
    return .ok ()
  | _ =>
    match ← q.reconcile lease.key with
    | .error e => return .error e
    | .ok _ =>
      q.ackSignal lease.receipt (some lease.key)
      return .ok ()

/-- Apply one outcome, fenced by lock token and generation. -/
def apply (lease : KeyedLease) (outcome : Outcome) : Script (Except Exc Unit) := do
  match ← verifyFence lease.lock lease.key lease.message.messageId (some lease.gen) none with
  | .error e => return .error e
  | .ok (w, current) =>
    let now ← Script.now
    match q.exhausted current outcome with
    | none => pure ()
    | some (message, error) => q.handoffDlq message error
    if ← Script.keyed (.exec w (q.outcomeTx lease current now outcome)) then
      q.settle lease outcome
    else
      return .error (.leaseLost (.superseded lease.key))

/-! ## Operations -/

/-- Pause the queue for every consumer. -/
def pause (ttlMs : Option ℤ) (reason : String) : Script Unit :=
  Script.stream (.setPaused (if reason = "" then "paused" else reason)
    ((ttlMs.filter (· ≠ 0)).getD q.config.pauseDefaultTtlMs))

/-- Clear the pause. -/
def resume : Script Unit := Script.stream .deletePaused

/-- Signal each due key whose entry in `delayed` this call removes. -/
def promoteKeys : List Key → Script ℕ
  | [] => return 0
  | key :: rest => do
    if (← Script.keyed (.write (.zremDelayed key))) = 1 then
      q.signal key
      let sent ← promoteKeys rest
      return sent + 1
    promoteKeys rest

/-- Move due keys from `delayed` to the signal stream. -/
def promoteDue (limit : Option ℕ) : Script ℕ := do
  let now ← Script.now
  let due ← Script.keyed
    (.zrangebyscoreDelayed now ((limit.filter (· ≠ 0)).getD q.config.promoteBatch))
  q.promoteKeys due

/-- `SSCAN` over `keys` until the cursor returns to `0`. -/
def scanKeys : (fuel cursor : ℕ) → (found : List Key) → Script (List Key)
  | 0, _, _ => .hang
  | fuel + 1, cursor, found => do
    let (cursor', members) ← Script.keyed (.sscanKeys cursor)
    if cursor' = 0 then return found ++ members
    scanKeys fuel cursor' (found ++ members)

/-- The pipelined checks of one chunk: live markers, then the lock. -/
def recoverFlags (now : ℤ) : List Key → Script (List (Key × Bool))
  | [] => return []
  | name :: rest => do
    Script.stream (.zremrangebyscoreSig name now)
    let live ← Script.stream (.zcardSig name)
    let locked ← Script.keyed (.existsLock name)
    let flags ← recoverFlags now rest
    return (name, decide (0 < live) || locked) :: flags

/-- Reconcile the keys of a chunk that are neither signalled nor in flight. -/
def recoverOrphans : List (Key × Bool) → (sent : ℕ) → Script (Except Exc ℕ)
  | [], sent => return .ok sent
  | (_, true) :: rest, sent => recoverOrphans rest sent
  | (name, false) :: rest, sent => do
    match ← q.reconcile name with
    | .error e => return .error e
    | .ok true => recoverOrphans rest (sent + 1)
    | .ok false => recoverOrphans rest sent

/-- The sweep over the sorted names, chunk by chunk. -/
def recoverChunks : List (List Key) → (sent : ℕ) → Script (Except Exc ℕ)
  | [], sent => return .ok sent
  | chunk :: rest, sent => do
    let now ← Script.now
    let flags ← recoverFlags now chunk
    match ← q.recoverOrphans flags sent with
    | .error e => return .error e
    | .ok sent => recoverChunks rest sent

/-- The names of one pass, sorted and cut into chunks. -/
def recoverNames (found : List Key) : List (List Key) :=
  (found.dedup.mergeSort (· ≤ ·)).toChunks pipelineChunk

/-- One pass over the whole key set. -/
def sweep (fuel : ℕ) : Script (Except Exc ℕ) := do
  let found ← scanKeys fuel 0 []
  q.recoverChunks (recoverNames found) 0

/-- Re-signal keys whose wake-up was lost. -/
def recover (force : Bool) (fuel : ℕ) : Script (Except Exc ℕ) := do
  if (← Script.stream .getPaused).isSome then return .ok 0
  if ← q.hasBacklog then return .ok 0
  if force then q.sweep fuel
  else
    if ← Script.stream (.setRecover q.consumer q.config.recoverIntervalMs) then q.sweep fuel
    else return .ok 0

/-- Clear a hold; the head becomes pending and the key is signalled. -/
def releaseHold (key : Key) : Script Bool := do
  if (← Script.keyed (.write (.hdelHeld key))) = 0 then return false
  match ← Script.keyed (.zrangeHead key) with
  | none =>
    q.signal key
    return true
  | some mid =>
    if ← Script.keyed (.existsMsg mid) then
      let _ ← Script.keyed (.write (.hsetMsg mid { state := some .pending }))
    q.signal key
    return true

end KeyedQueue

end NavigatorEventbus
