import NavigatorEventbus.Keyed.Config
import NavigatorEventbus.Lib.History
import NavigatorEventbus.Lib.SortedSet
import Mathlib.Data.Finset.Basic
import Mathlib.Data.String.Basic
import Mathlib.Logic.Function.Basic

/-!
# The keys of one keyed queue

`Keyspace` holds the Redis keys of one keyed queue (`_Keys`, spec §2 key table) that decide order,
exclusion and eligibility: `lock:<k>`, `msg:<id>`, `key:<k>`, `all`, `keys`, `held`, `delayed` and
`lastscore`.  The name of a key is its role and argument.  `ver` counts the modifications of each key
that a transaction can watch, and `log` is the history of the commands that matter to the claims
made about a run; neither is read by the queue itself.
-/

namespace NavigatorEventbus

open Interleave

/-- A lock token. Tokens are unique: `serial` is fresh at each acquisition, and `owner` is the actor
that acquired. -/
structure Token where
  owner : ℕ
  serial : ℕ
  deriving DecidableEq

/-- The value of `lock:<k>` with the time its TTL ends. -/
structure LockValue where
  token : Token
  expiresAt : ℤ
  deriving DecidableEq

/-- The value of a key in the `held` hash. -/
structure Hold where
  reason : Option String
  sinceMs : ℤ
  messageId : MsgId
  deriving DecidableEq

/-- The hash `msg:<id>`; a field is `none` when the hash does not have it. The two deadlines are
stored as text, and the empty text (`some none`) stands for no deadline. -/
structure MsgHash where
  messageId : Option MsgId := none
  key : Option Key := none
  body : Option Body := none
  order : Option ℚ := none
  createdMs : Option ℤ := none
  attempts : Option ℕ := none
  state : Option MsgState := none
  lastError : Option String := none
  waitUntilMs : Option (Option ℤ) := none
  dueMs : Option (Option ℤ) := none
  gen : Option ℕ := none
  deriving DecidableEq

namespace MsgHash

/-- `HSET` with the fields of `f`. -/
def set (h f : MsgHash) : MsgHash where
  messageId := f.messageId <|> h.messageId
  key := f.key <|> h.key
  body := f.body <|> h.body
  order := f.order <|> h.order
  createdMs := f.createdMs <|> h.createdMs
  attempts := f.attempts <|> h.attempts
  state := f.state <|> h.state
  lastError := f.lastError <|> h.lastError
  waitUntilMs := f.waitUntilMs <|> h.waitUntilMs
  dueMs := f.dueMs <|> h.dueMs
  gen := f.gen <|> h.gen

/-- The hash has the fields that every message needs. -/
def Complete (h : MsgHash) : Prop :=
  h.key.isSome ∧ h.body.isSome ∧ h.order.isSome ∧ h.createdMs.isSome

end MsgHash

/-- Rebuild a message from `HGETALL` output: only `key` is required. -/
def toMessage (h : MsgHash) (mid : MsgId) : Except Exc KeyedMessage :=
  match h.key with
  | none => .error (.keyError "key")
  | some key => .ok {
      messageId := mid
      key := key
      body := h.body.getD "\x7b\x7d"
      order := h.order.getD 0
      createdMs := h.createdMs.getD 0
      attempts := h.attempts.getD 0
      state := h.state.getD .pending
      lastError := h.lastError.filter (· ≠ "")
      waitUntilMs := h.waitUntilMs.join
      dueMs := h.dueMs.join
      gen := h.gen.getD 0 }

section ToMessage

variable {h : MsgHash} {mid : MsgId} {m : KeyedMessage}

theorem toMessage_key (hm : toMessage h mid = .ok m) : h.key = some m.key := by
  unfold toMessage at hm
  split at hm
  · cases hm
  · rename_i k hk
    cases hm
    exact hk

theorem toMessage_messageId (hm : toMessage h mid = .ok m) : m.messageId = mid := by
  unfold toMessage at hm
  split at hm <;> cases hm
  rfl

theorem toMessage_gen (hm : toMessage h mid = .ok m) : m.gen = h.gen.getD 0 := by
  unfold toMessage at hm
  split at hm <;> cases hm
  rfl

theorem toMessage_body (hm : toMessage h mid = .ok m) : m.body = h.body.getD "\x7b\x7d" := by
  unfold toMessage at hm
  split at hm <;> cases hm
  rfl

theorem toMessage_of_key (mid : MsgId) {k : Key} (hk : h.key = some k) :
    ∃ m, toMessage h mid = .ok m := by
  unfold toMessage
  rw [hk]
  exact ⟨_, rfl⟩

end ToMessage

/-- The keys that transactions watch. -/
inductive RedisKey where
  | lock (k : Key)
  | msg (m : MsgId)
  | key (k : Key)
  | lastscore
  deriving DecidableEq

/-- A write command of the queue's operations. -/
inductive Write where
  | hsetMsg (m : MsgId) (f : MsgHash)
  | deleteMsg (m : MsgId)
  | zaddKey (k : Key) (m : MsgId) (score : ℚ)
  | zremKey (k : Key) (m : MsgId)
  | saddKeys (k : Key)
  | sremKeys (k : Key)
  | zaddAll (m : MsgId) (score : ℤ)
  | zremAll (m : MsgId)
  | zaddDelayed (k : Key) (deadline : ℤ)
  | zremDelayed (k : Key)
  | hsetHeld (k : Key) (h : Hold)
  | hdelHeld (k : Key)
  | setLastscore (score : ℚ)
  deriving DecidableEq

/-- The hash that `push` writes. -/
def pushedHash (mid : MsgId) (key : Key) (body : Body) (score : ℚ) (now : ℤ) : MsgHash where
  messageId := some mid
  key := some key
  body := some body
  order := some score
  createdMs := some now
  attempts := some 0
  state := some .pending
  gen := some 0

/-- The fields that a lease of generation `gen` writes. -/
def leasedFields (gen : ℕ) : MsgHash where
  gen := some gen
  state := some .leased
  waitUntilMs := some none
  dueMs := some none

/-- The fields that a `retry` writes. -/
def retryFields (attempts : ℕ) (due : ℤ) (reason : Option String) : MsgHash where
  attempts := some attempts
  dueMs := some (some due)
  lastError := some (reason.getD "")
  state := some .pending

/-- The fields that a `wait` writes. -/
def waitFields (untilMs : ℤ) (reason : Option String) : MsgHash where
  state := some .waiting
  waitUntilMs := some (some untilMs)
  lastError := some (reason.getD "")

/-- The fields that a `hold` writes. -/
def holdFields (reason : Option String) : MsgHash where
  state := some .held
  lastError := some (reason.getD "")

/-- The transactions of the queue's operations. `lock` is the token under which one was fenced. -/
inductive Tx where
  /-- `_drop_key_if_empty` -/
  | dropKey (key : Key)
  /-- `push`; `default` when the score was computed -/
  | push (key : Key) (mid : MsgId) (body : Body) (score : ℚ) (now : ℤ) (default : Bool)
  /-- `_lease_locked`; `now` is the clock reading against which the head was found leasable -/
  | lease (key : Key) (mid : MsgId) (lock : Token) (gen : ℕ) (ignoreDue : Bool) (now : ℤ)
  /-- `apply`, ack; `dropped` when a retry turned into the removal for `max_attempts` -/
  | ack (key : Key) (mid : MsgId) (lock : Token) (dropped : Bool)
  | retry (key : Key) (mid : MsgId) (lock : Token) (attempts : ℕ) (due : ℤ) (reason : Option String)
  | wait (key : Key) (mid : MsgId) (lock : Token) (untilMs : ℤ) (reason : Option String)
  | hold (key : Key) (mid : MsgId) (lock : Token) (now : ℤ) (reason : Option String)
  /-- `expire_head`; `own` when it acquired the lock itself -/
  | expire (key : Key) (mid : MsgId) (lock : Token) (unhold own : Bool)
  deriving DecidableEq

namespace Tx

/-- The commands between `MULTI` and `EXEC`. -/
def writes : Tx → List Write
  | dropKey key => [.sremKeys key, .zremDelayed key, .hdelHeld key]
  | push key mid body score now default =>
    [.hsetMsg mid (pushedHash mid key body score now), .zaddKey key mid score, .saddKeys key,
      .zaddAll mid now] ++ if default then [.setLastscore score] else []
  | lease _ mid _ gen _ _ => [.hsetMsg mid (leasedFields (gen + 1))]
  | ack key mid _ _ => [.zremKey key mid, .deleteMsg mid, .zremAll mid]
  | retry key mid _ attempts due reason =>
    [.hsetMsg mid (retryFields attempts due reason), .zaddDelayed key due]
  | wait key mid _ untilMs reason =>
    [.hsetMsg mid (waitFields untilMs reason), .zaddDelayed key untilMs]
  | hold key mid _ now reason =>
    [.hsetHeld key { reason := reason, sinceMs := now, messageId := mid },
      .hsetMsg mid (holdFields reason)]
  | expire key mid _ unhold _ =>
    [.zremKey key mid, .deleteMsg mid, .zremAll mid] ++ if unhold then [.hdelHeld key] else []

end Tx

/-- A message handed to `on_dlq`, or logged with its body when there is none. -/
structure DeadLetter where
  message : KeyedMessage
  error : String
  deriving DecidableEq

/-- What the history records of a command. -/
inductive Event where
  | committed (tx : Tx) (now : ℤ)
  | aborted (tx : Tx)
  | wrote (w : Write)
  | headRead (key : Key) (head : Option MsgId)
  | heldRead (key : Key)
  | acquired (key : Key) (lock : Token)
  | busy (key : Key)
  | deadLetter (d : DeadLetter)
  deriving DecidableEq

/-- The keys of one keyed queue, with the bookkeeping of the model. -/
structure Keyspace where
  lock : Key → Option LockValue := fun _ => none
  msg : MsgId → Option MsgHash := fun _ => none
  index : Key → SortedSet MsgId ℚ := fun _ => ∅
  all : SortedSet MsgId ℤ := ∅
  keys : Finset Key := ∅
  held : Key → Option Hold := fun _ => none
  delayed : SortedSet Key ℤ := ∅
  lastscore : Option ℚ := none
  ver : RedisKey → ℕ := fun _ => 0
  serial : ℕ := 0
  log : History Event := []

/-- The snapshot that `WATCH` takes of its keys. -/
abbrev Watch := List (RedisKey × ℕ)

namespace Keyspace

/-- A key was modified. -/
def touch (κ : Keyspace) (r : RedisKey) : Keyspace :=
  { κ with ver := Function.update κ.ver r (κ.ver r + 1) }

/-- A command of actor `p` enters the history. -/
def record (κ : Keyspace) (p : ℕ) (e : Event) : Keyspace := { κ with log := (p, e) :: κ.log }

/-- One write, with its integer reply. -/
def write (κ : Keyspace) : Write → ℕ × Keyspace
  | .hsetMsg m f =>
    (1, { κ with msg := Function.update κ.msg m (some (((κ.msg m).getD {}).set f)) }.touch (.msg m))
  | .deleteMsg m =>
    if (κ.msg m).isSome then
      (1, { κ with msg := Function.update κ.msg m none }.touch (.msg m))
    else (0, κ)
  | .zaddKey k m s =>
    if (κ.index k).score m = some s then (0, κ)
    else (1, { κ with index := Function.update κ.index k ((κ.index k).add m s) }.touch (.key k))
  | .zremKey k m =>
    if m ∈ κ.index k then
      (1, { κ with index := Function.update κ.index k ((κ.index k).remove m) }.touch (.key k))
    else (0, κ)
  | .saddKeys k => (1, { κ with keys := insert k κ.keys })
  | .sremKeys k => (1, { κ with keys := κ.keys.erase k })
  | .zaddAll m s => (1, { κ with all := κ.all.add m s })
  | .zremAll m => (1, { κ with all := κ.all.remove m })
  | .zaddDelayed k t => (1, { κ with delayed := κ.delayed.add k t })
  | .zremDelayed k =>
    (if k ∈ κ.delayed then 1 else 0, { κ with delayed := κ.delayed.remove k })
  | .hsetHeld k h => (1, { κ with held := Function.update κ.held k (some h) })
  | .hdelHeld k =>
    (if (κ.held k).isSome then 1 else 0, { κ with held := Function.update κ.held k none })
  | .setLastscore s => (1, { κ with lastscore := some s }.touch .lastscore)

/-- The writes of a transaction, in order. -/
def writes (κ : Keyspace) (ws : List Write) : Keyspace := ws.foldl (fun κ w => (κ.write w).2) κ

/-- Nothing watched has been modified since. -/
def unchanged (κ : Keyspace) (w : Watch) : Bool := w.all fun e => κ.ver e.1 = e.2

end Keyspace

/-! ## Commands -/

/-- The commands on the keys of a keyed queue. -/
inductive KeyedCmd where
  | watch (rs : List RedisKey)
  | exec (w : Watch) (tx : Tx)
  | write (w : Write)
  | zrangeHead (k : Key)
  | zcard (k : Key)
  | hgetall (m : MsgId)
  | hgetKey (m : MsgId)
  | existsMsg (m : MsgId)
  | hgetHeld (k : Key)
  | getLock (k : Key)
  | existsLock (k : Key)
  | getLastscore
  | zrangebyscoreDelayed (upTo : ℤ) (num : ℕ)
  | sscanKeys (cursor : ℕ)
  | acquire (k : Key) (ttlMs : ℤ)
  | release (k : Key) (lock : Token)
  | extend (k : Key) (lock : Token) (ttlMs : ℤ)
  | onDlq (d : DeadLetter)
  | logDropped (d : DeadLetter)

namespace KeyedCmd

/-- The reply of a command. -/
@[reducible] def Reply : KeyedCmd → Type
  | watch _ => Watch
  | exec _ _ => Bool
  | write _ => ℕ
  | zrangeHead _ => Option MsgId
  | zcard _ => ℕ
  | hgetall _ => Option MsgHash
  | hgetKey _ => Option Key
  | existsMsg _ => Bool
  | hgetHeld _ => Option Hold
  | getLock _ => Option Token
  | existsLock _ => Bool
  | getLastscore => Option ℚ
  | zrangebyscoreDelayed _ _ => List Key
  | sscanKeys _ => ℕ × List Key
  | acquire _ _ => Option Token
  | release _ _ => Bool
  | extend _ _ _ => Bool
  | onDlq _ => Unit
  | logDropped _ => Unit

end KeyedCmd

/-- What the environment supplies with a command: the clock reading of the client, whether the
command fails, the page that a scan returns, the lag that the server reports, and how far an
approximate trim goes. -/
structure Input where
  now : ℤ := 0
  fails : Bool := false
  page : ℕ × List Key := (0, [])
  lag : Option ℕ := none
  trim : EntryId := 0

namespace Keyspace

/-- Execution of one command by actor `p` at server time `t`. -/
def exec (p : ℕ) (t : ℤ) (i : Input) (κ : Keyspace) : (c : KeyedCmd) → c.Reply × Keyspace
  | .watch rs => (rs.map fun r => (r, κ.ver r), κ)
  | .exec w tx =>
    if κ.unchanged w then (true, (κ.writes tx.writes).record p (.committed tx i.now))
    else (false, κ.record p (.aborted tx))
  | .write w => ((κ.write w).1, (κ.write w).2.record p (.wrote w))
  | .zrangeHead k => ((κ.index k).head, κ.record p (.headRead k (κ.index k).head))
  | .zcard k => ((κ.index k).card, κ)
  | .hgetall m => (κ.msg m, κ)
  | .hgetKey m => ((κ.msg m).bind MsgHash.key, κ)
  | .existsMsg m => ((κ.msg m).isSome, κ)
  | .hgetHeld k =>
    (κ.held k, if (κ.held k).isSome then κ.record p (.heldRead k) else κ)
  | .getLock k => ((κ.lock k).map LockValue.token, κ)
  | .existsLock k => ((κ.lock k).isSome, κ)
  | .getLastscore => (κ.lastscore, κ)
  | .zrangebyscoreDelayed s n => (κ.delayed.upTo s n, κ)
  | .sscanKeys _ => ((i.page.1, i.page.2.filter (· ∈ κ.keys)), κ)
  | .acquire k ttl =>
    match κ.lock k with
    | some _ => (none, κ.record p (.busy k))
    | none =>
      (some ⟨p, κ.serial⟩,
        ({ κ with
            lock := Function.update κ.lock k (some ⟨⟨p, κ.serial⟩, t + ttl⟩)
            serial := κ.serial + 1 }.touch (.lock k)).record p (.acquired k ⟨p, κ.serial⟩))
  | .release k lock =>
    if (κ.lock k).map LockValue.token = some lock then
      (true, { κ with lock := Function.update κ.lock k none }.touch (.lock k))
    else (false, κ)
  | .extend k lock ttl =>
    if (κ.lock k).map LockValue.token = some lock then
      (true, { κ with lock := Function.update κ.lock k (some ⟨lock, t + ttl⟩) }.touch (.lock k))
    else (false, κ)
  | .onDlq d => ((), κ.record p (.deadLetter d))
  | .logDropped d => ((), κ.record p (.deadLetter d))

/-- The TTL of a lock ends. -/
def lapse (κ : Keyspace) (k : Key) : Keyspace :=
  if (κ.lock k).isSome then
    { κ with lock := Function.update κ.lock k none }.touch (.lock k)
  else κ

end Keyspace

end NavigatorEventbus
