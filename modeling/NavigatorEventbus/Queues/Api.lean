import NavigatorEventbus.Queues.Receipts
import NavigatorEventbus.Queues.Store
import NavigatorEventbus.Redis.Pending

/-!
# The HTTP handlers of the pull plane

Deleting messages and changing their visibility by receipt handles (`queues/api.py`), one entry of a
request after another, and the service of clients that hold handles.  Tokens, the reading of the body
and its validation are left out.
-/

namespace NavigatorEventbus

open Interleave Receipts

/-- The texts of the entry ids, which the streams here number. -/
structure EntryNames where
  name : EntryId → String
  id : String → EntryId
  id_name : ∀ i, id (name i) = i

/-- What verifies handles: a codec, with what it takes from libraries. -/
structure Gate where
  codec : ReceiptCodec
  mac : Bytes → Bytes → Bytes
  lenient : Lenient
  names : EntryNames

/-- The claims of a receipt. -/
def Receipt.claims (names : EntryNames) (r : Receipt) : Claims where
  queue := r.queue
  group := r.group
  stream := r.stream
  messageId := names.name r.messageId
  consumer := r.consumer
  delivered := r.delivered
  expiresAtMs := r.expiresAtMs

/-- The receipt of claims. Every entry was delivered more often than a negative generation says, as it
is for the generation `0`. -/
def Receipts.Claims.receipt (names : EntryNames) (c : Claims) : Receipt where
  queue := c.queue
  group := c.group
  stream := c.stream
  messageId := names.id c.messageId
  consumer := c.consumer
  delivered := c.delivered.toNat
  expiresAtMs := c.expiresAtMs

namespace Gate

variable (gate : Gate) (cfg : QueueConfig)

/-- The handle of a receipt. -/
def encode (r : Receipt) : List Char := gate.codec.encode gate.mac (r.claims gate.names)

/-- `QueueStore.decode_receipt`. -/
def decodeReceipt (handle : List Char) (group : String) (nowMs : ℤ) : Except DecodeExc Receipt :=
  (gate.codec.decode gate.mac gate.lenient handle cfg.name group nowMs).map
    (Claims.receipt gate.names)

end Gate

/-- Why an entry of a request failed. -/
inductive FailureCode where
  | expiredReceiptHandle
  | invalidReceiptHandle
  | staleReceiptHandle
  | invalidParameter
  | unavailable
  deriving DecidableEq

/-- The error slug of a rejected handle. -/
def slug : Reason → FailureCode
  | .expired => .expiredReceiptHandle
  | _ => .invalidReceiptHandle

/-- What is reported of an entry: its message id, or why it failed. -/
abbrev EntryOutcome := Except FailureCode EntryId

namespace QueueApi

variable (gate : Gate) (cfg : QueueConfig) (group : String)

/-- What becomes of the exceptions of `decode`: a `ReceiptError` is caught, another one is not. -/
def catchReceiptError : Except DecodeExc Receipt → Option (Except FailureCode Receipt)
  | .ok receipt => some (.ok receipt)
  | .error (.receiptError reason) => some (.error (slug reason))
  | .error .unicodeEncodeError => none

/-- Verify a handle; `none` when `decode` raises something else than `ReceiptError`. -/
def decodeHandle (handle : List Char) : Script (Option (Except FailureCode Receipt)) := do
  let now ← Script.now
  return catchReceiptError (gate.decodeReceipt cfg handle group now)

/-- What a delete request does with the receipt of an entry. -/
def deleteReceipt (receipt : Receipt) : Script EntryOutcome := do
  match ← QueueStore.delete cfg receipt with
  | .ok () => return .ok receipt.messageId
  | .error (.staleReceipt _) => return .error .staleReceiptHandle
  | .error _ => return .error .unavailable

/-- What a visibility request does with the receipt of an entry. -/
def changeReceipt (receipt : Receipt) (visibilityMs : ℤ) : Script EntryOutcome := do
  match ← QueueStore.changeVisibility cfg receipt visibilityMs with
  | some () => return .ok receipt.messageId
  | none => return .error .unavailable

/-- What is done with an entry, once its handle is decoded. -/
def withReceipt (act : Receipt → Script EntryOutcome) :
    Option (Except FailureCode Receipt) → Script (Option EntryOutcome)
  | none => return none
  | some (.error code) => return some (.error code)
  | some (.ok receipt) => do
    let outcome ← act receipt
    return some outcome

/-- One entry of a delete request; `none` when the request ends in an exception. -/
def deleteEntry (handle : List Char) : Script (Option EntryOutcome) := do
  let receipt ← decodeHandle gate cfg group handle
  withReceipt (deleteReceipt cfg) receipt

/-- One entry of a visibility request. -/
def visibilityEntry (handle : List Char) (visibilityTimeoutSeconds : ℕ) : Script (Option EntryOutcome) := do
  let visibilityMs : ℤ := visibilityTimeoutSeconds * 1000
  if cfg.maxVisibilityTimeoutMs < visibilityMs then return some (.error .invalidParameter)
  let receipt ← decodeHandle gate cfg group handle
  withReceipt (fun receipt => changeReceipt cfg receipt visibilityMs) receipt

/-- The entries of a request, one after another; `none` when one of them raises. -/
def eachEntry {ε : Type} (entry : ε → Script (Option EntryOutcome)) :
    List ε → Script (Option (List EntryOutcome))
  | [] => return some []
  | e :: rest => do
    match ← entry e with
    | none => return none
    | some outcome =>
      match ← eachEntry entry rest with
      | none => return none
      | some outcomes => return some (outcome :: outcomes)

/-- `_handle_delete`. -/
def handleDelete (handles : List (List Char)) : Script (Option (List EntryOutcome)) :=
  eachEntry (deleteEntry gate cfg group) handles

/-- `_handle_visibility`. -/
def handleVisibility (entries : List (List Char × ℕ)) : Script (Option (List EntryOutcome)) :=
  eachEntry (fun e => visibilityEntry gate cfg group e.1 e.2) entries

/-! ## Requests that end in an exception -/

section Raises

variable {gate : Gate} {cfg : QueueConfig} {group : String}

theorem decodeReceipt_eq_unicodeEncodeError (gate : Gate) (cfg : QueueConfig) (group : String)
    (handle : List Char) (nowMs : ℤ) :
    gate.decodeReceipt cfg handle group nowMs = .error .unicodeEncodeError ↔ Unsignable handle := by
  rw [← decode_eq_unicodeEncodeError gate.codec gate.mac gate.lenient handle cfg.name group nowMs,
    Gate.decodeReceipt]
  cases gate.codec.decode gate.mac gate.lenient handle cfg.name group nowMs <;> simp [Except.map]

theorem decodeHandle_yields (handle : List Char) :
    (decodeHandle gate cfg group handle).Yields fun r => r.isSome ↔ ¬ Unsignable handle := by
  intro now
  show (catchReceiptError (gate.decodeReceipt cfg handle group now)).isSome ↔ _
  rw [← decodeReceipt_eq_unicodeEncodeError gate cfg group handle now]
  cases gate.decodeReceipt cfg handle group now with
  | ok receipt => simp [catchReceiptError]
  | error e => cases e <;> simp [catchReceiptError]

theorem withReceipt_yields (act : Receipt → Script EntryOutcome)
    (r : Option (Except FailureCode Receipt)) :
    (withReceipt act r).Yields fun outcome => outcome.isSome = r.isSome := by
  match r with
  | none => exact rfl
  | some (.error code) => exact rfl
  | some (.ok receipt) =>
    exact (Prog.Yields.of_forall (fun _ => trivial) (act receipt)).bind (Q := fun _ => True)
      fun outcome _ => rfl

theorem deleteEntry_yields (handle : List Char) :
    (deleteEntry gate cfg group handle).Yields fun r => r.isSome ↔ ¬ Unsignable handle := by
  refine (decodeHandle_yields handle).bind fun r hr => ?_
  exact (withReceipt_yields _ r).mono fun outcome h => by rw [h]; exact hr

theorem visibilityEntry_yields (handle : List Char) (seconds : ℕ) :
    (visibilityEntry gate cfg group handle seconds).Yields fun r =>
      r.isSome ↔ ¬ ((seconds : ℤ) * 1000 ≤ cfg.maxVisibilityTimeoutMs ∧ Unsignable handle) := by
  unfold visibilityEntry
  dsimp only
  split_ifs with hmax
  · have tooLong : ¬ (seconds : ℤ) * 1000 ≤ cfg.maxVisibilityTimeoutMs := by omega
    simp [Prog.Yields, tooLong]
  · have within : (seconds : ℤ) * 1000 ≤ cfg.maxVisibilityTimeoutMs := by omega
    refine (decodeHandle_yields handle).bind fun r hr => ?_
    exact (withReceipt_yields _ r).mono fun outcome h => by simp [h, hr, within]

/-- A request ends in an exception exactly when one of its entries raises. -/
theorem eachEntry_yields {ε : Type} {entry : ε → Script (Option EntryOutcome)} (Bad : ε → Prop)
    (h : ∀ e, (entry e).Yields fun r => r.isSome ↔ ¬ Bad e) (l : List ε) :
    (eachEntry entry l).Yields fun r => r.isSome ↔ ∀ e ∈ l, ¬ Bad e := by
  induction l with
  | nil => simp [eachEntry, Prog.Yields]
  | cons e l ih =>
    refine (h e).bind fun r hr => ?_
    cases r with
    | none =>
      have bad : Bad e := by simpa using hr
      simp [Prog.Yields, bad]
    | some outcome =>
      have good : ¬ Bad e := by simpa using hr
      refine ih.bind fun rest hrest => ?_
      cases rest with
      | none =>
        have bad : ¬ ∀ e ∈ l, ¬ Bad e := by simpa using hrest
        simp only [Prog.pure_eq, Prog.Yields, Option.isSome_none, Bool.false_eq_true, false_iff]
        exact fun all => bad fun e' he' => all e' (List.mem_cons_of_mem e he')
      | some outcomes =>
        have all : ∀ e ∈ l, ¬ Bad e := by simpa using hrest
        simp only [Prog.pure_eq, Prog.Yields, Option.isSome_some, true_iff, List.forall_mem_cons]
        exact ⟨good, all⟩

/-- What a handle is worth: it comes back exactly when it should, what comes back was signed, and every
other handle raises `ReceiptError` unless it is unsignable; a request completes unless it holds one. -/
structure HandlesSound (gate : Gate) : Prop where
  roundTrip : ∀ (minter : ReceiptCodec) (r : Claims) (queue group : String) (nowMs : ℤ),
    gate.codec.decode gate.mac gate.lenient (minter.encode gate.mac r) queue group nowMs = .ok r ↔
      r.queue = queue ∧ r.group = group ∧ nowMs ≤ r.expiresAtMs + gate.codec.graceMs ∧
        ∃ key ∈ gate.codec.keys, gate.mac key (asciiBytes (handleVersion ++ '.' :: r.body)) =
          gate.mac minter.signingKey (asciiBytes (handleVersion ++ '.' :: r.body))
  ring : ∀ (minter : ReceiptCodec) (r : Claims) (queue group : String) (nowMs : ℤ),
    (∀ key ∈ gate.codec.keys, gate.mac key (asciiBytes (handleVersion ++ '.' :: r.body)) =
      gate.mac minter.signingKey (asciiBytes (handleVersion ++ '.' :: r.body)) →
        key = minter.signingKey) →
    (gate.codec.decode gate.mac gate.lenient (minter.encode gate.mac r) queue group nowMs = .ok r ↔
      r.queue = queue ∧ r.group = group ∧ nowMs ≤ r.expiresAtMs + gate.codec.graceMs ∧
        minter.signingKey ∈ gate.codec.keys)
  signed : ∀ {handle queue group nowMs r},
    gate.codec.decode gate.mac gate.lenient handle queue group nowMs = .ok r →
      ∃ body signature received signed, handle.splitOn '.' = [handleVersion, body, signature] ∧
        unb64 signature = some received ∧ signedPart body = some signed ∧
        gate.codec.Verifies gate.mac signed received ∧ gate.lenient.parseClaims body = some r
  raises : ∀ handle queue group nowMs,
    (∀ e, gate.codec.decode gate.mac gate.lenient handle queue group nowMs = .error e →
      ∃ reason, e = .receiptError reason) ↔ ¬ Unsignable handle
  delete : ∀ (cfg : QueueConfig) (group : String) (handles : List (List Char)),
    (handleDelete gate cfg group handles).Yields fun r =>
      r.isSome ↔ ∀ handle ∈ handles, ¬ Unsignable handle
  visibility : ∀ (cfg : QueueConfig) (group : String) (entries : List (List Char × ℕ)),
    (handleVisibility gate cfg group entries).Yields fun r => r.isSome ↔
      ∀ e ∈ entries, ¬ ((e.2 : ℤ) * 1000 ≤ cfg.maxVisibilityTimeoutMs ∧ Unsignable e.1)

theorem raises_iff (handle : List Char) (queue : String) (nowMs : ℤ) :
    (∀ e, gate.codec.decode gate.mac gate.lenient handle queue group nowMs = .error e →
      ∃ reason, e = .receiptError reason) ↔ ¬ Unsignable handle := by
  rw [← decode_eq_unicodeEncodeError gate.codec gate.mac gate.lenient handle queue group nowMs]
  cases gate.codec.decode gate.mac gate.lenient handle queue group nowMs with
  | ok r => simp
  | error e => cases e <;> simp

theorem handleDelete_yields (handles : List (List Char)) :
    (handleDelete gate cfg group handles).Yields fun r =>
      r.isSome ↔ ∀ handle ∈ handles, ¬ Unsignable handle :=
  eachEntry_yields Unsignable deleteEntry_yields handles

theorem handleVisibility_yields (entries : List (List Char × ℕ)) :
    (handleVisibility gate cfg group entries).Yields fun r => r.isSome ↔
      ∀ e ∈ entries, ¬ ((e.2 : ℤ) * 1000 ≤ cfg.maxVisibilityTimeoutMs ∧ Unsignable e.1) :=
  eachEntry_yields (fun e => (e.2 : ℤ) * 1000 ≤ cfg.maxVisibilityTimeoutMs ∧ Unsignable e.1)
    (fun e => visibilityEntry_yields e.1 e.2) entries

theorem handles_sound (gate : Gate) : HandlesSound gate where
  roundTrip minter _ _ _ _ := decode_encode_eq_ok minter
  ring minter r queue group nowMs distinct := by
    rw [decode_encode_eq_ok]
    have same : (∃ key ∈ gate.codec.keys, gate.mac key (asciiBytes (handleVersion ++ '.' :: r.body)) =
        gate.mac minter.signingKey (asciiBytes (handleVersion ++ '.' :: r.body))) ↔
        minter.signingKey ∈ gate.codec.keys := by
      constructor
      · rintro ⟨key, hkey, eq⟩
        rwa [← distinct key hkey eq]
      · exact fun h => ⟨_, h, rfl⟩
    rw [same]
  signed h := signed_of_decode h
  raises handle queue _ nowMs := raises_iff handle queue nowMs
  delete _ _ handles := handleDelete_yields handles
  visibility _ _ entries := handleVisibility_yields entries

end Raises

namespace NotAscii

/-- A codec with one key. -/
def codec : ReceiptCodec where
  keys := [[1]]
  keys_ne := by decide
  keys_nonempty := by decide
  grace_nonneg := by decide

/-- A handle whose body is a letter beyond ASCII, with an empty signature. -/
def handle : List Char := ['q', '1', '.', 'é', '.']

end NotAscii

theorem unsignable_raises : ¬ ∀ (codec : ReceiptCodec) (mac : Bytes → Bytes → Bytes)
    (lenient : Lenient) (handle : List Char) (queue group : String) (nowMs : ℤ) (e : DecodeExc),
      codec.decode mac lenient handle queue group nowMs = .error e →
        ∃ reason, e = .receiptError reason := by
  intro h
  have unsignable : Unsignable NotAscii.handle :=
    ⟨['é'], [], by decide, by decide, by decide⟩
  obtain ⟨reason, hreason⟩ := h NotAscii.codec (fun _ _ => [])
    ⟨fun _ => none, fun _ => none, fun _ => none⟩ NotAscii.handle "orders" "billing" 0 _
    ((decode_eq_unicodeEncodeError ..).2 unsignable)
  cases hreason

end QueueApi

end NavigatorEventbus
