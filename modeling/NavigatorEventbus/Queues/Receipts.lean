import Mathlib.Data.FinEnum
import NavigatorEventbus.Lib.Base64
import NavigatorEventbus.Lib.Json

/-!
# Receipt handles

Minting and verifying of receipt handles (`queues/receipts.py`): the claims as JSON, in base64, with a
MAC under the first key of the ring.  HMAC-SHA256 is the parameter `mac`; nothing about it is assumed.
`Lenient` is what the verifier makes of signed claims that `encode` does not write: bytes that are no
ASCII text, and the `str()` and `int()` of other values than the ones expected.
-/

namespace NavigatorEventbus

namespace Receipts

/-- Bytes. -/
abbrev Bytes := List UInt8

/-- Why a handle is rejected. -/
inductive Reason where
  | malformed
  | badVersion
  | badSignature
  | wrongQueue
  | expired
  deriving DecidableEq

/-- The exceptions of `decode`: a `ReceiptError` with its reason, and the one of `str.encode`. -/
inductive DecodeExc where
  | receiptError (reason : Reason)
  | unicodeEncodeError
  deriving DecidableEq

/-- The claims carried inside a handle, with the entry id as text. -/
structure Claims where
  queue : String
  group : String
  stream : String
  messageId : String
  consumer : String
  delivered : ℤ
  expiresAtMs : ℤ
  deriving DecidableEq

/-- The readings of signed claims that `encode` does not write; `none` where Python raises. -/
structure Lenient where
  text : Bytes → Option (List Char)
  str : Json → Option String
  int : Json → Option ℤ

/-- Mints and verifies receipt handles. The first key signs, all of them verify. -/
structure ReceiptCodec where
  keys : List Bytes
  graceMs : ℤ := 0
  keys_ne : keys ≠ []
  keys_nonempty : ∀ k ∈ keys, k ≠ []
  grace_nonneg : 0 ≤ graceMs

/-- Text that `encode("ascii")` encodes. -/
def IsAscii (l : List Char) : Prop := ∀ c ∈ l, c.toNat < 128

instance (l : List Char) : Decidable (IsAscii l) := List.decidableBAll (fun c : Char => c.toNat < 128) l

/-- The bytes of ASCII text. -/
def asciiBytes (l : List Char) : Bytes := l.map fun c => UInt8.ofNat c.toNat

/-- The text of bytes that are ASCII text without `NUL`. -/
def ofAscii (b : Bytes) : Option (List Char) :=
  if ∀ x ∈ b, 0 < x.toNat ∧ x.toNat < 128 then some (b.map fun x => Char.ofNat x.toNat) else none

/-- `_unb64`. -/
def unb64 (value : List Char) : Option Bytes :=
  if IsAscii value then Base64.decode (value ++ Base64.padding value.length) else none

/-- `HANDLE_VERSION`. -/
def handleVersion : List Char := ['q', '1']

/-- The exact byte string the MAC is computed over; `none` where `encode("ascii")` raises. -/
def signedPart (body : List Char) : Option Bytes :=
  if IsAscii (handleVersion ++ '.' :: body) then some (asciiBytes (handleVersion ++ '.' :: body))
  else none

/-- The claims as JSON, with sorted keys. -/
def Claims.json (r : Claims) : Json :=
  .obj [("c", .str r.consumer), ("d", .int r.delivered), ("e", .int r.expiresAtMs),
    ("g", .str r.group), ("i", .str r.messageId), ("q", .str r.queue), ("s", .str r.stream)]

/-- The body of a handle. -/
def Claims.body (r : Claims) : List Char := Base64.encode (asciiBytes (r.json.print []))

/-- `str(value)`. -/
def Lenient.strOf (lenient : Lenient) : Json → Option String
  | .str s => some s
  | v => lenient.str v

/-- `int(value)`. -/
def Lenient.intOf (lenient : Lenient) : Json → Option ℤ
  | .int n => some n
  | v => lenient.int v

/-- `json.loads` of bytes. -/
def Lenient.loads (lenient : Lenient) (b : Bytes) : Option Json :=
  ((ofAscii b).or (lenient.text b)).bind Json.parse

/-- Decode verified claims; `none` where anything raises. -/
def Lenient.parseClaims (lenient : Lenient) (body : List Char) : Option Claims := do
  let claims ← lenient.loads (← unb64 body)
  let queue ← lenient.strOf (← claims.member "q")
  let group ← lenient.strOf (← claims.member "g")
  let stream ← lenient.strOf (← claims.member "s")
  let messageId ← lenient.strOf (← claims.member "i")
  let consumer ← lenient.strOf (← claims.member "c")
  let delivered ← lenient.intOf (← claims.member "d")
  let expiresAtMs ← lenient.intOf (← claims.member "e")
  return { queue, group, stream, messageId, consumer, delivered, expiresAtMs }

namespace ReceiptCodec

variable (mac : Bytes → Bytes → Bytes) (lenient : Lenient) (codec : ReceiptCodec)

/-- The key that signs. -/
def signingKey : Bytes := codec.keys.head codec.keys_ne

/-- Mint a signed handle. -/
def encode (r : Claims) : List Char :=
  handleVersion ++ '.' :: (r.body ++ '.' ::
    Base64.encode (mac codec.signingKey (asciiBytes (handleVersion ++ '.' :: r.body))))

/-- The MAC was computed under a key of the ring. -/
def Verifies (signed received : Bytes) : Prop := ∃ key ∈ codec.keys, mac key signed = received

instance (signed received : Bytes) : Decidable (codec.Verifies mac signed received) :=
  inferInstanceAs (Decidable (∃ key ∈ codec.keys, _))

/-- The checks of verified claims against the route and the clock. -/
def bind (r : Claims) (queue group : String) (nowMs : ℤ) : Except DecodeExc Claims :=
  if r.queue ≠ queue ∨ r.group ≠ group then .error (.receiptError .wrongQueue)
  else if r.expiresAtMs + codec.graceMs < nowMs then .error (.receiptError .expired)
  else .ok r

/-- Verify a handle and return its claims. -/
def decode (handle : List Char) (queue group : String) (nowMs : ℤ) : Except DecodeExc Claims :=
  match handle.splitOn '.' with
  | [version, body, signature] =>
    if version ≠ handleVersion then .error (.receiptError .badVersion)
    else
      match unb64 signature with
      | none => .error (.receiptError .malformed)
      | some received =>
        match signedPart body with
        | none => .error .unicodeEncodeError
        | some signed =>
          if codec.Verifies mac signed received then
            match lenient.parseClaims body with
            | none => .error (.receiptError .malformed)
            | some r => codec.bind r queue group nowMs
          else .error (.receiptError .badSignature)
  | _ => .error (.receiptError .malformed)

end ReceiptCodec

/-! ## Round trip -/

theorem ofAscii_asciiBytes {l : List Char} (h : ∀ c ∈ l, Json.Printable c) :
    ofAscii (asciiBytes l) = some l := by
  have small : ∀ c ∈ l, 0 < c.toNat ∧ c.toNat < 128 := by
    intro c hc
    obtain ⟨low, high⟩ := h c hc
    have low : ' '.toNat ≤ c.toNat := low
    have high : c.toNat ≤ '~'.toNat := high
    exact ⟨Nat.lt_of_lt_of_le (by decide) low, Nat.lt_of_le_of_lt high (by decide)⟩
  have byte : ∀ c ∈ l, (UInt8.ofNat c.toNat).toNat = c.toNat := by
    intro c hc
    have := (small c hc).2
    simp
    omega
  have bytes : ∀ x ∈ asciiBytes l, 0 < x.toNat ∧ x.toNat < 128 := by
    intro x hx
    obtain ⟨c, hc, rfl⟩ := List.mem_map.1 hx
    rw [byte c hc]
    exact small c hc
  have back : (asciiBytes l).map (fun x => Char.ofNat x.toNat) = l := by
    rw [asciiBytes, List.map_map]
    refine List.map_congr_left (g := id) (fun c hc => ?_) |>.trans (List.map_id l)
    simp only [Function.comp_apply, byte c hc, Char.ofNat_toNat, id_eq]
  rw [ofAscii, if_pos bytes, back]

theorem unb64_encode (b : Bytes) : unb64 (Base64.encode b) = some b := by
  have ascii : IsAscii (Base64.encode b) := fun c hc => (Base64.mem_encode hc).1
  rw [unb64, if_pos ascii]
  exact Base64.decode_encode b

theorem dot_not_mem_encode (b : Bytes) : '.' ∉ Base64.encode b := fun h =>
  (Base64.mem_encode h).2 rfl

theorem readable_json (r : Claims) : r.json.Readable := by
  simp [Claims.json, Json.Readable, Json.ReadableMembers]

theorem members_json (r : Claims) : r.json.member "q" = some (.str r.queue) ∧
    r.json.member "g" = some (.str r.group) ∧ r.json.member "s" = some (.str r.stream) ∧
    r.json.member "i" = some (.str r.messageId) ∧ r.json.member "c" = some (.str r.consumer) ∧
    r.json.member "d" = some (.int r.delivered) ∧ r.json.member "e" = some (.int r.expiresAtMs) :=
  ⟨rfl, rfl, rfl, rfl, rfl, rfl, rfl⟩

theorem loads_json (lenient : Lenient) (r : Claims) :
    lenient.loads (asciiBytes (r.json.print [])) = some r.json := by
  have text : ofAscii (asciiBytes (r.json.print [])) = some (r.json.print []) :=
    ofAscii_asciiBytes (Json.printable_print (fun c hc => by cases hc) _ (readable_json r))
  rw [Lenient.loads, text]
  exact Json.parse_print (fun c hc => by cases hc) (readable_json r)

/-- The claims of a body that was written for them. -/
theorem parseClaims_body (lenient : Lenient) (r : Claims) : lenient.parseClaims r.body = some r := by
  obtain ⟨hq, hg, hs, hi, hc, hd, he⟩ := members_json r
  have bytes : unb64 r.body = some (asciiBytes (r.json.print [])) := unb64_encode _
  have loads := loads_json lenient r
  generalize asciiBytes (r.json.print []) = text at bytes loads
  generalize r.json = claims at *
  show ((unb64 r.body).bind fun b => (lenient.loads b).bind fun claims => _) = _
  rw [bytes, Option.bind_some, loads, Option.bind_some]
  show ((claims.member "q").bind fun v => (lenient.strOf v).bind fun queue => _) = _
  rw [hq]
  show ((claims.member "g").bind fun v => (lenient.strOf v).bind fun group => _) = _
  rw [hg]
  show ((claims.member "s").bind fun v => (lenient.strOf v).bind fun stream => _) = _
  rw [hs]
  show ((claims.member "i").bind fun v => (lenient.strOf v).bind fun messageId => _) = _
  rw [hi]
  show ((claims.member "c").bind fun v => (lenient.strOf v).bind fun consumer => _) = _
  rw [hc]
  show ((claims.member "d").bind fun v => (lenient.intOf v).bind fun delivered => _) = _
  rw [hd]
  show ((claims.member "e").bind fun v => (lenient.intOf v).bind fun expiresAtMs => _) = _
  rw [he]
  rfl

theorem signedPart_body (r : Claims) :
    signedPart r.body = some (asciiBytes (handleVersion ++ '.' :: r.body)) := by
  have ascii : IsAscii (handleVersion ++ '.' :: r.body) := by
    intro c hc
    rcases List.mem_append.1 hc with hc | hc
    · have all : IsAscii handleVersion := by decide
      exact all c hc
    · rcases List.mem_cons.1 hc with rfl | hc
      · decide
      · exact (Base64.mem_encode hc).1
  rw [signedPart, if_pos ascii]

section Decode

variable {mac : Bytes → Bytes → Bytes} {lenient : Lenient} {codec : ReceiptCodec} {handle : List Char}
  {queue group : String} {nowMs : ℤ} {r : Claims}

theorem splitOn_handle (body signature : List Char) (hb : '.' ∉ body) (hs : '.' ∉ signature) :
    (handleVersion ++ '.' :: (body ++ '.' :: signature)).splitOn '.' =
      [handleVersion, body, signature] := by
  rw [List.splitOn_append_cons_self_of_not_mem (by decide),
    List.splitOn_append_cons_self_of_not_mem hb, List.splitOn_eq_singleton hs]

/-- What a codec makes of a handle that another one minted. -/
theorem decode_encode (minter : ReceiptCodec) :
    codec.decode mac lenient (minter.encode mac r) queue group nowMs =
      if codec.Verifies mac (asciiBytes (handleVersion ++ '.' :: r.body))
        (mac minter.signingKey (asciiBytes (handleVersion ++ '.' :: r.body))) then
        codec.bind r queue group nowMs
      else .error (.receiptError .badSignature) := by
  unfold ReceiptCodec.decode ReceiptCodec.encode
  rw [splitOn_handle r.body _ (dot_not_mem_encode _) (dot_not_mem_encode _)]
  simp only [ne_eq, not_true_eq_false, if_false, unb64_encode, signedPart_body, parseClaims_body]

theorem bind_eq_ok {c : Claims} : codec.bind r queue group nowMs = .ok c ↔
    r = c ∧ r.queue = queue ∧ r.group = group ∧ nowMs ≤ r.expiresAtMs + codec.graceMs := by
  unfold ReceiptCodec.bind
  split_ifs with hroute hexpired
  · have wrong : ¬ (r.queue = queue ∧ r.group = group ∧ nowMs ≤ r.expiresAtMs + codec.graceMs) := by
      rintro ⟨hq, hg, -⟩
      exact hroute.elim (fun h => h hq) fun h => h hg
    simp [wrong]
  · have late : ¬ (r.queue = queue ∧ r.group = group ∧ nowMs ≤ r.expiresAtMs + codec.graceMs) := by
      omega
    simp [late]
  · rw [not_or, not_not, not_not] at hroute
    have meets : r.queue = queue ∧ r.group = group ∧ nowMs ≤ r.expiresAtMs + codec.graceMs :=
      ⟨hroute.1, hroute.2, by omega⟩
    simp [meets]

/-- A handle is accepted exactly when the route matches, it has not expired, and a key of the ring gives
the MAC of the key that signed it. -/
theorem decode_encode_eq_ok (minter : ReceiptCodec) :
    codec.decode mac lenient (minter.encode mac r) queue group nowMs = .ok r ↔
      r.queue = queue ∧ r.group = group ∧ nowMs ≤ r.expiresAtMs + codec.graceMs ∧
        ∃ key ∈ codec.keys, mac key (asciiBytes (handleVersion ++ '.' :: r.body)) =
          mac minter.signingKey (asciiBytes (handleVersion ++ '.' :: r.body)) := by
  rw [decode_encode]
  split_ifs with h
  · rw [bind_eq_ok]
    exact ⟨fun ⟨_, hq, hg, ht⟩ => ⟨hq, hg, ht, h⟩, fun ⟨hq, hg, ht, _⟩ => ⟨rfl, hq, hg, ht⟩⟩
  · exact ⟨nofun, fun ⟨_, _, _, h'⟩ => absurd h' h⟩

/-- A handle that a client can send: three parts, the version and a signature that is base64, with a
body that is no ASCII text. -/
def Unsignable (handle : List Char) : Prop :=
  ∃ body signature, handle.splitOn '.' = [handleVersion, body, signature] ∧
    (unb64 signature).isSome ∧ ¬ IsAscii body

theorem signedPart_eq_none {body : List Char} : signedPart body = none ↔ ¬ IsAscii body := by
  have version : IsAscii (handleVersion ++ '.' :: body) ↔ IsAscii body := by
    have all : IsAscii (handleVersion ++ ['.']) := by decide
    constructor
    · exact fun h c hc => h c (by simp [hc])
    · intro h c hc
      rw [show handleVersion ++ '.' :: body = handleVersion ++ ['.'] ++ body by simp] at hc
      rcases List.mem_append.1 hc with hc | hc
      · exact all c hc
      · exact h c hc
  unfold signedPart
  split_ifs with h <;> simp [← version, h]

/-- `decode` raises something else than `ReceiptError` exactly on the unsignable handles. -/
theorem decode_eq_unicodeEncodeError (codec : ReceiptCodec) (mac : Bytes → Bytes → Bytes)
    (lenient : Lenient) (handle : List Char) (queue group : String) (nowMs : ℤ) :
    codec.decode mac lenient handle queue group nowMs = .error .unicodeEncodeError ↔
      Unsignable handle := by
  have bound : ∀ r, codec.bind r queue group nowMs ≠ .error .unicodeEncodeError := by
    intro r
    unfold ReceiptCodec.bind
    split_ifs <;> exact nofun
  constructor
  · intro h
    unfold ReceiptCodec.decode at h
    split at h
    · rename_i version body signature hparts
      by_cases hversion : version = handleVersion
      swap
      · rw [if_pos hversion] at h
        cases h
      subst hversion
      rw [if_neg (not_not.2 rfl)] at h
      split at h
      · cases h
      · rename_i received hreceived
        split at h
        · rename_i hsigned
          exact ⟨body, signature, hparts, by rw [hreceived]; rfl, signedPart_eq_none.1 hsigned⟩
        · split at h
          · split at h
            · cases h
            · exact absurd h (bound _)
          · cases h
    · cases h
  · rintro ⟨body, signature, hparts, hsig, hbody⟩
    obtain ⟨received, hreceived⟩ := Option.isSome_iff_exists.1 hsig
    unfold ReceiptCodec.decode
    rw [hparts]
    simp only [ne_eq, not_true_eq_false, if_false, hreceived, signedPart_eq_none.2 hbody]

/-- The claims that `decode` returns were signed under a key of the ring. -/
theorem signed_of_decode (h : codec.decode mac lenient handle queue group nowMs = .ok r) :
    ∃ body signature received signed, handle.splitOn '.' = [handleVersion, body, signature] ∧
      unb64 signature = some received ∧ signedPart body = some signed ∧
      codec.Verifies mac signed received ∧ lenient.parseClaims body = some r := by
  unfold ReceiptCodec.decode at h
  split at h
  · rename_i version body signature hparts
    by_cases hversion : version = handleVersion
    swap
    · rw [if_pos hversion] at h
      cases h
    subst hversion
    rw [if_neg (not_not.2 rfl)] at h
    split at h
    · cases h
    · rename_i received hreceived
      split at h
      · cases h
      · rename_i signed hsigned
        split_ifs at h with hverifies
        split at h
        · cases h
        · rename_i r' hr'
          have same : r' = r := by
            unfold ReceiptCodec.bind at h
            split_ifs at h
            exact Except.ok.inj h
          subst same
          exact ⟨body, signature, received, signed, hparts, hreceived, hsigned, hverifies, hr'⟩
  · cases h

/-- Once `decode` accepted a handle, only the route and the clock decide. -/
theorem decode_of_decode (h : codec.decode mac lenient handle queue group nowMs = .ok r)
    (queue' group' : String) (nowMs' : ℤ) :
    codec.decode mac lenient handle queue' group' nowMs' = codec.bind r queue' group' nowMs' := by
  obtain ⟨body, signature, received, signed, parts, hreceived, hsigned, verifies, hr⟩ := signed_of_decode h
  unfold ReceiptCodec.decode
  simp only [parts, ne_eq, not_true_eq_false, if_false, hreceived, hsigned, verifies, if_true, hr]

end Decode

end Receipts

end NavigatorEventbus
