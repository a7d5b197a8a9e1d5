import NavigatorEventbus.Brokers.Core
import NavigatorEventbus.Lib.Double
import NavigatorEventbus.Webhook.Core

/-!
# Signature schemes

The schemes of `webhook_signatures.py`, over any HMAC with digests of the right size.  A scheme reads its options
twice: `sign` looks at `emit_prefix`, `verify` at `allow_bare`, and a scheme that neither emits a prefix nor takes
a bare digest refuses what it signs (`HexDigestScheme.verify_sign_iff`).  Stripe's scheme takes what it signs at
any time and with any tolerance.  What either scheme accepts carries the digest of the body
(`sign_verify_iff`).  The digits that `int` knows beyond ASCII are a parameter, and times are exact.
-/

namespace NavigatorEventbus.Webhook.Signatures

open Bus (Exc Outcome)

/-- The algorithms of `_ALGORITHMS`. -/
inductive Algorithm where
  | sha1
  | sha256
  | sha512
  deriving DecidableEq

namespace Algorithm

def name : Algorithm → Text
  | sha1 => "sha1".toList
  | sha256 => "sha256".toList
  | sha512 => "sha512".toList

/-- The bytes of a digest. -/
def size : Algorithm → ℕ
  | sha1 => 20
  | sha256 => 32
  | sha512 => 64

/-- The algorithm of a name. -/
def ofName (name : Text) : Option Algorithm := [sha1, sha256, sha512].find? fun algo => algo.name = name

end Algorithm

/-- `hmac.new(key, message, algo).digest()`. -/
structure Hmac where
  digest : Algorithm → Bytes → Bytes → Bytes
  length_digest : ∀ algo key message, (digest algo key message).length = algo.size

/-- `text.encode("utf-8")`. -/
def encode (s : Text) : Bytes := s.flatMap Utf8.encodeChar

/-- `_hmac_hex`. -/
def Hmac.hex (hmac : Hmac) (secret : Text) (message : Bytes) (algo : Algorithm) : Text :=
  Utf8.hex (hmac.digest algo (encode secret) message)

/-- `str.lower`, of which digests and the names of algorithms only meet the letters of ASCII. -/
def lower (s : Text) : Text := s.map Char.toLower

/-- `_equal`. -/
def equal (a b : Text) : Bool := lower (strip a) = lower (strip b)

/-! ## Hexadecimal texts -/

section Hex

variable (beyond : Char → Option ℕ)

/-- A digit of base 16. -/
def isHexDigit (c : Char) : Bool := (Json.hexValue c).isSome || (128 ≤ c.toNat && (beyond c).isSome)

/-- The digits after the first one. -/
def hexTail : Text → Bool
  | [] => true
  | '_' :: c :: rest => isHexDigit beyond c && hexTail rest
  | c :: rest => isHexDigit beyond c && hexTail rest

def hexRun : Text → Bool
  | [] => false
  | c :: rest => isHexDigit beyond c && hexTail beyond rest

/-- A number without its sign. -/
def hexMagnitude : Text → Bool
  | '0' :: 'x' :: '_' :: rest | '0' :: 'X' :: '_' :: rest => hexRun beyond rest
  | '0' :: 'x' :: rest | '0' :: 'X' :: rest => hexRun beyond rest
  | s => hexRun beyond s

/-- `_is_hex`: `int(value, 16)` reads it. -/
def isHex (value : Text) : Bool :=
  match strip value with
  | '+' :: rest | '-' :: rest => hexMagnitude beyond rest
  | rest => hexMagnitude beyond rest

end Hex

/-! ## Headers -/

/-- The headers of a delivery: a dictionary, or one that takes the letters of a name in either case. -/
structure HeaderMap where
  items : Headers
  caseless : Bool := false

/-- `headers.get(name)`. -/
def HeaderMap.get (headers : HeaderMap) (name : Text) : Option Text :=
  if headers.caseless then getHeader headers.items name else headers.items.lookup name

/-- `_read_header`. -/
def readHeader (headers : HeaderMap) (header : Text) (headerOverride : Option Text) : Option Text :=
  let name :=
    match headerOverride with
    | none | some [] => header
    | some name => name
  (headers.get name).or (getHeader headers.items name)

/-- `value.partition("=")`; `none` without a separator. -/
def partitionEq (s : Text) : Option (Text × Text) :=
  if '=' ∈ s then some (s.takeWhile (· ≠ '='), (s.dropWhile (· ≠ '=')).tail) else none

/-! ## A digest in a header -/

/-- `HexDigestScheme`. -/
structure HexDigestScheme where
  name : Text
  header : Text
  algorithms : List Algorithm
  allowBare : Bool
  emitPrefix : Bool
  algorithms_ne : algorithms ≠ []

namespace HexDigestScheme

/-- `HexDigestScheme.__init__`; `none` when it raises `ValueError`. -/
def init (name header : Text) (algorithms : List Text) (allowBare emitPrefix : Bool) : Option HexDigestScheme :=
  match algorithms.mapM Algorithm.ofName with
  | some (algo :: algos) => some ⟨name, header, algo :: algos, allowBare, emitPrefix, List.cons_ne_nil _ _⟩
  | _ => none

variable (scheme : HexDigestScheme) (hmac : Hmac) (beyond : Char → Option ℕ)

/-- The algorithm that signs. -/
def preferred : Algorithm := scheme.algorithms.head scheme.algorithms_ne

/-- The end of `verify`, when the algorithm is known. -/
def checkDigest (secret : Text) (body : Bytes) (algo : Algorithm) (digest : Text) : SignatureCheck :=
  if !isHex beyond (strip digest) then ⟨.malformed, some "not_hex"⟩
  else if equal (hmac.hex secret body algo) (strip digest) then ⟨.ok, none⟩
  else ⟨.mismatch, none⟩

/-- `HexDigestScheme.verify`, which reads neither the tolerance nor the time. -/
def verify (secret : Text) (body : Bytes) (headers : HeaderMap) (headerOverride : Option Text) : SignatureCheck :=
  match readHeader headers scheme.header headerOverride with
  | none | some [] => ⟨.missing, none⟩
  | some raw =>
    match partitionEq (strip raw) with
    | some (name, digest) =>
      match scheme.algorithms.find? fun algo => algo.name = lower (strip name) with
      | some algo => checkDigest hmac beyond secret body algo digest
      | none => ⟨.malformed, some "unsupported_alg"⟩
    | none =>
      if scheme.allowBare then checkDigest hmac beyond secret body scheme.preferred (strip raw)
      else ⟨.malformed, some "missing_alg_prefix"⟩

/-- `HexDigestScheme.sign`. -/
def sign (secret : Text) (body : Bytes) : Headers :=
  let digest := hmac.hex secret body scheme.preferred
  [(scheme.header, if scheme.emitPrefix then scheme.preferred.name ++ '=' :: digest else digest)]

end HexDigestScheme

/-! ## A timestamped digest -/

/-- `StripeScheme`. -/
structure StripeScheme where
  name : Text := "stripe".toList
  header : Text := "Stripe-Signature".toList
  algorithm : Algorithm := .sha256

namespace StripeScheme

/-- `StripeScheme.__init__`; `none` when it raises `ValueError`. -/
def init (name header algorithm : Text) : Option StripeScheme :=
  (Algorithm.ofName algorithm).map fun algo => ⟨name, header, algo⟩

/-- One part of the header. -/
def parsePart (parsed : Option Text × List Text) (part : Text) : Option Text × List Text :=
  match partitionEq (strip part) with
  | none => parsed
  | some (key, value) =>
    if strip key = ['t'] ∧ parsed.1 = none then (some (strip value), parsed.2)
    else if strip key = ['v', '1'] then (parsed.1, parsed.2 ++ [strip value])
    else parsed

/-- `_parse`. -/
def parse (raw : Text) : Option Text × List Text := (raw.splitOn ',').foldl parsePart (none, [])

/-- The message that is signed. -/
def message (issuedAt : ℤ) (body : Bytes) : Bytes := encode (Json.integer issuedAt ++ ['.']) ++ body

/-- `int(now)`. -/
def truncate (now : ℚ) : ℤ := if 0 ≤ now then ⌊now⌋ else ⌈now⌉

variable (scheme : StripeScheme) (hmac : Hmac) (beyond : Char → Option ℕ)

/-- The end of `verify`, when the timestamp is fresh. -/
def checkDigests (secret : Text) (body : Bytes) (issuedAt : ℤ) (signatures : List Text) : SignatureCheck :=
  if signatures.any (equal (hmac.hex secret (message issuedAt body) scheme.algorithm)) then ⟨.ok, none⟩
  else ⟨.mismatch, none⟩

/-- `StripeScheme.verify`. The difference of the time and an integer that is too large for a float raises
`OverflowError`. -/
def verify (secret : Text) (body : Bytes) (headers : HeaderMap) (headerOverride : Option Text) (tolerance : ℤ)
    (now : ℚ) : Outcome SignatureCheck :=
  match readHeader headers scheme.header headerOverride with
  | none | some [] => .ok ⟨.missing, none⟩
  | some raw =>
    match parse raw with
    | (none, _) => .ok ⟨.malformed, some "missing_timestamp"⟩
    | (some _, []) => .ok ⟨.malformed, some "missing_v1"⟩
    | (some timestamp, signature :: signatures) =>
      match Brokers.readInt beyond timestamp with
      | none => .ok ⟨.malformed, some "bad_timestamp"⟩
      | some issuedAt =>
        if ∃ sig ∈ signature :: signatures, isHex beyond sig = false then .ok ⟨.malformed, some "not_hex"⟩
        else if 0 < tolerance ∧ ¬Double.InRange |(issuedAt : ℚ)| then
          .error (.exception "OverflowError" (some "int too large to convert to float"))
        else if 0 < tolerance ∧ (tolerance : ℚ) < |now - issuedAt| then
          .ok ⟨.stale, some (if now < issuedAt then "future" else "expired")⟩
        else .ok (scheme.checkDigests hmac secret body issuedAt (signature :: signatures))

/-- `StripeScheme.sign`. -/
def sign (secret : Text) (body : Bytes) (now : ℚ) : Headers :=
  let issuedAt := truncate now
  let digest := hmac.hex secret (message issuedAt body) scheme.algorithm
  [(scheme.header, "t=".toList ++ Json.integer issuedAt ++ ",v1=".toList ++ digest)]

end StripeScheme

/-! ## Digests as texts -/

section Texts

variable {hmac : Hmac} {beyond : Char → Option ℕ} {secret : Text} {body : Bytes} {algo : Algorithm} {c : Char}

/-- A digit of a written digest. -/
def Lowercase (c : Char) : Prop := ∃ d < 16, c = Json.hexDigit d

theorem mem_hex (h : c ∈ hmac.hex secret body algo) : Lowercase c := by
  obtain ⟨b, -, mem⟩ := List.mem_flatMap.1 h
  have small := b.toNat_lt
  rcases List.mem_cons.1 mem with rfl | mem
  · exact ⟨_, by omega, rfl⟩
  · rw [List.mem_singleton.1 mem]
    exact ⟨_, by omega, rfl⟩

theorem hex_ne_nil : hmac.hex secret body algo ≠ [] := by
  intro nil
  have length := hmac.length_digest algo (encode secret) body
  have pos : 0 < algo.size := by cases algo <;> decide
  cases digest : hmac.digest algo (encode secret) body with
  | nil =>
    rw [digest] at length
    exact pos.ne length
  | cons b rest =>
    rw [Hmac.hex, digest] at nil
    cases nil

/-- The characters that separate the parts of a header or of a number. -/
def marks : List Char := ['=', ',', '_', '+', '-', 'x', 'X']

theorem Lowercase.plain (h : Lowercase c) : isStripped c = false ∧ c.toLower = c ∧ c ∉ marks := by
  obtain ⟨d, hd, rfl⟩ := h
  have all : ∀ d : Fin 16, isStripped (Json.hexDigit d) = false ∧ (Json.hexDigit d).toLower = Json.hexDigit d ∧
      Json.hexDigit d ∉ marks := by decide
  exact all ⟨d, hd⟩

theorem Lowercase.digit (h : Lowercase c) : isHexDigit beyond c = true := by
  obtain ⟨d, hd, rfl⟩ := h
  have all : ∀ d : Fin 16, (Json.hexValue (Json.hexDigit d)).isSome = true := by decide
  rw [isHexDigit, all ⟨d, hd⟩]
  rfl

theorem strip_hex : strip (hmac.hex secret body algo) = hmac.hex secret body algo :=
  Brokers.strip_eq_self fun _ h => (mem_hex h).plain.1

theorem lower_hex : lower (hmac.hex secret body algo) = hmac.hex secret body algo :=
  (List.map_congr_left fun _ h => (mem_hex h).plain.2.1).trans (List.map_id _)

theorem hexTail_of_digits {s : Text} (digits : ∀ c ∈ s, Lowercase c) : hexTail beyond s = true := by
  induction s with
  | nil => rfl
  | cons c rest ih =>
    have first := digits c (List.mem_cons_self ..)
    rw [hexTail, first.digit, ih fun d hd => digits d (List.mem_cons_of_mem _ hd)]
    · rfl
    · rintro _ _ rfl
      exact absurd (by decide) first.plain.2.2

/-- `int` reads a digest as a number of base 16. -/
theorem isHex_hex : isHex beyond (hmac.hex secret body algo) = true := by
  have digits : ∀ c ∈ hmac.hex secret body algo, Lowercase c := fun _ => mem_hex
  have nonempty : hmac.hex secret body algo ≠ [] := hex_ne_nil
  rw [isHex, strip_hex]
  generalize hmac.hex secret body algo = s at digits nonempty
  have run : hexRun beyond s = true := by
    cases s with
    | nil => exact absurd rfl nonempty
    | cons c rest =>
      rw [hexRun, (digits c (List.mem_cons_self ..)).digit,
        hexTail_of_digits fun d hd => digits d (List.mem_cons_of_mem _ hd)]
      rfl
  have never : ∀ c ∈ marks, c ∉ s := fun c sign mem => (digits c mem).plain.2.2 sign
  have magnitude : hexMagnitude beyond s = true := by
    unfold hexMagnitude
    split
    · exact absurd (by simp) (never 'x' (by decide))
    · exact absurd (by simp) (never 'X' (by decide))
    · exact absurd (by simp) (never 'x' (by decide))
    · exact absurd (by simp) (never 'X' (by decide))
    · exact run
  split
  · exact absurd (by simp) (never '+' (by decide))
  · exact absurd (by simp) (never '-' (by decide))
  · exact magnitude

theorem equal_hex {s : Text} :
    equal (hmac.hex secret body algo) s = true ↔ lower (strip s) = hmac.hex secret body algo := by
  rw [equal, strip_hex, lower_hex, decide_eq_true_iff]
  exact eq_comm

end Texts

/-! ## Signed headers -/

theorem readHeader_signed (header value : Text) (caseless : Bool) :
    readHeader ⟨[(header, value)], caseless⟩ header none = some value := by
  have folded : getHeader [(header, value)] header = some value := by simp [getHeader]
  have found : (HeaderMap.mk [(header, value)] caseless).get header = some value := by
    rw [HeaderMap.get]
    split_ifs
    · exact folded
    · exact List.lookup_cons_self
  simp only [readHeader, found, Option.some_or]

theorem partitionEq_append {a b : Text} (h : '=' ∉ a) : partitionEq (a ++ '=' :: b) = some (a, b) := by
  have apart : ∀ c ∈ a, decide (c ≠ '=') = true := by
    intro c hc
    rw [decide_eq_true_iff]
    rintro rfl
    exact h hc
  have before : (a ++ '=' :: b).takeWhile (· ≠ '=') = a := by
    rw [List.takeWhile_append_of_pos apart, List.takeWhile_cons_of_neg (by decide), List.append_nil]
  have after : (a ++ '=' :: b).dropWhile (· ≠ '=') = '=' :: b := by
    rw [List.dropWhile_append_of_pos apart, List.dropWhile_cons_of_neg (by decide)]
  rw [partitionEq, if_pos (by simp), before, after]
  rfl

theorem partitionEq_none {s : Text} (h : '=' ∉ s) : partitionEq s = none := if_neg h

namespace HexDigestScheme

variable {scheme : HexDigestScheme} {hmac : Hmac} {beyond : Char → Option ℕ} {secret : Text} {body : Bytes}

theorem checkDigest_hex (algo : Algorithm) :
    checkDigest hmac beyond secret body algo (hmac.hex secret body algo) = ⟨.ok, none⟩ := by
  have same : equal (hmac.hex secret body algo) (hmac.hex secret body algo) = true := by
    rw [equal_hex, strip_hex, lower_hex]
  rw [checkDigest, strip_hex, isHex_hex, same]
  rfl

theorem checkDigest_ok {algo : Algorithm} {digest : Text}
    (h : (checkDigest hmac beyond secret body algo digest).verdict = .ok) :
    lower (strip digest) = hmac.hex secret body algo := by
  rw [checkDigest] at h
  split_ifs at h with malformed same
  rw [equal_hex, strip_strip] at same
  exact same

theorem verify_of_raw {headers : HeaderMap} {headerOverride : Option Text} {raw : Text}
    (found : readHeader headers scheme.header headerOverride = some raw) (ne : raw ≠ []) :
    scheme.verify hmac beyond secret body headers headerOverride =
      match partitionEq (strip raw) with
      | some (name, digest) =>
        match scheme.algorithms.find? fun algo => algo.name = lower (strip name) with
        | some algo => checkDigest hmac beyond secret body algo digest
        | none => ⟨.malformed, some "unsupported_alg"⟩
      | none =>
        if scheme.allowBare then checkDigest hmac beyond secret body scheme.preferred (strip raw)
        else ⟨.malformed, some "missing_alg_prefix"⟩ := by
  cases raw with
  | nil => exact absurd rfl ne
  | cons c rest => rw [verify, found]

/-- The name of an algorithm is read as it is written. -/
theorem name_plain (algo : Algorithm) :
    '=' ∉ algo.name ∧ lower (strip algo.name) = algo.name ∧ ∀ c ∈ algo.name, isStripped c = false := by
  have solid : algo.name.all (fun c => !isStripped c) = true := by cases algo <;> rfl
  refine ⟨?_, ?_, fun c hc => ?_⟩
  · cases algo <;> decide
  · cases algo <;> rfl
  · simpa using List.all_eq_true.1 solid c hc

theorem preferred_mem : scheme.preferred ∈ scheme.algorithms := List.head_mem _

/-- The preferred algorithm is found by its name. -/
theorem find_preferred :
    (scheme.algorithms.find? fun algo => algo.name = lower (strip scheme.preferred.name)) =
      some scheme.preferred := by
  obtain ⟨algo, rest, algorithms⟩ := List.exists_cons_of_ne_nil scheme.algorithms_ne
  have first : scheme.preferred = algo := by simp only [preferred, algorithms, List.head_cons]
  rw [(name_plain _).2.1, first, algorithms, List.find?_cons_of_pos (by simp)]

theorem verify_prefixed (emitPrefix : scheme.emitPrefix = true) (caseless : Bool) :
    scheme.verify hmac beyond secret body ⟨scheme.sign hmac secret body, caseless⟩ none = ⟨.ok, none⟩ := by
  have signed : scheme.sign hmac secret body =
      [(scheme.header, scheme.preferred.name ++ '=' :: hmac.hex secret body scheme.preferred)] := by
    rw [sign, if_pos emitPrefix]
  have solid : strip (scheme.preferred.name ++ '=' :: hmac.hex secret body scheme.preferred) =
      scheme.preferred.name ++ '=' :: hmac.hex secret body scheme.preferred := by
    refine Brokers.strip_eq_self fun c hc => ?_
    rcases List.mem_append.1 hc with name | digest
    · exact (name_plain _).2.2 c name
    · rcases List.mem_cons.1 digest with rfl | digest
      · decide
      · exact (mem_hex digest).plain.1
  rw [signed, verify_of_raw (readHeader_signed _ _ _) (by simp), solid, partitionEq_append (name_plain _).1]
  simp only [find_preferred]
  exact checkDigest_hex _

theorem verify_bare (emitPrefix : scheme.emitPrefix = false) (caseless : Bool) :
    scheme.verify hmac beyond secret body ⟨scheme.sign hmac secret body, caseless⟩ none =
      if scheme.allowBare then ⟨.ok, none⟩ else ⟨.malformed, some "missing_alg_prefix"⟩ := by
  have signed : scheme.sign hmac secret body = [(scheme.header, hmac.hex secret body scheme.preferred)] := by
    rw [sign, emitPrefix]
    rfl
  have bare : '=' ∉ hmac.hex secret body scheme.preferred := fun mem => (mem_hex mem).plain.2.2 (by decide)
  rw [signed, verify_of_raw (readHeader_signed _ _ _) hex_ne_nil, strip_hex, partitionEq_none bare]
  simp only [checkDigest_hex]

/-- A scheme takes what it signs if and only if it emits a prefix or takes a bare digest. -/
theorem verify_sign_iff (scheme : HexDigestScheme) (hmac : Hmac) (beyond : Char → Option ℕ) (secret : Text)
    (body : Bytes) (caseless : Bool) :
    (scheme.verify hmac beyond secret body ⟨scheme.sign hmac secret body, caseless⟩ none).verdict = .ok ↔
      scheme.emitPrefix = true ∨ scheme.allowBare = true := by
  by_cases emitPrefix : scheme.emitPrefix = true
  · rw [verify_prefixed emitPrefix]
    exact iff_of_true rfl (.inl emitPrefix)
  · rw [verify_bare (eq_false_of_ne_true emitPrefix)]
    by_cases allowBare : scheme.allowBare = true
    · rw [if_pos allowBare]
      exact iff_of_true rfl (.inr allowBare)
    · rw [if_neg allowBare]
      exact iff_of_false (by simp) (not_or.2 ⟨emitPrefix, allowBare⟩)

/-- The digest that a header carries, after its prefix if it has one. -/
def carried (raw : Text) : Text := ((partitionEq (strip raw)).map Prod.snd).getD (strip raw)

/-- The header carries the digest of the body under a permitted algorithm. -/
def Signed (scheme : HexDigestScheme) (hmac : Hmac) (secret : Text) (body : Bytes) (headers : HeaderMap)
    (headerOverride : Option Text) : Prop :=
  ∃ raw, readHeader headers scheme.header headerOverride = some raw ∧
    ∃ algo ∈ scheme.algorithms, lower (strip (carried raw)) = hmac.hex secret body algo

theorem signed_of_verify {headers : HeaderMap} {headerOverride : Option Text}
    (h : (scheme.verify hmac beyond secret body headers headerOverride).verdict = .ok) :
    scheme.Signed hmac secret body headers headerOverride := by
  cases found : readHeader headers scheme.header headerOverride with
  | none =>
    rw [verify, found] at h
    cases h
  | some raw =>
    by_cases empty : raw = []
    · rw [verify, found, empty] at h
      cases h
    · rw [verify_of_raw found empty] at h
      refine ⟨raw, found, ?_⟩
      cases parts : partitionEq (strip raw) with
      | some p =>
        obtain ⟨name, digest⟩ := p
        simp only [parts] at h
        cases algo : scheme.algorithms.find? fun algo => algo.name = lower (strip name) with
        | none =>
          rw [algo] at h
          cases h
        | some a =>
          rw [algo] at h
          refine ⟨a, List.mem_of_find?_eq_some algo, ?_⟩
          rw [carried, parts]
          exact checkDigest_ok h
      | none =>
        simp only [parts] at h
        by_cases allowBare : scheme.allowBare = true
        · rw [if_pos allowBare] at h
          refine ⟨_, preferred_mem, ?_⟩
          rw [carried, parts]
          exact checkDigest_ok h
        · rw [if_neg allowBare] at h
          cases h

end HexDigestScheme

namespace StripeScheme

variable {scheme : StripeScheme} {hmac : Hmac} {beyond : Char → Option ℕ} {secret : Text} {body : Bytes} {now : ℚ}

/-- The timestamp is less than a second before or after the time, and no further from zero. -/
theorem truncate_spec (now : ℚ) : |now - truncate now| < 1 ∧ |(truncate now : ℚ)| ≤ |now| := by
  by_cases after : 0 ≤ now
  · have whole : truncate now = ⌊now⌋ := if_pos after
    have below := Int.floor_le now
    have above := Int.lt_floor_add_one now
    have nonneg : (0 : ℚ) ≤ ⌊now⌋ := by exact_mod_cast Int.floor_nonneg.2 after
    rw [whole, abs_of_nonneg (sub_nonneg.2 below), abs_of_nonneg nonneg, abs_of_nonneg after]
    exact ⟨by linarith, below⟩
  · have whole : truncate now = ⌈now⌉ := if_neg after
    have above := Int.le_ceil now
    have below := Int.ceil_lt_add_one now
    have nonpos : (⌈now⌉ : ℚ) ≤ 0 := by exact_mod_cast Int.ceil_le.2 (by push_cast; linarith)
    rw [whole, abs_of_nonpos (sub_nonpos.2 above), abs_of_nonpos nonpos, abs_of_neg (not_le.1 after)]
    exact ⟨by linarith, by linarith⟩

theorem natAbs_lt_ten_pow {n : ℤ} {k m : ℕ} (le : k ≤ m) (h : |(n : ℚ)| < 2 ^ k) : n.natAbs < 10 ^ m := by
  have small : n.natAbs < 2 ^ k := by
    rw [← Nat.cast_lt (α := ℚ), Nat.cast_natAbs, Int.cast_abs, Nat.cast_pow, Nat.cast_ofNat]
    exact h
  calc n.natAbs < 2 ^ k := small
    _ ≤ 10 ^ k := Nat.pow_le_pow_left (by decide) k
    _ ≤ 10 ^ m := Nat.pow_le_pow_right (by decide) le

/-- The timestamp of a time that is a float is one, and `int` reads it. -/
theorem truncate_inRange (h : Double.InRange |now|) :
    Double.InRange |(truncate now : ℚ)| ∧ (truncate now).natAbs < 10 ^ 4300 := by
  have le := (truncate_spec now).2
  constructor
  · by_cases zero : truncate now = 0
    · rw [zero, Int.cast_zero, abs_zero]
      exact Double.inRange_zero
    · exact h.of_le (abs_pos.2 (by exact_mod_cast zero)) le
  · exact natAbs_lt_ten_pow (by decide : 1024 ≤ 4300) (le.trans_lt h.lt)

theorem mem_integer {n : ℤ} {c : Char} (h : c ∈ Json.integer n) : c = '-' ∨ c.isDigit = true := by
  unfold Json.integer at h
  split_ifs at h
  · rcases List.mem_cons.1 h with rfl | h
    · exact .inl rfl
    · exact .inr (Json.mem_natural h)
  · exact .inr (Json.mem_natural h)

theorem integer_plain {n : ℤ} {c : Char} (h : c ∈ Json.integer n) : isStripped c = false ∧ c ≠ ',' := by
  rcases mem_integer h with rfl | digit
  · decide
  · refine ⟨Brokers.isStripped_of_isDigit digit, ?_⟩
    rintro rfl
    cases digit

/-- The parts of a signed header. -/
theorem parse_signed (n : ℤ) (algo : Algorithm) (message : Bytes) :
    parse ("t=".toList ++ Json.integer n ++ ",v1=".toList ++ hmac.hex secret message algo) =
      (some (Json.integer n), [hmac.hex secret message algo]) := by
  have whole : "t=".toList ++ Json.integer n ++ ",v1=".toList ++ hmac.hex secret message algo =
      ('t' :: '=' :: Json.integer n) ++ ',' :: ('v' :: '1' :: '=' :: hmac.hex secret message algo) := by
    simp
  have first : ',' ∉ 't' :: '=' :: Json.integer n := by
    simp only [List.mem_cons, not_or]
    exact ⟨by decide, by decide, fun mem => (integer_plain mem).2 rfl⟩
  have second : ',' ∉ 'v' :: '1' :: '=' :: hmac.hex secret message algo := by
    simp only [List.mem_cons, not_or]
    exact ⟨by decide, by decide, by decide, fun mem => (mem_hex mem).plain.2.2 (by decide)⟩
  have solid : ∀ c ∈ Json.integer n, isStripped c = false := fun _ mem => (integer_plain mem).1
  have timestamp : strip ('t' :: '=' :: Json.integer n) = ['t'] ++ '=' :: Json.integer n :=
    Brokers.strip_eq_self (by simpa using ⟨by decide, by decide, solid⟩)
  have signature : strip ('v' :: '1' :: '=' :: hmac.hex secret message algo) =
      ['v', '1'] ++ '=' :: hmac.hex secret message algo :=
    Brokers.strip_eq_self (by simpa using ⟨by decide, by decide, by decide, fun c mem => (mem_hex mem).plain.1⟩)
  have read : parsePart (none, []) ('t' :: '=' :: Json.integer n) = (some (Json.integer n), []) := by
    rw [parsePart, timestamp, partitionEq_append (by decide)]
    simp only [Brokers.strip_eq_self solid]
    rfl
  have added : parsePart (some (Json.integer n), []) ('v' :: '1' :: '=' :: hmac.hex secret message algo) =
      (some (Json.integer n), [hmac.hex secret message algo]) := by
    rw [parsePart, signature, partitionEq_append (by decide)]
    simp only [strip_hex]
    rfl
  rw [parse, whole, List.splitOn_append_cons_self_of_not_mem first, List.splitOn_eq_singleton second,
    List.foldl_cons, List.foldl_cons, List.foldl_nil, read, added]

/-- The scheme takes what it signs, at a time that is a float. -/
theorem verify_sign (scheme : StripeScheme) (hmac : Hmac) (beyond : Char → Option ℕ) (secret : Text) (body : Bytes)
    (tolerance : ℤ) (h : Double.InRange |now|) (caseless : Bool) :
    scheme.verify hmac beyond secret body ⟨scheme.sign hmac secret body now, caseless⟩ none tolerance now =
      .ok ⟨.ok, none⟩ := by
  obtain ⟨range, short⟩ := truncate_inRange h
  have near := (truncate_spec now).1
  have fresh : ¬(0 < tolerance ∧ (tolerance : ℚ) < |now - truncate now|) := by
    rintro ⟨pos, old⟩
    have one : (1 : ℚ) ≤ tolerance := by exact_mod_cast pos
    linarith
  have hexes : ¬∃ sig ∈ [hmac.hex secret (message (truncate now) body) scheme.algorithm], isHex beyond sig = false := by
    rintro ⟨sig, mem, unread⟩
    rw [List.mem_singleton.1 mem, isHex_hex] at unread
    cases unread
  have same : equal (hmac.hex secret (message (truncate now) body) scheme.algorithm)
      (hmac.hex secret (message (truncate now) body) scheme.algorithm) = true := by
    rw [equal_hex, strip_hex, lower_hex]
  rw [verify, sign, readHeader_signed]
  show (match parse ("t=".toList ++ Json.integer (truncate now) ++ ",v1=".toList ++
    hmac.hex secret (message (truncate now) body) scheme.algorithm) with
    | (none, _) => _
    | (some _, []) => _
    | (some timestamp, signature :: signatures) => _) = _
  rw [parse_signed]
  simp only [Brokers.readInt_of_short short, if_neg hexes, if_neg (fun far => far.2 range : ¬(0 < tolerance ∧
    ¬Double.InRange |((truncate now : ℤ) : ℚ)|)), if_neg fresh]
  rw [checkDigests, List.any_cons, same]
  rfl

/-- A `v1` digest of the header is the digest of the timestamped body, and the timestamp is within a positive
tolerance. -/
def Signed (scheme : StripeScheme) (hmac : Hmac) (beyond : Char → Option ℕ) (secret : Text) (body : Bytes)
    (headers : HeaderMap) (headerOverride : Option Text) (tolerance : ℤ) (now : ℚ) : Prop :=
  ∃ raw timestamp issuedAt, readHeader headers scheme.header headerOverride = some raw ∧
    (parse raw).1 = some timestamp ∧ Brokers.readInt beyond timestamp = some issuedAt ∧
    (∃ sig ∈ (parse raw).2, lower (strip sig) = hmac.hex secret (message issuedAt body) scheme.algorithm) ∧
    (0 < tolerance → |now - issuedAt| ≤ tolerance)

theorem checkDigests_ok {issuedAt : ℤ} {signatures : List Text}
    (h : (scheme.checkDigests hmac secret body issuedAt signatures).verdict = .ok) :
    ∃ sig ∈ signatures, lower (strip sig) = hmac.hex secret (message issuedAt body) scheme.algorithm := by
  unfold checkDigests at h
  split_ifs at h with same
  obtain ⟨sig, mem, eq⟩ := List.any_eq_true.1 same
  exact ⟨sig, mem, equal_hex.1 eq⟩

theorem signed_of_verify {headers : HeaderMap} {headerOverride : Option Text} {tolerance : ℤ}
    {check : SignatureCheck} (h : scheme.verify hmac beyond secret body headers headerOverride tolerance now = .ok check)
    (ok : check.verdict = .ok) : scheme.Signed hmac beyond secret body headers headerOverride tolerance now := by
  have refused : ∀ {verdict : SignatureVerdict} {detail : Option String}, verdict ≠ .ok →
      (.ok ⟨verdict, detail⟩ : Outcome SignatureCheck) = .ok check → False := by
    intro verdict detail bad eq
    cases eq
    exact bad ok
  cases found : readHeader headers scheme.header headerOverride with
  | none =>
    rw [verify, found] at h
    exact (refused (by decide) h).elim
  | some raw =>
    cases raw with
    | nil =>
      rw [verify, found] at h
      exact (refused (by decide) h).elim
    | cons c rest =>
      rw [verify, found] at h
      dsimp only at h
      rcases parsed : parse (c :: rest) with ⟨stamp, sigs⟩
      cases stamp with
      | none =>
        rw [parsed] at h
        exact (refused (by decide) h).elim
      | some timestamp =>
        cases sigs with
        | nil =>
          rw [parsed] at h
          exact (refused (by decide) h).elim
        | cons signature signatures =>
          rw [parsed] at h
          cases issued : Brokers.readInt beyond timestamp with
          | none =>
            simp only [issued] at h
            exact (refused (by decide) h).elim
          | some issuedAt =>
            simp only [issued] at h
            split_ifs at h with unread far old future
            · exact (refused (by decide) h).elim
            · exact (refused (by decide) h).elim
            · exact (refused (by decide) h).elim
            · cases h
              rw [not_and, not_lt] at old
              refine ⟨_, timestamp, issuedAt, found, by rw [parsed], issued, ?_, old⟩
              rw [parsed]
              exact checkDigests_ok ok

end StripeScheme

/-! ## Both schemes -/

/-- A hex digest scheme takes what it signs if and only if it emits a prefix or takes a bare digest, and Stripe's
scheme always does; and what the schemes accept is signed. -/
theorem sign_verify_iff (hmac : Hmac) (beyond : Char → Option ℕ) :
    (∀ (scheme : HexDigestScheme) secret body caseless,
      (scheme.verify hmac beyond secret body ⟨scheme.sign hmac secret body, caseless⟩ none).verdict = .ok ↔
        scheme.emitPrefix = true ∨ scheme.allowBare = true) ∧
    (∀ (scheme : HexDigestScheme) secret body headers headerOverride,
      (scheme.verify hmac beyond secret body headers headerOverride).verdict = .ok →
        scheme.Signed hmac secret body headers headerOverride) ∧
    (∀ (scheme : StripeScheme) secret body tolerance now caseless, Double.InRange |now| →
      scheme.verify hmac beyond secret body ⟨scheme.sign hmac secret body now, caseless⟩ none tolerance now =
        .ok ⟨.ok, none⟩) ∧
    ∀ (scheme : StripeScheme) secret body headers headerOverride tolerance now detail,
      scheme.verify hmac beyond secret body headers headerOverride tolerance now = .ok ⟨.ok, detail⟩ →
        scheme.Signed hmac beyond secret body headers headerOverride tolerance now :=
  ⟨fun scheme secret body caseless => scheme.verify_sign_iff hmac beyond secret body caseless,
    fun _ _ _ _ _ => HexDigestScheme.signed_of_verify,
    fun scheme secret body tolerance _ caseless h => scheme.verify_sign hmac beyond secret body tolerance h caseless,
    fun _ _ _ _ _ _ _ _ h => StripeScheme.signed_of_verify h rfl⟩

/-- An HMAC of zeros. -/
def zeroHmac : Hmac where
  digest algo _ _ := List.replicate algo.size 0
  length_digest _ _ _ := List.length_replicate

/-- Stripe's scheme at the start of the epoch. -/
theorem sign_verify_stripe :
    Double.InRange |(0 : ℚ)| ∧
      ({} : StripeScheme).verify zeroHmac (fun _ => none) "k".toList [123, 125]
        ⟨({} : StripeScheme).sign zeroHmac "k".toList [123, 125] 0, false⟩ none 300 0 = .ok ⟨.ok, none⟩ := by
  have zero : Double.InRange |(0 : ℚ)| := by
    rw [abs_zero]
    exact Double.inRange_zero
  exact ⟨zero, (sign_verify_iff zeroHmac fun _ => none).2.2.1 {} _ _ 300 0 false zero⟩

/-- A scheme for bare digests that only takes prefixed ones. -/
def bareScheme : HexDigestScheme where
  name := "bare".toList
  header := "X-Signature".toList
  algorithms := [.sha256]
  allowBare := false
  emitPrefix := false
  algorithms_ne := by decide

/-- The scheme is accepted, and it refuses what it signs. -/
theorem bare_refused :
    HexDigestScheme.init "bare".toList "X-Signature".toList ["sha256".toList] false false = some bareScheme ∧
      bareScheme.verify zeroHmac (fun _ => none) "k".toList [123, 125]
        ⟨bareScheme.sign zeroHmac "k".toList [123, 125], false⟩ none = ⟨.malformed, some "missing_alg_prefix"⟩ := by
  refine ⟨rfl, ?_⟩
  rw [HexDigestScheme.verify_bare rfl]
  rfl

end NavigatorEventbus.Webhook.Signatures
