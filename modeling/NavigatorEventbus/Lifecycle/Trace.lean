import NavigatorEventbus.Lib.Hex
import NavigatorEventbus.Lifecycle.Registry

/-!
# Trace contexts between processes

The `traceparent` header of a trace context (`lifecycle/trace.py`): how it is written, and what is accepted when
it is read.  The accepted headers are exactly the headers of the contexts that a header can carry
(`accepts_iff`), and the spans that are made along a chain of children and hops between processes stay in one
trace, each below the one before (`chain_connected`).  The message of an error quotes with Python's `repr`, which
is a parameter.
-/

namespace NavigatorEventbus.Lifecycle

namespace TraceContext

/-- `new_root`, with what `secrets.token_hex` returns. -/
def newRoot (traceId spanId : Text) : TraceContext where
  traceId := traceId
  spanId := spanId
  traceFlags := 1
  traceState := []
  parentSpanId := none

/-- `child`, with what `secrets.token_hex` returns. -/
def child (context : TraceContext) (spanId : Text) : TraceContext where
  traceId := context.traceId
  spanId := spanId
  traceFlags := context.traceFlags
  traceState := context.traceState
  parentSpanId := some context.spanId

/-- `_is_hex`. -/
def isHex (s : Text) : Bool := s.all fun c => c ∈ Hex.digits

/-- What is wrong with a header. -/
inductive Malformed where
  | empty
  | fields (count : ℕ)
  | version (got : Text)
  | traceId (got : Text)
  | spanId (got : Text)
  | flags (got : Text)
  deriving DecidableEq

/-- The message of the `ValueError`. -/
def Malformed.message (repr : Text → Text) (header : Text) : Malformed → Text
  | empty => "Invalid traceparent header: empty string".toList
  | fields count => quoted "expected 4 dash-separated fields, got ".toList (Nat.toDigits 10 count)
  | version got => quoted "unsupported version ".toList (repr got ++ " (only '00' is supported)".toList)
  | traceId got => quoted "trace_id must be 32 lowercase hex chars, got ".toList (repr got)
  | spanId got => quoted "span_id must be 16 lowercase hex chars, got ".toList (repr got)
  | flags got => quoted "trace-flags must be 2 lowercase hex chars, got ".toList (repr got)
where
  quoted (what got : Text) : Text :=
    "Invalid traceparent header ".toList ++ repr header ++ ": ".toList ++ what ++ got

/-- `from_traceparent_header`. -/
def fromTraceparentHeader (header : Text) : Except Malformed TraceContext :=
  if header = [] then .error .empty
  else
    match header.splitOn '-' with
    | [version, traceId, spanId, flagsHex] =>
      if version ≠ "00".toList then .error (.version version)
      else if traceId.length ≠ 32 ∨ isHex traceId = false then .error (.traceId traceId)
      else if spanId.length ≠ 16 ∨ isHex spanId = false then .error (.spanId spanId)
      else if flagsHex.length ≠ 2 ∨ isHex flagsHex = false then .error (.flags flagsHex)
      else .ok {
        traceId := traceId
        spanId := spanId
        traceFlags := Hex.number flagsHex
        traceState := []
        parentSpanId := none }
    | parts => .error (.fields parts.length)

/-- An integer in the format `02x`. -/
def format02x (n : ℤ) : Text := if n < 0 then '-' :: Hex.numeral 1 n.natAbs else Hex.numeral 2 n.natAbs

/-- `to_traceparent_header`. -/
def toTraceparentHeader (context : TraceContext) : Text :=
  "00-".toList ++ context.traceId ++ ['-'] ++ context.spanId ++ ['-'] ++ format02x context.traceFlags

/-! ## What a header carries -/

/-- A header can carry the identifiers and the flags. -/
structure Carried (context : TraceContext) : Prop where
  traceId_length : context.traceId.length = 32
  traceId_hex : isHex context.traceId = true
  spanId_length : context.spanId.length = 16
  spanId_hex : isHex context.spanId = true
  flags : 0 ≤ context.traceFlags ∧ context.traceFlags < 256

/-- The context without what no header carries. -/
def received (context : TraceContext) : TraceContext :=
  { context with traceState := [], parentSpanId := none }

variable {context : TraceContext} {header s : Text}

theorem isHex_iff : isHex s = true ↔ ∀ c ∈ s, c ∈ Hex.digits := by simp [isHex]

theorem dash_not_mem (hex : isHex s = true) : '-' ∉ s := fun mem =>
  absurd (isHex_iff.1 hex '-' mem) (by decide)

theorem carried_received : context.received.Carried ↔ context.Carried :=
  ⟨fun h => ⟨h.traceId_length, h.traceId_hex, h.spanId_length, h.spanId_hex, h.flags⟩,
    fun h => ⟨h.traceId_length, h.traceId_hex, h.spanId_length, h.spanId_hex, h.flags⟩⟩

/-- The flags of two digits are what they write. -/
theorem format02x_number (length : s.length = 2) (hex : isHex s = true) :
    format02x (Hex.number s) = s ∧ (Hex.number s : ℤ) < 256 := by
  have ne : s ≠ [] := List.ne_nil_of_length_pos (by omega)
  have numeral := Hex.numeral_number (isHex_iff.1 hex) ne
  rw [length] at numeral
  have small : Hex.number s < 16 ^ 2 := (Hex.length_numeral_eq_iff (by omega)).1 (by rw [numeral, length])
  refine ⟨?_, by omega⟩
  rw [format02x, if_neg (by omega), Int.natAbs_natCast, numeral]

/-- The digits of flags below 256. -/
theorem format02x_spec {n : ℤ} (nonneg : 0 ≤ n) (small : n < 256) :
    (format02x n).length = 2 ∧ isHex (format02x n) = true ∧ (Hex.number (format02x n) : ℤ) = n := by
  rw [format02x, if_neg (by omega)]
  refine ⟨(Hex.length_numeral_eq_iff (by omega)).2 (by omega), isHex_iff.2 fun c => Hex.mem_numeral, ?_⟩
  rw [Hex.number_numeral]
  omega

/-- The fields of a header that its parts are free of dashes. -/
theorem splitOn_header {traceId spanId flags : Text} (ht : '-' ∉ traceId) (hs : '-' ∉ spanId) (hf : '-' ∉ flags) :
    ("00-".toList ++ traceId ++ ['-'] ++ spanId ++ ['-'] ++ flags).splitOn '-' =
      ["00".toList, traceId, spanId, flags] := by
  have shape : "00-".toList ++ traceId ++ ['-'] ++ spanId ++ ['-'] ++ flags =
      "00".toList ++ '-' :: (traceId ++ '-' :: (spanId ++ '-' :: flags)) := by simp
  rw [shape, List.splitOn_append_cons_self_of_not_mem (by decide),
    List.splitOn_append_cons_self_of_not_mem ht, List.splitOn_append_cons_self_of_not_mem hs,
    List.splitOn_eq_singleton hf]

/-- A context that a header can carry is received from its header. -/
theorem fromTraceparentHeader_of_carried (h : context.Carried) :
    fromTraceparentHeader context.toTraceparentHeader = .ok context.received := by
  obtain ⟨length, hex, number⟩ := format02x_spec h.flags.1 h.flags.2
  have ne : context.toTraceparentHeader ≠ [] := by simp [toTraceparentHeader]
  rw [fromTraceparentHeader, if_neg ne, toTraceparentHeader,
    splitOn_header (dash_not_mem h.traceId_hex) (dash_not_mem h.spanId_hex) (dash_not_mem hex)]
  simp [h.traceId_length, h.traceId_hex, h.spanId_length, h.spanId_hex, length, hex, number, received]

/-- What is received is carried, and from its own header. -/
theorem carried_of_fromTraceparentHeader (h : fromTraceparentHeader header = .ok context) :
    context.Carried ∧ context.received = context ∧ header = context.toTraceparentHeader := by
  have joined : ['-'].intercalate (header.splitOn '-') = header := List.intercalate_splitOn '-'
  unfold fromTraceparentHeader at h
  by_cases empty : header = []
  · rw [if_pos empty] at h
    cases h
  rw [if_neg empty] at h
  generalize header.splitOn '-' = parts at h joined
  rcases parts with _ | ⟨version, _ | ⟨traceId, _ | ⟨spanId, _ | ⟨flagsHex, _ | ⟨other, rest⟩⟩⟩⟩⟩
  case cons.cons.cons.cons.nil =>
    dsimp only at h
    split_ifs at h with hv ht hs hf
    push Not at hv ht hs hf
    obtain ⟨format, small⟩ := format02x_number hf.1 (by simpa using hf.2)
    cases h
    refine ⟨⟨ht.1, by simpa using ht.2, hs.1, by simpa using hs.2, Int.natCast_nonneg _, small⟩, rfl, ?_⟩
    rw [toTraceparentHeader, format, ← joined, hv]
    simp [List.intercalate]
  all_goals cases h

/-- A header is accepted, as a context, exactly when it is the header of this context, which a header can carry
and which holds nothing else. -/
theorem accepts_iff (header : Text) (context : TraceContext) :
    fromTraceparentHeader header = .ok context ↔
      context.Carried ∧ context.received = context ∧ header = context.toTraceparentHeader := by
  refine ⟨carried_of_fromTraceparentHeader, fun h => ?_⟩
  obtain ⟨carried, plain, rfl⟩ := h
  rw [fromTraceparentHeader_of_carried carried, plain]

/-! ## Chains of spans -/

/-- A step of a trace: a child span, or the way to another process, in a header. -/
inductive Move where
  | child (spanId : Text)
  | hop

/-- The spans of the steps, the newest first. -/
def spans (first : Text) : List Move → List Text
  | [] => [first]
  | .child spanId :: earlier => spanId :: spans first earlier
  | .hop :: earlier => spans first earlier

/-- The context after the steps, the newest first. -/
def follow (root : TraceContext) : List Move → Except Malformed TraceContext
  | [] => .ok root
  | .child spanId :: earlier => (follow root earlier).map fun context => context.child spanId
  | .hop :: earlier => (follow root earlier).bind fun context => fromTraceparentHeader context.toTraceparentHeader

/-- What `secrets.token_hex` returns for `n` bytes. -/
def IsToken (n : ℕ) (s : Text) : Prop := s.length = 2 * n ∧ isHex s = true

/-- The context is the newest of the spans of a trace. -/
structure Newest (context : TraceContext) (traceId : Text) (spans : List Text) : Prop where
  carried : context.Carried
  traceId : context.traceId = traceId
  sampled : context.traceFlags = 1
  newest : spans.head? = some context.spanId
  below : ∀ parent ∈ context.parentSpanId, spans[1]? = some parent

theorem newest_newRoot {traceId spanId : Text} (ht : IsToken 16 traceId) (hs : IsToken 8 spanId) :
    Newest (newRoot traceId spanId) traceId [spanId] := by
  have flags : (0 : ℤ) ≤ 1 ∧ (1 : ℤ) < 256 := by decide
  refine ⟨⟨ht.1, ht.2, hs.1, hs.2, flags⟩, rfl, rfl, rfl, fun parent h => ?_⟩
  cases h

theorem Newest.child {traceId spanId : Text} {spans : List Text} (h : Newest context traceId spans)
    (hs : IsToken 8 spanId) : Newest (context.child spanId) traceId (spanId :: spans) := by
  refine ⟨⟨h.carried.traceId_length, h.carried.traceId_hex, hs.1, hs.2, h.carried.flags⟩, h.traceId, h.sampled,
    rfl, fun parent hp => ?_⟩
  cases hp
  rw [List.getElem?_cons_succ, ← List.head?_eq_getElem?]
  exact h.newest

theorem Newest.received {traceId : Text} {spans : List Text} (h : Newest context traceId spans) :
    Newest context.received traceId spans := by
  refine ⟨carried_received.2 h.carried, h.traceId, h.sampled, h.newest, fun parent hp => ?_⟩
  cases hp

/-- Every chain of children and hops stays in the trace of its root, sampled as the root is: each header is
accepted, and a span that knows its parent knows the one before it. -/
theorem chain_connected {traceId spanId : Text} (ht : IsToken 16 traceId) (hs : IsToken 8 spanId)
    {moves : List Move} (tokens : ∀ id, .child id ∈ moves → IsToken 8 id) :
    ∃ context, follow (newRoot traceId spanId) moves = .ok context ∧
      Newest context traceId (spans spanId moves) := by
  induction moves with
  | nil => exact ⟨_, rfl, newest_newRoot ht hs⟩
  | cons move earlier ih =>
    obtain ⟨context, followed, newest⟩ := ih fun id mem => tokens id (List.mem_cons_of_mem _ mem)
    cases move with
    | child id =>
      refine ⟨context.child id, ?_, newest.child (tokens id List.mem_cons_self)⟩
      rw [follow, followed]
      rfl
    | hop =>
      refine ⟨context.received, ?_, newest.received⟩
      rw [follow, followed]
      exact fromTraceparentHeader_of_carried newest.carried

theorem chain_connected_witness : ∃ context,
    follow (newRoot (List.replicate 32 'a') (List.replicate 16 'b'))
      [.child (List.replicate 16 'd'), .hop, .child (List.replicate 16 'c')] = .ok context ∧
    Newest context (List.replicate 32 'a')
      [List.replicate 16 'd', List.replicate 16 'c', List.replicate 16 'b'] := by
  have token : ∀ n, ∀ c ∈ Hex.digits, IsToken n (List.replicate (2 * n) c) := fun n c hc =>
    ⟨List.length_replicate, isHex_iff.2 fun d hd => (List.eq_of_mem_replicate hd).symm ▸ hc⟩
  refine chain_connected (token 16 'a' (by decide)) (token 8 'b' (by decide)) fun id mem => ?_
  simp only [List.mem_cons, Move.child.injEq, reduceCtorEq, List.not_mem_nil, or_false, false_or] at mem
  rcases mem with rfl | rfl
  · exact token 8 'd' (by decide)
  · exact token 8 'c' (by decide)

end TraceContext

end NavigatorEventbus.Lifecycle
