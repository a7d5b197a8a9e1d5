import NavigatorEventbus.Lib.Glob

/-!
# The names of Redis keys

The keys of the pull queues and of the keyed queues, the guards of their prefixes (`queues/config.py`,
`queues/store.py`, `queues/keyed/store.py`), and the scan by which a streams backend discovers its streams
(`backends/redis_streams.py`).  The guards compare prefixes as texts, each against a fixed default or a setting
of its own; the scan takes the backend's prefix for a pattern.
-/

namespace NavigatorEventbus

/-- The characters of a name. -/
abbrev Text := List Char

instance : LawfulBEq Text := inferInstanceAs (LawfulBEq (List Char))

/-- The white space that `str.strip` removes. -/
def isStripped (c : Char) : Bool :=
  let n := c.toNat
  (9 ≤ n && n ≤ 13) || (28 ≤ n && n ≤ 32) || n = 0x85 || n = 0xa0 || n = 0x1680 ||
    (0x2000 ≤ n && n ≤ 0x200a) || n = 0x2028 || n = 0x2029 || n = 0x202f || n = 0x205f || n = 0x3000

/-- `str.strip`. -/
def strip (s : Text) : Text := ((s.dropWhile isStripped).reverse.dropWhile isStripped).reverse

/-- The queue names that `QueueConfig` accepts. -/
def SafeName (name : Text) : Prop := strip name = name ∧ strip name ≠ [] ∧ '/' ∉ name ∧ '*' ∉ name

instance (name : Text) : Decidable (SafeName name) := inferInstanceAs (Decidable (_ ∧ _ ∧ _ ∧ _))

/-- `DEFAULT_QUEUE_PREFIX`. -/
def defaultQueuePrefix : Text := "evb:queue:".toList

/-- The default of `bus_stream_prefix`, which is also the prefix that `KeyedQueue` checks against. -/
def defaultBusStreamPrefix : Text := "evb:stream:".toList

/-- `assert_prefixes_disjoint`. -/
def PrefixesDisjoint (queuePrefix busStreamPrefix : Text) : Prop :=
  ¬ busStreamPrefix <+: queuePrefix ∧ ¬ queuePrefix <+: busStreamPrefix

instance (q b : Text) : Decidable (PrefixesDisjoint q b) := inferInstanceAs (Decidable (_ ∧ _))

/-- Redis stream key backing a queue. -/
def streamName (queuePrefix queue : Text) : Text := queuePrefix ++ queue

/-- The keys of one keyed queue. -/
inductive KeyName where
  | delayed
  | held
  | keys
  | all
  | paused
  | recover
  | lastscore
  | sig (k : Text)
  | key (k : Text)
  | msg (messageId : Text)
  | lock (k : Text)

namespace KeyName

/-- What follows the base of a key. -/
def suffix : KeyName → Text
  | delayed => "delayed".toList
  | held => "held".toList
  | keys => "keys".toList
  | all => "all".toList
  | paused => "paused".toList
  | recover => "recover".toList
  | lastscore => "lastscore".toList
  | sig k => "sig:".toList ++ k
  | key k => "key:".toList ++ k
  | msg messageId => "msg:".toList ++ messageId
  | lock k => "lock:".toList ++ k

/-- The Redis key of a keyed queue. -/
def text (keyedPrefix name : Text) (k : KeyName) : Text := keyedPrefix ++ (name ++ ':' :: k.suffix)

end KeyName

/-- What `QueueStore` and `KeyedQueue` check when they are built: the registry's prefix against the bus
prefix they were told, the prefix of the keyed queue against two defaults. -/
structure AcceptedPrefixes (queuePrefix busStreamPrefix keyedPrefix : Text) : Prop where
  nonempty : queuePrefix ≠ []
  store : PrefixesDisjoint queuePrefix busStreamPrefix
  keyedBus : PrefixesDisjoint keyedPrefix defaultBusStreamPrefix
  keyedQueue : PrefixesDisjoint keyedPrefix defaultQueuePrefix

/-! ## The scan of a backend -/

/-- The key matches `<stream_prefix>*`. -/
def Scanned (streamPrefix key : Text) : Prop := Glob.Matches (streamPrefix ++ ['*']) key

instance (s k : Text) : Decidable (Scanned s k) := inferInstanceAs (Decidable (Glob.Matches _ _))

/-- `_refresh_streams`: the streams of the backend after a scan that found `keys`. Each new one gets
the backend's group. -/
def refreshStreams (explicitStreams : Option (List Text)) (streamPrefix : Text) (keys streams : List Text) :
    List Text :=
  match explicitStreams with
  | some _ => streams
  | none =>
    (keys.filter fun key => Scanned streamPrefix key).foldl
      (fun streams key => if key ∈ streams then streams else streams ++ [key]) streams

theorem mem_foldl_join {keys streams : List Text} {key : Text}
    (h : key ∈ keys.foldl (fun streams key => if key ∈ streams then streams else streams ++ [key]) streams) :
    key ∈ streams ∨ key ∈ keys := by
  induction keys generalizing streams with
  | nil => exact .inl h
  | cons k keys ih =>
    rcases ih h with hk | hk
    · dsimp only at hk
      split_ifs at hk
      · exact .inl hk
      · rcases List.mem_append.1 hk with hk | hk
        · exact .inl hk
        · exact .inr (List.mem_cons.2 (.inl (List.mem_singleton.1 hk)))
    · exact .inr (List.mem_cons_of_mem _ hk)

/-- A backend joins nothing but the streams that match its pattern. -/
theorem scanned_of_refreshed {explicitStreams : Option (List Text)} {streamPrefix key : Text}
    {keys streams : List Text} (h : key ∈ refreshStreams explicitStreams streamPrefix keys streams) :
    key ∈ streams ∨ Scanned streamPrefix key := by
  unfold refreshStreams at h
  split at h
  · exact .inl h
  · refine (mem_foldl_join h).imp_right fun hk => ?_
    exact of_decide_eq_true (List.mem_filter.1 hk).2

/-! ## Names that may follow a prefix -/

/-- A beginning of queue names: no `/` and no `*`, and no white space in front. -/
def NameStart (w : Text) : Prop := (∀ c ∈ w.head?, isStripped c = false) ∧ '/' ∉ w ∧ '*' ∉ w

theorem NameStart.safe {w : Text} (h : NameStart w) : SafeName (w ++ ['x']) := by
  obtain ⟨head, slash, star⟩ := h
  have front : (w ++ ['x']).dropWhile isStripped = w ++ ['x'] := by
    cases w with
    | nil => decide
    | cons c w => simp [head c rfl]
  have stripped : strip (w ++ ['x']) = w ++ ['x'] := by
    have back : isStripped 'x' = false := by decide
    rw [strip, front, List.reverse_append, List.reverse_singleton, List.singleton_append,
      List.dropWhile_cons_of_neg (by simp [back]), List.reverse_cons, List.reverse_reverse]
  refine ⟨stripped, ?_, ?_, ?_⟩
  · rw [stripped]
    simp
  · simp [slash]
  · simp [star]

theorem SafeName.start {name : Text} (h : SafeName name) : NameStart name := by
  obtain ⟨stripped, -, slash, star⟩ := h
  refine ⟨fun c hc => ?_, slash, star⟩
  cases name with
  | nil => cases hc
  | cons d l =>
    cases hc
    by_contra space
    have shorter : (strip (c :: l)).length ≤ l.length := by
      rw [strip, List.dropWhile_cons_of_pos (by simpa using space), List.length_reverse]
      calc _ ≤ (l.dropWhile isStripped).reverse.length := (List.dropWhile_sublist _).length_le
        _ = (l.dropWhile isStripped).length := List.length_reverse
        _ ≤ l.length := (List.dropWhile_sublist _).length_le
    rw [stripped, List.length_cons] at shorter
    omega

theorem NameStart.of_prefix {w n : Text} (h : NameStart n) (hw : w <+: n) : NameStart w := by
  obtain ⟨head, slash, star⟩ := h
  refine ⟨fun c hc => ?_, fun hs => slash (hw.subset hs), fun hs => star (hw.subset hs)⟩
  obtain ⟨l, rfl⟩ := hw
  cases w with
  | nil => cases hc
  | cons d w => exact head c hc

/-! ## When the keys stay apart -/

/-- No key of a queue matches the backend's pattern, and no key of a keyed queue is the stream of a pull
queue. The signal stream of a keyed queue is the stream of a pull queue. -/
structure KeysApart (queuePrefix keyedPrefix streamPrefix : Text) : Prop where
  queue : ∀ name, SafeName name → ¬ Scanned streamPrefix (streamName queuePrefix name)
  keyed : ∀ name (k : KeyName), ¬ Scanned streamPrefix (k.text keyedPrefix name)
  distinct : ∀ queue, SafeName queue → ∀ name (k : KeyName),
    k.text keyedPrefix name ≠ streamName queuePrefix queue

/-- Nothing that begins with the prefix of a queue matches the pattern, and neither of the two queue
prefixes begins another (as far as a queue name may go on with the rest). -/
structure PrefixesApart (queuePrefix keyedPrefix streamPrefix : Text) : Prop where
  queue : ∀ w, NameStart w → ¬ Scanned streamPrefix (queuePrefix ++ w)
  keyed : ∀ w, ¬ Scanned streamPrefix (keyedPrefix ++ w)
  outside : ¬ keyedPrefix <+: queuePrefix
  inside : ∀ r, keyedPrefix = queuePrefix ++ r → ¬ NameStart r

variable {queuePrefix busStreamPrefix keyedPrefix streamPrefix : Text}

/-- The keys of a keyed queue meet the names of pull queues exactly when one of the prefixes begins the
other so. -/
theorem distinct_iff : (∀ queue, SafeName queue → ∀ name (k : KeyName),
      k.text keyedPrefix name ≠ streamName queuePrefix queue) ↔
    ¬ keyedPrefix <+: queuePrefix ∧ ∀ r, keyedPrefix = queuePrefix ++ r → ¬ NameStart r := by
  constructor
  · refine fun h => ⟨?_, ?_⟩
    · rintro ⟨r, rfl⟩
      have safe : SafeName ('x' :: ':' :: KeyName.delayed.suffix) := by decide
      refine h _ safe (r ++ ['x']) .delayed ?_
      rw [KeyName.text, streamName, List.append_assoc, List.append_assoc]
      rfl
    · rintro r rfl start
      have longer : NameStart (r ++ 'x' :: ':' :: "lock:".toList) := by
        refine ⟨fun c hc => ?_, by simp [start.2.1], by simp [start.2.2]⟩
        cases r with
        | nil => cases hc; decide
        | cons d r => exact start.1 c hc
      refine h _ longer.safe ['x'] (.lock ['x']) ?_
      rw [KeyName.text, streamName, List.append_assoc, List.append_assoc]
      rfl
  · rintro ⟨outside, inside⟩ queue safe name k eq
    have whole : keyedPrefix ++ (name ++ ':' :: k.suffix) = queuePrefix ++ queue := eq
    rcases List.append_eq_append_iff.1 whole with ⟨r, hr, -⟩ | ⟨r, hr, hqueue⟩
    · exact outside ⟨r, hr.symm⟩
    · exact inside r hr (safe.start.of_prefix ⟨_, hqueue.symm⟩)

/-- When the prefixes are apart, the keys are. -/
theorem PrefixesApart.keys (h : PrefixesApart queuePrefix keyedPrefix streamPrefix) :
    KeysApart queuePrefix keyedPrefix streamPrefix where
  queue name safe := h.queue name safe.start
  keyed _ _ := h.keyed _
  distinct := distinct_iff.2 ⟨h.outside, h.inside⟩

/-- When the keys are apart, the prefixes are, for an open pattern. -/
theorem KeysApart.prefixes (hopen : Glob.Open (streamPrefix ++ ['*']))
    (h : KeysApart queuePrefix keyedPrefix streamPrefix) :
    PrefixesApart queuePrefix keyedPrefix streamPrefix where
  queue w start scanned := by
    refine h.queue _ start.safe ?_
    rw [streamName, ← List.append_assoc]
    exact scanned.append hopen _
  keyed w scanned := by
    refine h.keyed w .delayed ?_
    rw [KeyName.text, ← List.append_assoc]
    exact scanned.append hopen _
  outside := (distinct_iff.1 h.distinct).1
  inside := (distinct_iff.1 h.distinct).2

/-- Without glob characters the pattern is a text, and the prefixes are apart when neither begins the
other (as far as a queue name may go on). -/
theorem prefixesApart_iff (plain : ∀ c ∈ streamPrefix, Glob.Plain c) :
    PrefixesApart queuePrefix keyedPrefix streamPrefix ↔
      (¬ streamPrefix <+: queuePrefix ∧ ∀ r, streamPrefix = queuePrefix ++ r → ¬ NameStart r) ∧
        PrefixesDisjoint keyedPrefix streamPrefix ∧
        ¬ keyedPrefix <+: queuePrefix ∧ ∀ r, keyedPrefix = queuePrefix ++ r → ¬ NameStart r := by
  have scanned : ∀ t, Scanned streamPrefix t ↔ streamPrefix <+: t := fun t =>
    Glob.matches_plain_star plain
  constructor
  · intro h
    refine ⟨⟨fun hs => ?_, ?_⟩, ⟨fun hs => ?_, ?_⟩, h.outside, h.inside⟩
    · exact h.queue [] ⟨nofun, List.not_mem_nil, List.not_mem_nil⟩ ((scanned _).2 (by simpa using hs))
    · rintro r rfl start
      exact h.queue r start ((scanned _).2 (List.prefix_refl _))
    · exact h.keyed [] ((scanned _).2 (by simpa using hs))
    · rintro ⟨r, rfl⟩
      exact h.keyed r ((scanned _).2 (List.prefix_refl _))
  · rintro ⟨⟨before, after⟩, ⟨keyedBefore, keyedAfter⟩, outside, inside⟩
    refine ⟨fun w start hw => ?_, fun w hw => ?_, outside, inside⟩
    · obtain ⟨t, ht⟩ := (scanned _).1 hw
      rcases List.append_eq_append_iff.1 ht with ⟨r, hr, -⟩ | ⟨r, hr, hw'⟩
      · exact before ⟨r, hr.symm⟩
      · exact after r hr (start.of_prefix ⟨_, hw'.symm⟩)
    · obtain ⟨t, ht⟩ := (scanned _).1 hw
      rcases List.append_eq_append_iff.1 ht with ⟨r, hr, -⟩ | ⟨r, hr, -⟩
      · exact keyedBefore ⟨r, hr.symm⟩
      · exact keyedAfter ⟨r, hr.symm⟩

/-- What the guards of accepted prefixes are worth for a backend with the prefix `streamPrefix`. -/
structure GuardsWorth (queuePrefix busStreamPrefix keyedPrefix streamPrefix : Text) : Prop where
  enough : PrefixesApart queuePrefix keyedPrefix streamPrefix →
    KeysApart queuePrefix keyedPrefix streamPrefix
  exact : Glob.Open (streamPrefix ++ ['*']) →
    (KeysApart queuePrefix keyedPrefix streamPrefix ↔
      PrefixesApart queuePrefix keyedPrefix streamPrefix)
  plain : (∀ c ∈ streamPrefix, Glob.Plain c) →
    (KeysApart queuePrefix keyedPrefix streamPrefix ↔
      (¬ streamPrefix <+: queuePrefix ∧ ∀ r, streamPrefix = queuePrefix ++ r → ¬ NameStart r) ∧
        PrefixesDisjoint keyedPrefix streamPrefix ∧
        ¬ keyedPrefix <+: queuePrefix ∧ ∀ r, keyedPrefix = queuePrefix ++ r → ¬ NameStart r)
  defaults : queuePrefix = defaultQueuePrefix → streamPrefix = busStreamPrefix →
    streamPrefix = defaultBusStreamPrefix → KeysApart queuePrefix keyedPrefix streamPrefix
  joined : KeysApart queuePrefix keyedPrefix streamPrefix →
    ∀ explicitStreams keys streams, ∀ key ∈ refreshStreams explicitStreams streamPrefix keys streams,
      key ∉ streams → (∀ name, SafeName name → key ≠ streamName queuePrefix name) ∧
        ∀ name (k : KeyName), key ≠ k.text keyedPrefix name

theorem guards_worth (accepted : AcceptedPrefixes queuePrefix busStreamPrefix keyedPrefix)
    (streamPrefix : Text) : GuardsWorth queuePrefix busStreamPrefix keyedPrefix streamPrefix where
  enough := PrefixesApart.keys
  exact hopen := ⟨KeysApart.prefixes hopen, PrefixesApart.keys⟩
  plain plain := by
    rw [← prefixesApart_iff plain]
    exact ⟨KeysApart.prefixes (Glob.open_plain plain), PrefixesApart.keys⟩
  defaults := by
    rintro rfl rfl hdefault
    have plain : ∀ c ∈ streamPrefix, Glob.Plain c := by
      have all : streamPrefix.all (fun c => decide (Glob.Plain c)) = true := by
        rw [hdefault]
        decide
      simpa using all
    refine ((prefixesApart_iff plain).2 ⟨⟨accepted.store.1, ?_⟩, ?_, accepted.keyedQueue.2, ?_⟩).keys
    · rintro r hr -
      exact accepted.store.2 ⟨r, hr.symm⟩
    · rw [hdefault]
      exact accepted.keyedBus
    · rintro r hr -
      exact accepted.keyedQueue.1 ⟨r, hr.symm⟩
  joined apart explicitStreams keys streams key hkey fresh := by
    have scanned := (scanned_of_refreshed hkey).resolve_left fresh
    refine ⟨?_, ?_⟩
    · rintro name safe rfl
      exact apart.queue name safe scanned
    · rintro name k rfl
      exact apart.keyed name k scanned

/-- The default prefix of keyed queues. -/
def defaultKeyedPrefix : Text := "evq:keyed:".toList

theorem accepted_defaults : AcceptedPrefixes defaultQueuePrefix defaultBusStreamPrefix defaultKeyedPrefix :=
  ⟨by decide, by decide, by decide, by decide⟩

theorem guards_worth_defaults :
    KeysApart defaultQueuePrefix defaultKeyedPrefix defaultBusStreamPrefix :=
  (guards_worth accepted_defaults defaultBusStreamPrefix).defaults rfl rfl rfl

/-- A backend with the prefix `evb:` finds the queues of the default prefix, and a registry with the prefix
`evq:` may have a queue on a key of a keyed queue. -/
theorem guards_miss : ¬ ∀ queuePrefix busStreamPrefix keyedPrefix streamPrefix : Text,
    AcceptedPrefixes queuePrefix busStreamPrefix keyedPrefix →
      KeysApart queuePrefix keyedPrefix streamPrefix := by
  intro h
  have apart := h _ _ _ "evb:".toList accepted_defaults
  exact apart.queue "orders".toList (by decide) (by decide)

end NavigatorEventbus
