import NavigatorEventbus.Webhook.Retries

/-!
# The cache of delivery ids

What `_is_duplicate` is for can be said without a cache: a delivery is a duplicate when its pair of path and id
is among the latest `dedup_cache_size` records and its record is at most the ttl old (`Seen`).  The cache keeps
the records of that kind, in order, under a text that joins path and id; it is pruned from the front, which is
right because the records are in the order of their times (`prune_eq`).  Paths and ids can contain the colon
that joins them, and two pairs with one text count as the same: the answers are those of the plain
specification if and only if no delivery meets a live record of another pair with its text (`duplicates_iff`).
-/

namespace NavigatorEventbus.Webhook.Dedup

/-- A delivery of an endpoint at some time. -/
structure Delivery where
  path : Text
  deliveryId : Text
  now : ℚ
  deriving DecidableEq

/-- The text of a delivery in the cache. -/
def Delivery.key (d : Delivery) : Text := fullKey d.path d.deliveryId

/-- The settings of the cache. -/
structure Settings where
  ttl : ℕ
  size : ℕ
  ttl_pos : 0 < ttl
  size_pos : 0 < size

variable (settings : Settings)

/-- `_is_duplicate`. -/
def isDuplicate (cache : DedupCache) (d : Delivery) : Bool × DedupCache :=
  if d.deliveryId = [] then (false, cache) else cache.check settings.ttl settings.size d.now d.key

/-- The answers to deliveries, and the cache after them. -/
def answers (cache : DedupCache) : List Delivery → List Bool
  | [] => []
  | d :: rest => (isDuplicate settings cache d).1 :: answers (isDuplicate settings cache d).2 rest

def caches (cache : DedupCache) (deliveries : List Delivery) : DedupCache :=
  deliveries.foldl (fun cache d => (isDuplicate settings cache d).2) cache

/-! ## The plain specification -/

/-- The record is at most the ttl old. -/
def Fresh (now : ℚ) (r : Delivery) : Prop := now - r.now ≤ settings.ttl

instance (now : ℚ) (r : Delivery) : Decidable (Fresh settings now r) := inferInstanceAs (Decidable (_ ≤ _))

/-- The records, the latest first, that are not evicted by newer ones and are at most the ttl old. -/
def live (records : List Delivery) (now : ℚ) : List Delivery :=
  (records.take settings.size).filter fun r => Fresh settings now r

/-- The pair of the delivery has a live record. -/
def Seen (records : List Delivery) (d : Delivery) : Prop :=
  ∃ r ∈ live settings records d.now, r.path = d.path ∧ r.deliveryId = d.deliveryId

instance (records : List Delivery) (d : Delivery) : Decidable (Seen settings records d) :=
  inferInstanceAs (Decidable (∃ _ ∈ _, _))

/-- The records after a delivery. -/
def record (records : List Delivery) (d : Delivery) : List Delivery :=
  if d.deliveryId = [] ∨ Seen settings records d then records else d :: records

/-- The answers of the specification. -/
def expected (records : List Delivery) : List Delivery → List Bool
  | [] => []
  | d :: rest => decide (d.deliveryId ≠ [] ∧ Seen settings records d) :: expected (record settings records d) rest

/-- Another pair with the text of the delivery has a live record. -/
def Collides (records : List Delivery) (d : Delivery) : Prop :=
  d.deliveryId ≠ [] ∧ ∃ r ∈ live settings records d.now, r.key = d.key ∧
    ¬(r.path = d.path ∧ r.deliveryId = d.deliveryId)

/-- No delivery collides with a live record. -/
def Apart (records : List Delivery) : List Delivery → Prop
  | [] => True
  | d :: rest => ¬Collides settings records d ∧ Apart (record settings records d) rest

/-! ## Lists in the order of their times -/

section Sorted

variable {α : Type*} {P : α → Prop} [DecidablePred P] {l : List α}

/-- Where a property is inherited by what comes before, its elements are a prefix. -/
theorem filter_eq_takeWhile (h : l.Pairwise fun a b => P b → P a) :
    (l.filter fun a => P a) = l.takeWhile fun a => P a := by
  induction l with
  | nil => rfl
  | cons a l ih =>
    rw [List.pairwise_cons] at h
    by_cases pa : P a
    · rw [List.filter_cons_of_pos (by simpa using pa), List.takeWhile_cons_of_pos (by simpa using pa), ih h.2]
    · rw [List.filter_cons_of_neg (by simpa using pa), List.takeWhile_cons_of_neg (by simpa using pa),
        List.filter_eq_nil_iff]
      intro b hb pb
      exact pa (h.1 b hb (of_decide_eq_true pb))

/-- Pruning from the other end leaves that prefix. -/
theorem dropWhile_reverse (h : l.Pairwise fun a b => P b → P a) :
    (l.reverse.dropWhile fun a => ¬P a) = (l.filter fun a => P a).reverse := by
  induction l with
  | nil => rfl
  | cons a l ih =>
    rw [List.pairwise_cons] at h
    rw [List.reverse_cons, List.dropWhile_append, ih h.2]
    by_cases pa : P a
    · rw [List.filter_cons_of_pos (by simpa using pa), List.reverse_cons]
      by_cases none : ((l.filter fun a => P a).reverse).isEmpty
      · rw [if_pos none, List.isEmpty_iff.1 none, List.dropWhile_cons_of_neg (by simpa using pa)]
        rfl
      · rw [if_neg none]
    · have all : (l.filter fun a => P a) = [] := by
        rw [List.filter_eq_nil_iff]
        intro b hb pb
        exact pa (h.1 b hb (of_decide_eq_true pb))
      rw [List.filter_cons_of_neg (by simpa using pa), all, List.reverse_nil, List.isEmpty_nil, if_pos rfl,
        List.dropWhile_cons_of_pos (by simpa using pa), List.dropWhile_nil]

end Sorted

/-! ## The cache holds the live records -/

variable {settings} {records : List Delivery} {cache : DedupCache} {d : Delivery} {now then' : ℚ}

/-- The records are in the order of their times, the latest first, and none is later than `now`. -/
structure Ordered (records : List Delivery) (now : ℚ) : Prop where
  sorted : records.Pairwise fun a b => b.now ≤ a.now
  past : ∀ r ∈ records, r.now ≤ now

/-- The cache of records: the oldest at its front. -/
def image (records : List Delivery) : DedupCache := (records.map fun r => (r.key, r.now)).reverse

theorem Fresh.earlier {r : Delivery} (h : Fresh settings now r) (le : then' ≤ now) : Fresh settings then' r := by
  unfold Fresh at h ⊢
  linarith

theorem Ordered.inherits (h : Ordered records now) (t : ℚ) :
    records.Pairwise fun a b => Fresh settings t b → Fresh settings t a := by
  refine h.sorted.imp fun le fresh => ?_
  unfold Fresh at fresh ⊢
  linarith

theorem Ordered.sublist {l : List Delivery} (h : Ordered records now) (sub : l.Sublist records) : Ordered l now :=
  ⟨h.sorted.sublist sub, fun r hr => h.past r (sub.subset hr)⟩

theorem live_sublist (records : List Delivery) (now : ℚ) : (live settings records now).Sublist records :=
  List.filter_sublist.trans (List.take_sublist _ _)

/-- Later fewer records are live. -/
theorem filter_live (le : then' ≤ now) :
    ((live settings records then').filter fun r => Fresh settings now r) = live settings records now := by
  rw [live, List.filter_filter, live]
  apply List.filter_congr
  intro r _
  by_cases fresh : Fresh settings now r
  · simp [fresh, fresh.earlier le]
  · simp [fresh]

/-- The pruned cache holds the records that are live. -/
theorem prune_eq (order : Ordered records then') (le : then' ≤ now) :
    (image (live settings records then')).prune settings.ttl now = image (live settings records now) := by
  have kept : Ordered (live settings records then') then' := order.sublist (live_sublist records then')
  have inherits := @Ordered.inherits settings _ _ kept now
  have pruned := dropWhile_reverse inherits
  rw [filter_live le] at pruned
  rw [image, image, DedupCache.prune, ← List.map_reverse, ← List.map_reverse, ← pruned]
  exact List.dropWhile_map ..

/-- A new record takes its place among the live ones. -/
theorem live_cons (order : Ordered records d.now) :
    live settings (d :: records) d.now = (d :: live settings records d.now).take settings.size := by
  have fresh : Fresh settings d.now d := by
    unfold Fresh
    rw [sub_self]
    exact Nat.cast_nonneg _
  have prefixes : ∀ n, ((records.take n).filter fun r => Fresh settings d.now r) =
      (records.takeWhile fun r => Fresh settings d.now r).take n := by
    intro n
    rw [filter_eq_takeWhile ((order.sublist (List.take_sublist n _)).inherits d.now), List.take_takeWhile]
  obtain ⟨n, hn⟩ : ∃ n, settings.size = n + 1 := ⟨settings.size - 1, by have := settings.size_pos; omega⟩
  rw [live, live, prefixes, hn, List.take_succ_cons, List.take_succ_cons,
    List.filter_cons_of_pos (by simpa using fresh), prefixes, List.take_take, min_eq_left (Nat.le_succ n)]

theorem mem_image {key : Text} : (∃ entry ∈ image records, entry.1 = key) ↔ ∃ r ∈ records, r.key = key := by
  simp [image]

/-- What `_is_duplicate` makes of a cache that holds the live records. -/
theorem isDuplicate_image (order : Ordered records d.now) (past : Ordered records then') (le : then' ≤ d.now)
    (id : d.deliveryId ≠ []) :
    isDuplicate settings (image (live settings records then')) d =
      if ∃ r ∈ live settings records d.now, r.key = d.key then (true, image (live settings records d.now))
      else (false, image (live settings (d :: records) d.now)) := by
  rw [isDuplicate, if_neg id, DedupCache.check, prune_eq past le]
  by_cases found : ∃ r ∈ live settings records d.now, r.key = d.key
  · rw [if_pos (mem_image.2 found), if_pos found]
  · have added : image (live settings records d.now) ++ [(d.key, d.now)] =
        ((d :: live settings records d.now).map fun r => (r.key, r.now)).reverse := by
      rw [List.map_cons, List.reverse_cons]
      rfl
    rw [if_neg (mt mem_image.1 found), if_neg found, live_cons order, added, image, List.map_take,
      List.reverse_take]
    simp only [List.length_reverse]

/-! ## Runs -/

/-- The cache holds the live records, whose texts are different. -/
structure Tracks (settings : Settings) (cache : DedupCache) (records : List Delivery) (now : ℚ) : Prop where
  order : Ordered records now
  cache_eq : cache = image (live settings records now)
  apart : ((live settings records now).map Delivery.key).Nodup

theorem Ordered.later (h : Ordered records then') (le : then' ≤ now) : Ordered records now :=
  ⟨h.sorted, fun r hr => (h.past r hr).trans le⟩

theorem Ordered.cons (h : Ordered records d.now) : Ordered (d :: records) d.now := by
  refine ⟨List.pairwise_cons.2 ⟨h.past, h.sorted⟩, fun r hr => ?_⟩
  rcases List.mem_cons.1 hr with rfl | old
  · exact le_rfl
  · exact h.past r old

theorem Tracks.nodup (h : Tracks settings cache records then') (le : then' ≤ now) :
    ((live settings records now).map Delivery.key).Nodup := by
  rw [← filter_live le]
  exact h.apart.sublist (List.filter_sublist.map _)

/-- A delivery that collides with no live record is answered as specified, and the cache keeps track. -/
theorem Tracks.step (h : Tracks settings cache records then') (le : then' ≤ d.now)
    (apart : ¬Collides settings records d) :
    (isDuplicate settings cache d).1 = decide (d.deliveryId ≠ [] ∧ Seen settings records d) ∧
      ∃ t, t ≤ d.now ∧ Tracks settings (isDuplicate settings cache d).2 (record settings records d) t := by
  have order := h.order.later le
  by_cases id : d.deliveryId = []
  · rw [isDuplicate, if_pos id, record, if_pos (.inl id)]
    exact ⟨by simp [id], then', le, h⟩
  · have same : (∃ r ∈ live settings records d.now, r.key = d.key) ↔ Seen settings records d := by
      constructor
      · rintro ⟨r, hr, key⟩
        refine ⟨r, hr, ?_⟩
        by_contra other
        exact apart ⟨id, r, hr, key, other⟩
      · rintro ⟨r, hr, path, deliveryId⟩
        refine ⟨r, hr, ?_⟩
        rw [Delivery.key, path, deliveryId]
        rfl
    rw [h.cache_eq, isDuplicate_image order h.order le id, record]
    by_cases seen : Seen settings records d
    · rw [if_pos (same.2 seen), if_pos (.inr seen)]
      exact ⟨by simp [id, seen], d.now, le_rfl, order, rfl, h.nodup le⟩
    · have fresh : ¬∃ r ∈ live settings records d.now, r.key = d.key := fun found => seen (same.1 found)
      rw [if_neg fresh, if_neg (not_or.2 ⟨id, seen⟩)]
      refine ⟨by simp [seen], d.now, le_rfl, order.cons, rfl, ?_⟩
      rw [live_cons order, List.map_take]
      refine List.Nodup.sublist (List.take_sublist _ _) ?_
      refine List.nodup_cons.2 ⟨fun mem => fresh ?_, h.nodup le⟩
      obtain ⟨r, hr, key⟩ := List.mem_map.1 mem
      exact ⟨r, hr, key⟩

/-- A delivery that collides is taken for a duplicate, which it is not. -/
theorem Tracks.collision (h : Tracks settings cache records then') (le : then' ≤ d.now)
    (collides : Collides settings records d) :
    (isDuplicate settings cache d).1 = true ∧ ¬Seen settings records d := by
  obtain ⟨id, r, hr, key, other⟩ := collides
  constructor
  · rw [h.cache_eq, isDuplicate_image (h.order.later le) h.order le id, if_pos ⟨r, hr, key⟩]
  · rintro ⟨r', hr', path, deliveryId⟩
    have key' : r'.key = r.key := by
      rw [key, Delivery.key, path, deliveryId]
      rfl
    have eq := List.inj_on_of_nodup_map (h.nodup le) hr' hr key'
    rw [← eq] at other
    exact other ⟨path, deliveryId⟩

theorem answers_eq_iff {deliveries : List Delivery} (h : Tracks settings cache records then')
    (sorted : deliveries.Pairwise fun a b => a.now ≤ b.now) (past : ∀ d ∈ deliveries, then' ≤ d.now) :
    answers settings cache deliveries = expected settings records deliveries ↔ Apart settings records deliveries := by
  induction deliveries generalizing cache records then' with
  | nil => exact iff_of_true rfl trivial
  | cons d rest ih =>
    have le := past d (List.mem_cons_self ..)
    rw [List.pairwise_cons] at sorted
    rw [answers, expected, Apart, List.cons.injEq]
    by_cases collides : Collides settings records d
    · obtain ⟨duplicate, unseen⟩ := h.collision le collides
      rw [duplicate]
      exact iff_of_false (fun eq => unseen (of_decide_eq_true eq.1.symm).2) fun all => all.1 collides
    · obtain ⟨answer, t, le', tracks⟩ := h.step le collides
      have rest := ih tracks sorted.2 fun d' hd' => le'.trans (sorted.1 d' hd')
      rw [rest]
      exact ⟨fun all => ⟨collides, all.2⟩, fun all => ⟨answer, all.2⟩⟩

/-- A cache in the order of its times, within its size. -/
structure Bounded (settings : Settings) (cache : DedupCache) (now : ℚ) : Prop where
  length_le : cache.length ≤ settings.size
  sorted : cache.Pairwise fun a b => a.2 ≤ b.2
  past : ∀ entry ∈ cache, entry.2 ≤ now

theorem Bounded.step (h : Bounded settings cache then') (le : then' ≤ d.now) :
    Bounded settings (isDuplicate settings cache d).2 d.now := by
  have later : ∀ entry ∈ cache, entry.2 ≤ d.now := fun entry mem => (h.past entry mem).trans le
  by_cases id : d.deliveryId = []
  · rw [isDuplicate, if_pos id]
    exact ⟨h.length_le, h.sorted, later⟩
  · rw [isDuplicate, if_neg id, DedupCache.check]
    have kept : (cache.prune settings.ttl d.now).Sublist cache := (List.dropWhile_suffix _).sublist
    by_cases found : ∃ entry ∈ cache.prune settings.ttl d.now, entry.1 = d.key
    · rw [if_pos found]
      exact ⟨kept.length_le.trans h.length_le, h.sorted.sublist kept, fun e he => later e (kept.subset he)⟩
    · rw [if_neg found]
      refine ⟨?_, ?_, fun e he => ?_⟩
      · rw [List.length_drop]
        omega
      · refine List.Pairwise.sublist (List.drop_sublist _ _) ?_
        rw [List.pairwise_append]
        refine ⟨h.sorted.sublist kept, List.pairwise_singleton _ _, fun a ha b hb => ?_⟩
        rw [List.mem_singleton.1 hb]
        exact later a (kept.subset ha)
      · rcases List.mem_append.1 ((List.drop_sublist _ _).subset he) with old | new
        · exact later e (kept.subset old)
        · rw [List.mem_singleton.1 new]

theorem Bounded.caches {deliveries : List Delivery} (h : Bounded settings cache then')
    (sorted : deliveries.Pairwise fun a b => a.now ≤ b.now) (past : ∀ d ∈ deliveries, then' ≤ d.now) :
    ∃ now, Bounded settings (caches settings cache deliveries) now := by
  induction deliveries generalizing cache then' with
  | nil => exact ⟨then', h⟩
  | cons d rest ih =>
    rw [List.pairwise_cons] at sorted
    exact ih (h.step (past d (List.mem_cons_self ..))) sorted.2 sorted.1

/-- For deliveries in the order of their times: they are answered as the plain specification answers them if and
only if none meets a live record of another pair with its text; and whatever they are, the cache stays within its
size and in the order of its times. -/
theorem duplicates_iff (settings : Settings) {deliveries : List Delivery}
    (sorted : deliveries.Pairwise fun a b => a.now ≤ b.now) :
    (answers settings [] deliveries = expected settings [] deliveries ↔ Apart settings [] deliveries) ∧
    ∀ before, before <+: deliveries → (caches settings [] before).length ≤ settings.size ∧
      (caches settings [] before).Pairwise fun a b => a.2 ≤ b.2 := by
  constructor
  · cases deliveries with
    | nil => exact iff_of_true rfl trivial
    | cons d rest =>
      have empty : Tracks settings [] [] d.now := ⟨⟨.nil, by simp⟩, by simp [image, live], by simp [live]⟩
      refine answers_eq_iff empty sorted fun d' hd' => ?_
      rcases List.mem_cons.1 hd' with rfl | later
      · exact le_rfl
      · exact (List.pairwise_cons.1 sorted).1 d' later
  · intro before le
    cases before with
    | nil => exact ⟨Nat.zero_le _, .nil⟩
    | cons d rest =>
      have ordered := sorted.sublist le.sublist
      have empty : Bounded settings [] d.now := ⟨Nat.zero_le _, .nil, by simp⟩
      obtain ⟨_, bounded⟩ := empty.caches ordered fun d' hd' => by
        rcases List.mem_cons.1 hd' with rfl | later
        · exact le_rfl
        · exact (List.pairwise_cons.1 ordered).1 d' later
      exact ⟨bounded.length_le, bounded.sorted⟩

/-- A cache of the default size with a ttl of a minute. -/
def minute : Settings where
  ttl := 60
  size := 1024
  ttl_pos := by decide
  size_pos := Signed.hook.dedupCacheSize_pos

/-- The same delivery twice within the ttl. -/
def repeated : List Delivery := [⟨"/a".toList, "x".toList, 0⟩, ⟨"/a".toList, "x".toList, 60⟩]

/-- The second one is a duplicate, by the code as by the specification. -/
theorem duplicates_repeated :
    answers minute [] repeated = expected minute [] repeated ∧ expected minute [] repeated = [false, true] := by
  refine ⟨(duplicates_iff minute (by decide +kernel)).1.2 ?_, by decide +kernel⟩
  refine ⟨?_, ?_, trivial⟩ <;> (unfold Collides; decide +kernel)

/-- A delivery of one endpoint is taken for a duplicate of another one's. -/
theorem joined_duplicate :
    normalizePath "/a".toList = some "/a".toList ∧ normalizePath "/a:b".toList = some "/a:b".toList ∧
      answers minute [] [⟨"/a:b".toList, "c".toList, 0⟩, ⟨"/a".toList, "b:c".toList, 1⟩] = [false, true] ∧
      expected minute [] [⟨"/a:b".toList, "c".toList, 0⟩, ⟨"/a".toList, "b:c".toList, 1⟩] = [false, false] := by
  refine ⟨by decide, by decide, by decide +kernel, by decide +kernel⟩

end NavigatorEventbus.Webhook.Dedup
