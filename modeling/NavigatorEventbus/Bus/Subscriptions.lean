import NavigatorEventbus.Bus.Dispatch

/-!
# The index of subscriptions

A subscription is kept under its pattern when that has no wild card, and in the list of patterns otherwise; a
topic is looked up in the one and matched against the other.  The index follows the calls of `subscribe` and
`unsubscribe` exactly (`indexed_run`), and a look-up gives the subscriptions that it should, each once and by
descending priority, if and only if the index is right about each pattern: a class such as `[ab]` is no wild card
for `subscribe`, but it is one for `fnmatch` (`matching_iff`).
-/

namespace NavigatorEventbus.Bus

variable {σ : State}

/-- A call of `subscribe`, with the id that it gives, or of `unsubscribe`. -/
inductive SubscriptionCall where
  | subscribe (sub : Subscription)
  | unsubscribe (subscriberId : String)

namespace SubscriptionCall

/-- The id that a call gives. -/
def issued : SubscriptionCall → Option String
  | subscribe sub => some sub.subscriberId
  | unsubscribe _ => none

/-- The bus after a call. -/
def apply (σ : State) : SubscriptionCall → State
  | subscribe sub => σ.subscribe sub
  | unsubscribe subscriberId => σ.unsubscribe subscriberId

/-- The live subscriptions after a call. -/
def register (subs : List Subscription) : SubscriptionCall → List Subscription
  | subscribe sub => subs ++ [sub]
  | unsubscribe subscriberId => subs.filter fun sub => sub.subscriberId ≠ subscriberId

/-- The live subscriptions after calls, in the order of their arrival. -/
def registered (calls : List SubscriptionCall) : List Subscription := calls.foldl register []

end SubscriptionCall

/-- `match_count`. -/
def State.matchCount (σ : State) (topic : List Char) : ℕ :=
  ((σ.subscriptions.lookup topic).getD []).length +
    σ.patternSubscriptions.countP fun sub => Fnmatch.fnmatch topic sub.pattern

namespace Subscription

variable (sub : Subscription)

/-- `subscribe` takes the pattern for a glob. -/
def Wild : Prop := '*' ∈ sub.pattern ∨ '?' ∈ sub.pattern

instance : Decidable sub.Wild := inferInstanceAs (Decidable (_ ∨ _))

/-- The index finds the subscription for a topic. -/
def Indexes (topic : List Char) : Prop :=
  if sub.Wild then Fnmatch.fnmatch topic sub.pattern = true else sub.pattern = topic

instance (topic : List Char) : Decidable (sub.Indexes topic) := by
  unfold Indexes
  infer_instance

/-- The pattern is a glob for `subscribe` if it is one for `fnmatch`. -/
def Classified : Prop := sub.Wild ∨ ¬Fnmatch.HasClass sub.pattern

theorem indexes_iff (classified : sub.Classified) (topic : List Char) :
    sub.Indexes topic ↔ Fnmatch.fnmatch topic sub.pattern = true := by
  by_cases wild : sub.Wild
  · rw [Indexes, if_pos wild]
  · have plain := classified.resolve_left wild
    have tame := not_or.1 wild
    rw [Indexes, if_neg wild, Fnmatch.fnmatch_iff_eq tame.1 tame.2 plain]
    exact eq_comm

/-- A pattern that is not classified is found for itself, which it does not match. -/
theorem indexes_pattern (unclassified : ¬sub.Classified) :
    sub.Indexes sub.pattern ∧ Fnmatch.fnmatch sub.pattern sub.pattern = false := by
  rw [Classified, not_or, not_not] at unclassified
  obtain ⟨tame, cls⟩ := unclassified
  refine ⟨?_, ?_⟩
  · rw [Indexes, if_neg tame]
  · rw [Wild, not_or] at tame
    exact Fnmatch.fnmatch_self tame.1 tame.2 cls

end Subscription

/-- The index of a bus holds the subscriptions. -/
structure Indexed (σ : State) (subs : List Subscription) : Prop where
  ids : (subs.map Subscription.subscriberId).Nodup
  wild : σ.patternSubscriptions.Perm (subs.filter fun sub => sub.Wild)
  keys : (σ.subscriptions.map Prod.fst).Nodup
  exact : ∀ entry ∈ σ.subscriptions,
    entry.2.Perm (subs.filter fun sub => ¬sub.Wild ∧ sub.pattern = entry.1)
  covered : ∀ sub ∈ subs, ¬sub.Wild → sub.pattern ∈ σ.subscriptions.map Prod.fst

section Look

variable {subs : List Subscription}

theorem Indexed.exact_perm (h : Indexed σ subs) (topic : List Char) :
    ((σ.subscriptions.lookup topic).getD []).Perm
      (subs.filter fun sub => ¬sub.Wild ∧ sub.pattern = topic) := by
  cases found : σ.subscriptions.lookup topic with
  | some exact =>
    obtain ⟨before, after, eq, -⟩ := List.lookup_eq_some_iff.1 found
    exact h.exact (topic, exact) (by rw [eq]; simp)
  | none =>
    have none : (subs.filter fun sub => ¬sub.Wild ∧ sub.pattern = topic) = [] := by
      rw [List.filter_eq_nil_iff]
      intro sub hs here
      obtain ⟨tame, rfl⟩ := of_decide_eq_true here
      obtain ⟨entry, mem, key⟩ := List.mem_map.1 (h.covered sub hs tame)
      have other := List.lookup_eq_none_iff.1 found entry mem
      rw [key] at other
      simp at other
    rw [none]
    exact List.Perm.refl _

/-- A look-up gives the subscriptions that the index finds. -/
theorem Indexed.matching_perm (h : Indexed σ subs) (topic : List Char) :
    (σ.matchingSubscriptions topic).Perm (subs.filter fun sub => sub.Indexes topic) := by
  have wild : (σ.patternSubscriptions.filter fun sub => Fnmatch.fnmatch topic sub.pattern).Perm
      ((subs.filter fun sub => sub.Indexes topic).filter fun sub => sub.Wild) := by
    refine (h.wild.filter _).trans ?_
    rw [List.filter_filter, List.filter_filter]
    refine List.Perm.of_eq (List.filter_congr fun sub _ => ?_)
    by_cases wild : sub.Wild
    · simp [wild, Subscription.Indexes]
    · simp [wild]
  have exact : ((σ.subscriptions.lookup topic).getD []).Perm
      ((subs.filter fun sub => sub.Indexes topic).filter fun sub => ¬sub.Wild) := by
    refine (h.exact_perm topic).trans ?_
    rw [List.filter_filter]
    refine List.Perm.of_eq (List.filter_congr fun sub _ => ?_)
    by_cases wild : sub.Wild
    · simp [wild]
    · simp [wild, Subscription.Indexes]
  refine (List.mergeSort_perm _ _).trans ?_
  refine (exact.append wild).trans (List.perm_append_comm.trans ?_)
  have whole := List.filter_append_perm (fun sub : Subscription => decide sub.Wild)
    (subs.filter fun sub => sub.Indexes topic)
  simpa only [decide_not] using whole

theorem matching_sorted (σ : State) (topic : List Char) :
    (σ.matchingSubscriptions topic).Pairwise fun a b => b.priority ≤ a.priority := by
  have sorted := @List.pairwise_mergeSort _ (fun a b : Subscription => decide (b.priority ≤ a.priority))
    (fun a b c ab bc => by simp only [decide_eq_true_eq] at ab bc ⊢; omega)
    (fun a b => by simp only [Bool.or_eq_true, decide_eq_true_eq]; omega)
  exact (sorted _).imp of_decide_eq_true

theorem matchCount_eq (σ : State) (topic : List Char) :
    σ.matchCount topic = (σ.matchingSubscriptions topic).length := by
  rw [State.matchCount, State.matchingSubscriptions, List.length_mergeSort, List.length_append,
    List.countP_eq_length_filter]

end Look

section Calls

variable {subs : List Subscription} {sub : Subscription} {subscriberId : String}

theorem insertSubscription_perm (subs : List Subscription) (sub : Subscription) :
    (State.insertSubscription subs sub).Perm (subs ++ [sub]) :=
  List.mergeSort_perm _ _

/-- A subscription with a new id joins the index. -/
theorem Indexed.subscribe (h : Indexed σ subs) (fresh : sub.subscriberId ∉ subs.map Subscription.subscriberId) :
    Indexed (σ.subscribe sub) (subs ++ [sub]) := by
  have ids : ((subs ++ [sub]).map Subscription.subscriberId).Nodup := by
    rw [List.map_append, List.nodup_append]
    refine ⟨h.ids, List.nodup_singleton _, ?_⟩
    intro id mem id' mem'
    rw [List.map_singleton, List.mem_singleton] at mem'
    rintro rfl
    rw [mem'] at mem
    exact fresh mem
  by_cases wild : sub.Wild
  · have step : σ.subscribe sub =
        { σ with patternSubscriptions := State.insertSubscription σ.patternSubscriptions sub } := if_pos wild
    rw [step]
    refine ⟨ids, ?_, h.keys, fun entry mem => ?_, fun other mem tame => ?_⟩
    · rw [List.filter_append, List.filter_cons_of_pos (by simpa using wild)]
      exact (insertSubscription_perm _ _).trans (h.wild.append_right _)
    · rw [List.filter_append, List.filter_cons_of_neg (by simp [wild]), List.filter_nil, List.append_nil]
      exact h.exact entry mem
    · rcases List.mem_append.1 mem with old | new
      · exact h.covered other old tame
      · rw [List.mem_singleton.1 new] at tame
        exact absurd wild tame
  · have same : ((subs ++ [sub]).filter fun sub => sub.Wild) = subs.filter fun sub => sub.Wild := by
      rw [List.filter_append, List.filter_cons_of_neg (by simpa using wild), List.filter_nil, List.append_nil]
    by_cases known : ∃ entry ∈ σ.subscriptions, entry.1 = sub.pattern
    · have step : σ.subscribe sub =
          { σ with
            subscriptions := σ.subscriptions.map fun entry =>
              if entry.1 = sub.pattern then (entry.1, State.insertSubscription entry.2 sub) else entry } :=
        (if_neg wild).trans (if_pos known)
      have keys : (σ.subscriptions.map fun entry =>
          if entry.1 = sub.pattern then (entry.1, State.insertSubscription entry.2 sub) else entry).map Prod.fst =
            σ.subscriptions.map Prod.fst := by
        rw [List.map_map]
        refine List.map_congr_left fun entry _ => ?_
        show (if entry.1 = sub.pattern then _ else entry).1 = entry.1
        split_ifs <;> rfl
      rw [step]
      refine ⟨ids, ?_, ?_, fun entry mem => ?_, fun other mem tame => ?_⟩
      · rw [same]
        exact h.wild
      · show ((σ.subscriptions.map _).map Prod.fst).Nodup
        rw [keys]
        exact h.keys
      · obtain ⟨old, hold, rfl⟩ := List.mem_map.1 mem
        by_cases here : old.1 = sub.pattern
        · rw [if_pos here, List.filter_append, List.filter_cons_of_pos (by simp [wild, here]), List.filter_nil]
          exact (insertSubscription_perm _ _).trans ((h.exact old hold).append_right _)
        · rw [if_neg here, List.filter_append,
            List.filter_cons_of_neg (by simpa [wild] using fun eq => here eq.symm), List.filter_nil,
            List.append_nil]
          exact h.exact old hold
      · show other.pattern ∈ (σ.subscriptions.map _).map Prod.fst
        rw [keys]
        rcases List.mem_append.1 mem with old | new
        · exact h.covered other old tame
        · obtain ⟨entry, hentry, key⟩ := known
          rw [List.mem_singleton.1 new]
          exact List.mem_map.2 ⟨entry, hentry, key⟩
    · have step : σ.subscribe sub =
          { σ with subscriptions := σ.subscriptions ++ [(sub.pattern, [sub])] } :=
        (if_neg wild).trans (if_neg known)
      rw [step]
      have unknown : sub.pattern ∉ σ.subscriptions.map Prod.fst := by
        intro mem
        obtain ⟨entry, hentry, key⟩ := List.mem_map.1 mem
        exact known ⟨entry, hentry, key⟩
      refine ⟨ids, ?_, ?_, fun entry mem => ?_, fun other mem tame => ?_⟩
      · rw [same]
        exact h.wild
      · show ((σ.subscriptions ++ [(sub.pattern, [sub])]).map Prod.fst).Nodup
        rw [List.map_append, List.nodup_append]
        refine ⟨h.keys, List.nodup_singleton _, ?_⟩
        intro key mem key' mem'
        rw [List.map_singleton, List.mem_singleton] at mem'
        rintro rfl
        rw [mem'] at mem
        exact unknown mem
      · rw [List.filter_append]
        rcases List.mem_append.1 mem with old | new
        · have other : entry.1 ≠ sub.pattern := fun eq => known ⟨entry, old, eq⟩
          rw [List.filter_cons_of_neg (by simpa [wild] using fun eq => other eq.symm), List.filter_nil,
            List.append_nil]
          exact h.exact entry old
        · rw [List.mem_singleton.1 new]
          have none : (subs.filter fun other => ¬other.Wild ∧ other.pattern = sub.pattern) = [] := by
            rw [List.filter_eq_nil_iff]
            intro other mem here
            obtain ⟨tame, eq⟩ := of_decide_eq_true here
            exact unknown (eq ▸ h.covered other mem tame)
          rw [none, List.filter_cons_of_pos (by simp [wild]), List.filter_nil, List.nil_append]
      · show other.pattern ∈ (σ.subscriptions ++ [(sub.pattern, [sub])]).map Prod.fst
        rw [List.map_append, List.mem_append]
        rcases List.mem_append.1 mem with old | new
        · exact .inl (h.covered other old tame)
        · rw [List.mem_singleton.1 new]
          exact .inr (List.mem_singleton.2 rfl)

theorem dropSubscription_eq {l : List Subscription} (ids : (l.map Subscription.subscriberId).Nodup) :
    State.dropSubscription subscriberId l = l.filter fun sub => sub.subscriberId ≠ subscriberId := by
  induction l with
  | nil => rfl
  | cons sub rest ih =>
    rw [List.map_cons, List.nodup_cons] at ids
    by_cases here : sub.subscriberId = subscriberId
    · have later : (rest.filter fun sub => sub.subscriberId ≠ subscriberId) = rest := by
        rw [List.filter_eq_self]
        intro other mem
        have apart : other.subscriberId ≠ subscriberId := by
          rintro rfl
          rw [here] at ids
          exact ids.1 (List.mem_map.2 ⟨other, mem, rfl⟩)
        simpa using apart
      rw [State.dropSubscription, List.eraseP_cons_of_pos (by simpa using here),
        List.filter_cons_of_neg (by simpa using here), later]
    · rw [State.dropSubscription, List.eraseP_cons_of_neg (by simpa using here),
        List.filter_cons_of_pos (by simpa using here)]
      exact congrArg _ (ih ids.2)

theorem Indexed.mem_of_entry (h : Indexed σ subs) {entry : List Char × List Subscription}
    (hentry : entry ∈ σ.subscriptions) (mem : sub ∈ entry.2) :
    sub ∈ subs ∧ ¬sub.Wild ∧ sub.pattern = entry.1 := by
  have filtered := (h.exact entry hentry).mem_iff.1 mem
  exact ⟨List.mem_of_mem_filter filtered, of_decide_eq_true (List.mem_filter.1 filtered).2⟩

theorem Indexed.ids_entry (h : Indexed σ subs) {entry : List Char × List Subscription}
    (hentry : entry ∈ σ.subscriptions) : (entry.2.map Subscription.subscriberId).Nodup :=
  ((h.exact entry hentry).map _).nodup_iff.2 (h.ids.sublist (List.filter_sublist.map _))

theorem Indexed.ids_wild (h : Indexed σ subs) :
    (σ.patternSubscriptions.map Subscription.subscriberId).Nodup :=
  (h.wild.map _).nodup_iff.2 (h.ids.sublist (List.filter_sublist.map _))

theorem Indexed.eq_of_id (h : Indexed σ subs) {a b : Subscription} (ha : a ∈ subs) (hb : b ∈ subs)
    (id : a.subscriberId = b.subscriberId) : a = b :=
  List.inj_on_of_nodup_map h.ids ha hb id

/-- The subscription with the id goes, wherever it is. -/
theorem Indexed.unsubscribe_eq (h : Indexed σ subs) (subscriberId : String) :
    σ.unsubscribe subscriberId =
      { σ with
        subscriptions := σ.subscriptions.map fun entry =>
          (entry.1, entry.2.filter fun sub => sub.subscriberId ≠ subscriberId)
        patternSubscriptions := σ.patternSubscriptions.filter fun sub => sub.subscriberId ≠ subscriberId } := by
  have kept : ∀ {l : List Subscription}, (∀ sub ∈ l, sub.subscriberId ≠ subscriberId) →
      (l.filter fun sub => sub.subscriberId ≠ subscriberId) = l := by
    intro l none
    rw [List.filter_eq_self]
    intro sub mem
    simpa using none sub mem
  rw [State.unsubscribe]
  cases found : σ.subscriptions.findIdx? fun entry => entry.2.any fun sub => sub.subscriberId = subscriberId with
  | none =>
    have absent : ∀ entry ∈ σ.subscriptions, ∀ sub ∈ entry.2, sub.subscriberId ≠ subscriberId := by
      intro entry hentry sub mem id
      have none := List.findIdx?_eq_none_iff.1 found entry hentry
      have some : (entry.2.any fun sub => sub.subscriberId = subscriberId) = true :=
        List.any_eq_true.2 ⟨sub, mem, decide_eq_true id⟩
      rw [some] at none
      cases none
    have same : (σ.subscriptions.map fun entry =>
        (entry.1, entry.2.filter fun sub => sub.subscriberId ≠ subscriberId)) = σ.subscriptions := by
      refine (List.map_congr_left fun entry hentry => ?_).trans (List.map_id _)
      rw [kept (absent entry hentry)]
      rfl
    rw [same, dropSubscription_eq h.ids_wild]
  | some n =>
    obtain ⟨hn, has, -⟩ := List.findIdx?_eq_some_iff_getElem.1 found
    obtain ⟨target, mem, id⟩ := List.any_eq_true.1 has
    obtain ⟨live, tame, pattern⟩ := h.mem_of_entry (List.getElem_mem hn) mem
    have unique : ∀ other ∈ subs, other.subscriberId = subscriberId → other = target := by
      intro other hother same
      exact h.eq_of_id hother live (same.trans (of_decide_eq_true id).symm)
    have wild : (σ.patternSubscriptions.filter fun sub => sub.subscriberId ≠ subscriberId) =
        σ.patternSubscriptions := by
      refine kept fun sub hs same => ?_
      have filtered := h.wild.mem_iff.1 hs
      have eq := unique sub (List.mem_of_mem_filter filtered) same
      rw [eq] at filtered
      exact tame (of_decide_eq_true (List.mem_filter.1 filtered).2)
    have exact : (σ.subscriptions.modify n fun entry =>
        (entry.1, State.dropSubscription subscriberId entry.2)) =
          σ.subscriptions.map fun entry =>
            (entry.1, entry.2.filter fun sub => sub.subscriberId ≠ subscriberId) := by
      refine List.ext_getElem (by simp) fun m h₁ h₂ => ?_
      have hm : m < σ.subscriptions.length := by simpa using h₁
      rw [List.getElem_modify, List.getElem_map]
      by_cases same : n = m
      · rw [if_pos same, dropSubscription_eq (h.ids_entry (List.getElem_mem hm))]
      · rw [if_neg same, kept]
        intro sub hs eq
        obtain ⟨hsub, -, key⟩ := h.mem_of_entry (List.getElem_mem hm) hs
        rw [unique sub hsub eq, pattern] at key
        have hn' : n < (σ.subscriptions.map Prod.fst).length := by simpa using hn
        have hm' : m < (σ.subscriptions.map Prod.fst).length := by simpa using hm
        have keys : (σ.subscriptions.map Prod.fst)[n] = (σ.subscriptions.map Prod.fst)[m] := by
          rw [List.getElem_map, List.getElem_map, key]
        exact same ((List.Nodup.getElem_inj_iff h.keys).1 keys)
    show { σ with subscriptions := σ.subscriptions.modify n _ } = { σ with subscriptions := _, patternSubscriptions := _ }
    rw [wild, exact]

theorem Indexed.unsubscribe (h : Indexed σ subs) (subscriberId : String) :
    Indexed (σ.unsubscribe subscriberId) (subs.filter fun sub => sub.subscriberId ≠ subscriberId) := by
  rw [h.unsubscribe_eq]
  have keys : (σ.subscriptions.map fun entry : List Char × List Subscription =>
      (entry.1, entry.2.filter fun sub => sub.subscriberId ≠ subscriberId)).map Prod.fst =
        σ.subscriptions.map Prod.fst := by
    rw [List.map_map]
    rfl
  refine ⟨h.ids.sublist (List.filter_sublist.map _), ?_, ?_, fun entry mem => ?_, fun sub mem tame => ?_⟩
  · rw [List.filter_comm]
    exact h.wild.filter _
  · show ((σ.subscriptions.map _).map Prod.fst).Nodup
    rw [keys]
    exact h.keys
  · obtain ⟨old, hold, rfl⟩ := List.mem_map.1 mem
    rw [List.filter_comm]
    exact (h.exact old hold).filter _
  · show sub.pattern ∈ (σ.subscriptions.map _).map Prod.fst
    rw [keys]
    exact h.covered sub (List.mem_of_mem_filter mem) tame

/-- The index follows calls whose ids are new. -/
theorem indexed_calls {calls : List SubscriptionCall} (h : Indexed σ subs)
    (ids : (subs.map Subscription.subscriberId ++ calls.filterMap SubscriptionCall.issued).Nodup) :
    Indexed (calls.foldl SubscriptionCall.apply σ) (calls.foldl SubscriptionCall.register subs) := by
  induction calls generalizing σ subs with
  | nil => exact h
  | cons call calls ih =>
    cases call with
    | subscribe sub =>
      have parts : (subs.map Subscription.subscriberId ++ sub.subscriberId ::
          calls.filterMap SubscriptionCall.issued).Nodup := ids
      have fresh : sub.subscriberId ∉ subs.map Subscription.subscriberId :=
        fun mem => (List.nodup_append.1 parts).2.2 _ mem _ (List.mem_cons_self ..) rfl
      apply ih (h.subscribe fresh)
      rw [List.map_append, List.append_assoc]
      exact parts
    | unsubscribe subscriberId =>
      have parts : (subs.map Subscription.subscriberId ++
          calls.filterMap SubscriptionCall.issued).Nodup := ids
      apply ih (h.unsubscribe subscriberId)
      exact parts.sublist ((List.filter_sublist.map _).append_right _)

end Calls

/-- The look-ups of a topic give the live subscriptions whose pattern matches it, each once, by descending
priority, and `match_count` their number. -/
def State.Matches (σ : State) (subs : List Subscription) (topic : List Char) : Prop :=
  (σ.matchingSubscriptions topic).Perm (subs.filter fun sub => Fnmatch.fnmatch topic sub.pattern) ∧
    (σ.matchingSubscriptions topic).Pairwise (fun a b => b.priority ≤ a.priority) ∧
    σ.matchCount topic = (subs.filter fun sub => Fnmatch.fnmatch topic sub.pattern).length

/-- After calls that give different ids: all topics are looked up rightly if and only if each live pattern without
`*` and `?` is without a class; and unsubscribing takes that subscription from every look-up and no other. -/
theorem matching_iff (core : BusCore) (store : SqliteOutbox) {calls : List SubscriptionCall}
    (ids : (calls.filterMap SubscriptionCall.issued).Nodup) :
    ((∀ topic, (calls.foldl SubscriptionCall.apply (State.init core store)).Matches
        (SubscriptionCall.registered calls) topic) ↔
      ∀ sub ∈ SubscriptionCall.registered calls, sub.Classified) ∧
    ∀ subscriberId topic,
      (((calls.foldl SubscriptionCall.apply (State.init core store)).unsubscribe
          subscriberId).matchingSubscriptions topic).Perm
        (((calls.foldl SubscriptionCall.apply (State.init core store)).matchingSubscriptions topic).filter
          fun sub => sub.subscriberId ≠ subscriberId) := by
  have empty : Indexed (State.init core store) [] :=
    ⟨List.nodup_nil, List.Perm.refl _, List.nodup_nil, by simp [State.init], by simp⟩
  have indexed : Indexed (calls.foldl SubscriptionCall.apply (State.init core store))
      (SubscriptionCall.registered calls) := indexed_calls empty ids
  generalize calls.foldl SubscriptionCall.apply (State.init core store) = σ at indexed
  generalize SubscriptionCall.registered calls = subs at indexed
  refine ⟨⟨fun all sub mem => ?_, fun classified topic => ?_⟩, fun subscriberId topic => ?_⟩
  · by_contra unclassified
    obtain ⟨found, unmatched⟩ := sub.indexes_pattern unclassified
    have here : sub ∈ subs.filter fun other => other.Indexes sub.pattern :=
      List.mem_filter.2 ⟨mem, decide_eq_true found⟩
    have there := ((indexed.matching_perm sub.pattern).symm.trans (all sub.pattern).1).mem_iff.1 here
    rw [(List.mem_filter.1 there).2] at unmatched
    cases unmatched
  · have same : (subs.filter fun sub => sub.Indexes topic) =
        subs.filter fun sub => Fnmatch.fnmatch topic sub.pattern := by
      refine List.filter_congr fun sub mem => ?_
      rw [Bool.eq_iff_iff, decide_eq_true_iff]
      exact sub.indexes_iff (classified sub mem) topic
    have perm := indexed.matching_perm topic
    rw [same] at perm
    exact ⟨perm, matching_sorted σ topic, (matchCount_eq σ topic).trans perm.length_eq⟩
  · refine ((indexed.unsubscribe subscriberId).matching_perm topic).trans ?_
    rw [List.filter_comm]
    exact ((indexed.matching_perm topic).filter _).symm

namespace Looked

/-- A bus of one worker. -/
def core : BusCore := .init 1 0 1 [] .block none false false 5 10 60 false ⟨fun _ => none, fun _ => none⟩

/-- A pattern and an exact topic are subscribed to, and the pattern is given up. -/
def calls : List SubscriptionCall :=
  [.subscribe { subscriberId := "a", pattern := "order.*".toList },
    .subscribe { subscriberId := "b", pattern := "order.created".toList, priority := 1 }, .unsubscribe "a"]

/-- A class without wild cards. -/
def spelled : Subscription := { subscriberId := "a", pattern := "order.[ab]".toList }

end Looked

/-- An exact topic is looked up rightly. -/
theorem matching_looked :
    (Looked.calls.foldl SubscriptionCall.apply (State.init Looked.core { maxAge := 60 })).Matches
      (SubscriptionCall.registered Looked.calls) "order.created".toList := by
  refine (matching_iff Looked.core { maxAge := 60 } (by decide)).1.2 (fun sub mem => ?_) _
  have live : SubscriptionCall.registered Looked.calls =
    [{ subscriberId := "b", pattern := "order.created".toList, priority := 1 }] := by decide
  rw [live, List.mem_singleton] at mem
  subst mem
  refine .inr ?_
  rintro ⟨negated, ranges, cls⟩
  have lits : Fnmatch.tokens 13 "order.created".toList = "order.created".toList.map .lit := by decide
  have here : Glob.Token.cls negated ranges ∈ "order.created".toList.map .lit := lits ▸ cls
  simp at here

/-- A subscription of a class is not found for a topic that matches its pattern. -/
theorem class_unmatched :
    Fnmatch.fnmatch "order.a".toList Looked.spelled.pattern = true ∧
      ((State.init Looked.core { maxAge := 60 }).subscribe Looked.spelled).matchingSubscriptions "order.a".toList =
        [] := by
  refine ⟨by decide, ?_⟩
  have empty : (((State.init Looked.core { maxAge := 60 }).subscribe Looked.spelled).subscriptions.lookup
      "order.a".toList) = none := by decide
  have none : ((State.init Looked.core { maxAge := 60 }).subscribe Looked.spelled).patternSubscriptions = [] := by
    decide
  rw [State.matchingSubscriptions, empty, none]
  exact List.mergeSort_nil

end NavigatorEventbus.Bus
