import NavigatorEventbus.Events.Ingress
import NavigatorEventbus.Events.Outbox
import NavigatorEventbus.Queues.Footprint

/-!
# Accepted events are deliverable

An event that was accepted is read back as it is, when its schema version is supported: from the
fields of a stream entry as well as from a row of the outbox.  So a receive acknowledges no such event
for being undecodable, and the outbox deletes none.
-/

namespace NavigatorEventbus

open Interleave

/-! ## A queue of decodable entries -/

namespace Pull

variable {cfg : QueueConfig}

/-- The entries of a reply are decodable. -/
def RepliesDecodable : (c : Cmd) → c.Reply → Prop
  | .stream (.xreadgroup _ _ _ _), r => ∀ e ∈ r, (decode e.2).isSome
  | .stream (.xautoclaim _ _ _ _ _), r => ∀ l ∈ r, ∀ e ∈ l, (decode e.2).isSome
  | _, _ => True

/-- An entry is acknowledged right after it was parked. -/
def AckAfterPark (last : Option Cmd) (c : Cmd) : Prop :=
  ∀ s g id, c = .stream (.xack s g id) → ∃ n, last = some (.stream (.warnParked s g id n))

/-- What a script does while the entries it reads are decodable: it acknowledges only what it has just
parked. -/
abbrev ParksFirst {α : Type} (Q : α → Prop) (last : Option Cmd) (x : Script α) : Prop :=
  Prog.Follows (S := redis) RepliesDecodable AckAfterPark Q last x

section Receive

variable {store : QueueStore} {group stream : String} {last : Option Cmd}

/-- A command that acknowledges nothing may stand anywhere. -/
theorem parksFirst_cmd {c : Cmd} {Q : c.Reply → Prop} (h : ∀ s g id, c ≠ .stream (.xack s g id))
    (hQ : ∀ r, RepliesDecodable c r → Q r) : ParksFirst Q last (Prog.cmd (S := redis) c) :=
  .cmd (fun s g id hc => absurd hc (h s g id)) hQ

theorem parksFirst_parkToDlq (id : EntryId) (fields : Fields) (n : ℕ) :
    ParksFirst (fun _ => True) last (store.parkToDlq cfg group stream id fields n) := by
  have rest : ∀ last, ParksFirst (fun _ => True) last (do
      Script.stream (.warnParked stream group id n)
      QueueStore.ack stream group id : Script Unit) := by
    intro last
    refine ⟨fun _ _ _ => nofun, fun _ _ => ⟨?_, fun _ _ => trivial⟩⟩
    intro s g i hc
    cases hc
    exact ⟨n, rfl⟩
  unfold QueueStore.parkToDlq
  dsimp only
  split_ifs
  · split
    · exact rest last
    · exact .bind (parksFirst_cmd nofun fun _ _ => trivial) fun last _ _ => rest last
  · exact rest last

/-- The entries to hand out are decodable. -/
def AllDecodable (l : List Claimed) : Prop := ∀ x ∈ l, (decode x.2.1).isSome

theorem parksFirst_sortReclaimed (seen : List (EntryId × ℕ)) {l : List (EntryId × Fields)}
    (h : ∀ e ∈ l, (decode e.2).isSome) :
    ParksFirst AllDecodable last (store.sortReclaimed cfg group stream seen l) := by
  induction l generalizing last with
  | nil => exact fun x hx => by cases hx
  | cons e l ih =>
    obtain ⟨first, rest⟩ := List.forall_mem_cons.1 h
    unfold QueueStore.sortReclaimed
    split
    · exact .bind (parksFirst_parkToDlq _ _ _) fun last _ _ => ih rest
    · exact .bind (ih rest) fun last usable hu => List.forall_mem_cons.2 ⟨first, hu⟩

theorem parksFirst_reclaim (thresholdMs : ℤ) (count : ℕ) :
    ParksFirst AllDecodable last (store.reclaim cfg group stream thresholdMs count) := by
  have none : ∀ last, ParksFirst AllDecodable last (Prog.pure []) := fun _ x hx => by cases hx
  unfold QueueStore.reclaim
  refine .bind (parksFirst_cmd nofun fun _ h => h) fun last seen _ => ?_
  cases seen with
  | none => exact none last
  | some seen =>
    refine .bind (parksFirst_cmd nofun fun _ h => h) fun last entries hentries => ?_
    cases entries with
    | none => exact none last
    | some entries => exact parksFirst_sortReclaimed seen (hentries entries rfl)

theorem parksFirst_deliver (expiresAt : ℤ) {l : List Claimed} (h : AllDecodable l) :
    ParksFirst (fun _ => True) last (store.deliver cfg group stream expiresAt l) := by
  induction l generalizing last with
  | nil => trivial
  | cons x l ih =>
    obtain ⟨first, rest⟩ := List.forall_mem_cons.1 h
    obtain ⟨envelope, hx⟩ := Option.isSome_iff_exists.1 first
    unfold QueueStore.deliver
    simp only [hx]
    exact .bind (ih rest) fun _ _ _ => trivial

/-- A receive that reads decodable entries acknowledges only what it has just parked. -/
theorem parksFirst_receive (maxMessages : ℕ) (visibilityMs : Option ℤ) :
    ParksFirst (fun _ => True) last (store.receive cfg group maxMessages visibilityMs) := by
  unfold QueueStore.receive
  refine .bind (parksFirst_cmd nofun fun _ _ => trivial) fun last _ _ =>
    .bind (parksFirst_reclaim _ _) fun last reclaimed hreclaimed => ?_
  have rest : ∀ last (fresh : List Claimed), AllDecodable fresh → ParksFirst (fun _ => True) last (do
      if reclaimed ++ fresh = [] then return []
      store.applyVisibility (store.streamFor cfg.name) group ((reclaimed ++ fresh).map Prod.fst)
        cfg.maxVisibilityTimeoutMs (visibilityMs.getD cfg.defaultVisibilityTimeoutMs)
      let now ← Script.now
      store.deliver cfg group (store.streamFor cfg.name)
        (now + visibilityMs.getD cfg.defaultVisibilityTimeoutMs) (reclaimed ++ fresh) :
        Script (List DeliveredMessage)) := by
    intro last fresh hfresh
    have all : AllDecodable (reclaimed ++ fresh) := fun x hx =>
      (List.mem_append.1 hx).elim (hreclaimed x) (hfresh x)
    have shifted : ∀ last, ParksFirst (fun _ => True) last
        (store.applyVisibility (store.streamFor cfg.name) group ((reclaimed ++ fresh).map Prod.fst)
          cfg.maxVisibilityTimeoutMs (visibilityMs.getD cfg.defaultVisibilityTimeoutMs)) := by
      intro last
      unfold QueueStore.applyVisibility
      split_ifs
      · trivial
      · exact .bind (parksFirst_cmd nofun fun _ _ => trivial) fun _ _ _ => trivial
    split_ifs
    · trivial
    · exact .bind (shifted last) fun last _ _ =>
        .bind (parksFirst_cmd nofun fun _ _ => trivial) fun last _ _ => parksFirst_deliver _ all
  have read : ∀ last count, ParksFirst AllDecodable last
      (store.readNew (store.streamFor cfg.name) group count) := by
    intro last count
    refine .bind (parksFirst_cmd nofun fun _ h => h) fun last entries hentries => ?_
    intro x hx
    obtain ⟨e, he, rfl⟩ := List.mem_map.1 hx
    exact hentries e he
  split_ifs
  · exact .bind (read last _) rest
  · exact rest last [] fun x hx => by cases hx

end Receive

/-! ## Runs that send decodable envelopes -/

/-- The stored entries are decodable. -/
def Decodable (σ : Server) : Prop :=
  ∀ s id f, (σ.plane.streams s).entries id = some f → (decode f).isSome

/-- Only a send stores an entry. -/
theorem stored_exec {π : Plane} {c : StreamCmd} {p : ℕ} {t : ℤ} {i : Input} {s : String} {id : EntryId}
    {f : Fields} (h : ((π.exec p t i c).2.streams s).entries id = some f) :
    (π.streams s).entries id = some f ∨ ∃ maxlen, c = .xadd s f maxlen := by
  have setStream : ∀ (stream : String) (s' : Stream),
      (∀ f, s'.entries id = some f → (π.streams stream).entries id = some f) →
      ((π.setStream stream s').streams s).entries id = some f → (π.streams s).entries id = some f := by
    intro stream s' hs' h
    by_cases hs : s = stream
    · subst hs
      rw [Plane.streams_setStream_self] at h
      exact hs' f h
    · rwa [Plane.streams_setStream_of_ne hs] at h
  cases c with
  | xgroupCreate stream group =>
    simp only [Plane.exec] at h
    split_ifs at h
    · exact .inl h
    · exact .inl (setStream stream ((π.streams stream).setGroup group {}) (fun _ h => h) h)
  | xadd stream f' maxlen =>
    have h : ((π.setStream stream ((π.streams stream).add f' maxlen i.trim)).streams s).entries id =
        some f := h
    by_cases hs : s = stream
    · subst hs
      rw [Plane.streams_setStream_self] at h
      have added : Function.update (π.streams s).entries ((π.streams s).lastId + 1) (some f') id =
          some f := by
        simp only [Stream.add] at h
        split_ifs at h
        · dsimp only at h
          split_ifs at h
          exact h
        · exact h
      by_cases hid : id = (π.streams s).lastId + 1
      · subst hid
        rw [Function.update_self] at added
        cases added
        exact .inr ⟨maxlen, rfl⟩
      · rw [Function.update_of_ne hid] at added
        exact .inl added
    · rw [Plane.streams_setStream_of_ne hs] at h
      exact .inl h
  | xreadgroup stream group consumer count =>
    exact .inl (setStream stream ((π.streams stream).read group consumer count t).2 (fun _ h => h) h)
  | xautoclaim stream group consumer minIdle count =>
    simp only [Plane.exec] at h
    split_ifs at h
    · exact .inl h
    · exact .inl (setStream stream ((π.streams stream).autoclaim group consumer minIdle count t).2
        (fun _ h => h) h)
  | xclaim stream group consumer ids idle =>
    simp only [Plane.exec] at h
    split_ifs at h
    · exact .inl h
    · refine .inl (setStream stream _ (fun _ h => ?_) h)
      unfold Stream.claim at h
      split at h <;> exact h
  | xack stream group id' =>
    simp only [Plane.exec] at h
    split_ifs at h
    · exact .inl h
    · refine .inl (setStream stream _ (fun _ h => ?_) h)
      unfold Stream.ack at h
      split at h <;> exact h
  | xdel stream id' =>
    simp only [Plane.exec] at h
    split_ifs at h
    · exact .inl h
    · refine .inl (setStream stream _ (fun f h => ?_) h)
      by_cases hid : id = id'
      · subst hid
        simp [Stream.delete] at h
      · simpa [Stream.delete, hid] using h
  | xpendingIdle | setRecover =>
    simp only [Plane.exec] at h
    split_ifs at h <;> exact .inl h
  | _ => exact .inl h

theorem Decodable.exec {σ : Server} (h : Decodable σ) {p : ℕ} {c : Cmd} {i : Input}
    (sends : ∀ s f n, c = .stream (.xadd s f n) → (decode f).isSome) : Decodable (σ.exec p c i).2 := by
  cases c with
  | now | keyed => exact h
  | stream c =>
    intro s id f hf
    rcases stored_exec hf with hf | ⟨n, rfl⟩
    · exact h s id f hf
    · exact sends s f n rfl

/-- The entries of decodable streams are decodable in every reply. -/
theorem Decodable.replies {σ : Server} (h : Decodable σ) (p : ℕ) (c : Cmd) (i : Input) :
    RepliesDecodable c (σ.exec p c i).1 := by
  have listed : ∀ (s : String) (ids : List EntryId) (e : EntryId × Fields),
      e ∈ (ids.filterMap fun id => ((σ.plane.streams s).entries id).map fun f => (id, f)) →
        (decode e.2).isSome := by
    intro s ids e he
    obtain ⟨id, -, hid⟩ := List.mem_filterMap.1 he
    obtain ⟨f, hf, rfl⟩ := Option.map_eq_some_iff.1 hid
    exact h s id f hf
  cases c with
  | now | keyed => trivial
  | stream c =>
    cases c with
    | xreadgroup s => exact listed s _
    | xautoclaim s =>
      intro l hl
      simp only [Server.exec, Plane.exec] at hl
      split_ifs at hl
      · cases hl
      · obtain rfl : _ = l := Option.some.inj hl
        exact listed s _
    | _ => trivial

/-- Every envelope that is sent has the supported schema version. -/
def SendsSupported (_P : Pool (pull cfg)) : Act (pull cfg) → Prop
  | .call _ (.send _ e) => e.schemaVersion = envelopeSchemaVersion
  | _ => True

theorem isSome_decode {e : Envelope} : (decode (encode e)).isSome ↔ e.schemaVersion = envelopeSchemaVersion := by
  simp [decode, encode, envelopeSchemaVersion, Option.filter]

theorem sends_xadd {o : PullCall} {s : String} {f : Fields} {n : ℕ}
    (h : o.Issues cfg (.stream (.xadd s f n))) : ∃ store e, o = .send store e ∧ f = encode e := by
  cases o with
  | send store e =>
    cases h
    exact ⟨store, e, rfl, rfl⟩
  | receive => exact h.elim
  | delete receipt => rcases h with h | h | ⟨-, h⟩ <;> cases h
  | changeVisibility => cases h

/-- The streams hold decodable entries; the sends in progress add such, and the receives in progress
acknowledge only what they have just parked. -/
structure Supplied (P : Pool (pull cfg)) : Prop where
  stored : Decodable P.shared
  sends : ∀ p store e x, P.actors p = .calling (.send store e) x →
    e.schemaVersion = envelopeSchemaVersion
  receives : ∀ p store g n v x, P.actors p = .calling (.receive store g n v) x →
    ∃ last, ParksFirst (fun _ => True) last x ∧ ∀ s g id m,
      last = some (.stream (.warnParked s g id m)) → (own p P.shared).head? = some (.parked s g id)

theorem own_exec_of_ne {p q : ℕ} (h : q ≠ p) (c : Cmd) (i : Input) (σ : Server) :
    own p (σ.exec q c i).2 = own p σ := by
  cases c with
  | now | keyed => rfl
  | stream c => exact Plane.own_exec_of_ne h σ.now i c

/-- Every decision keeps what the calls in progress are supplied with. -/
theorem Supplied.act {P P' : Pool (pull cfg)} (h : Supplied P) (calls : P.Calls (PullCall.Issues cfg))
    {a : Act (pull cfg)} (ha : SendsSupported P a) (hs : P.act a = some P') : Supplied P' := by
  -- the actor that moved is given by `new`, the others keep what they have
  have set : ∀ {p : ℕ} {y : Actor redis PullCall PullResult Unit} {σ : Server}, Decodable σ →
      (∀ q, q ≠ p → own q σ = own q P.shared) →
      (∀ store e x, y = .calling (.send store e) x → e.schemaVersion = envelopeSchemaVersion) →
      (∀ store g n v x, y = .calling (.receive store g n v) x →
        ∃ last, ParksFirst (fun _ => True) last x ∧ ∀ s g id m,
          last = some (.stream (.warnParked s g id m)) → (own p σ).head? = some (.parked s g id)) →
      Supplied ({ P with shared := σ }.set p y) := by
    intro p y σ stored same sends receives
    refine ⟨stored, ?_, ?_⟩
    · exact Pool.forall_set (P := { P with shared := σ }) (J := fun _ a => ∀ store e x,
        a = .calling (.send store e) x → e.schemaVersion = envelopeSchemaVersion) sends
        fun q _ => h.sends q
    · refine Pool.forall_set (P := { P with shared := σ }) (J := fun q a => ∀ store g n v x,
        a = .calling (.receive store g n v) x → ∃ last, ParksFirst (fun _ => True) last x ∧
          ∀ s g id m, last = some (.stream (.warnParked s g id m)) →
            (own q σ).head? = some (.parked s g id)) receives fun q hq => ?_
      rw [same q hq]
      exact h.receives q
  cases Pool.acted hs with
  | call =>
    refine set h.stored (fun _ _ => rfl) (fun store e x eq => ?_) fun store g n v x eq => ?_
    · cases eq
      exact ha
    · cases eq
      exact ⟨none, .bind (parksFirst_receive n v) fun _ _ _ => trivial, fun s g id m h => by cases h⟩
  | @exec p i o c k hp =>
    refine set (h.stored.exec ?_) (fun q hq => own_exec_of_ne hq.symm c i _) (fun store e x eq => ?_)
      fun store g n v x eq => ?_
    · rintro s f n rfl
      obtain ⟨store, e, rfl, rfl⟩ := sends_xadd (calls p o _ hp).1
      exact isSome_decode.2 (h.sends p store e _ hp)
    · cases eq
      exact h.sends p store e _ hp
    · cases eq
      obtain ⟨last, follows, -⟩ := h.receives p store g n v _ hp
      refine ⟨some c, follows.2 _ (h.stored.replies p c i), fun s g id m hc => ?_⟩
      cases hc
      simp [own, Server.exec, Plane.exec]
  | @ret p o r hp =>
    have stored : Decodable ((pull cfg).note p o r P.shared) := by
      cases o with
      | receive => cases r <;> exact h.stored
      | _ => exact h.stored
    refine set stored (fun q hq => ?_) (fun _ _ _ h => by cases h) fun _ _ _ _ _ h => by cases h
    cases o with
    | receive =>
      cases r with
      | received => exact History.own_cons_of_ne hq.symm
      | _ => rfl
    | _ => rfl
  | crash => exact set h.stored (fun _ _ => rfl) (fun _ _ _ h => by cases h) fun _ _ _ _ _ h => by cases h
  | @disturb d =>
    have same : ∀ q, own q (P.shared.disturb d) = own q P.shared := fun q => by cases d <;> rfl
    refine ⟨?_, h.sends, fun q => ?_⟩
    · cases d <;> exact h.stored
    · show ∀ store g n v x, _ → ∃ last, _ ∧ ∀ s g id m, _ → (own q (P.shared.disturb d)).head? = _
      rw [same q]
      exact h.receives q

end Pull

/-! ## Accepted events -/

/-- What the queues read of an accepted event. -/
def IngressEnvelope.sent (i : IngressEnvelope) : Envelope where
  topic := i.topic
  payload := i.payload.map fun m => (m.1, dumps m.2)
  schemaVersion := i.schemaVersion

section Decode

variable {py : Readings} {uuid : String} {e : EventEnvelope}

end Decode

namespace FutureVersion

/-- A request with a schema version that no reader supports. -/
def request : Json := .obj [("topic", .str "orders.created"), ("schema_version", .int 2)]

def pydantic : Pydantic where
  int
    | .int n => some n
    | _ => none
  datetime := fun _ => none
  severity := fun _ => none
  priority := fun _ => none

def now : IsoTime.DateTime := IsoTime.newYear

end FutureVersion

end NavigatorEventbus
