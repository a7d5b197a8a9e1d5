import NavigatorEventbus.Backend.Steps

/-!
# What a task of the streams backend may issue

The commands of each call (`issues_code`): a task only issues commands of its own instance, and only the
reader of a broadcast moves cursors.
-/

namespace NavigatorEventbus.Bus.Streams

open Interleave

namespace Cmd

variable (n : ℕ)

/-- The commands of `_ensure_group`. -/
def Ensures (reading : Bool) : Cmd → Prop
  | .isReady m _ | .xgroupCreate m _ => m = n
  | .ready m _ b => m = n ∧ b = reading
  | _ => False

/-- The commands of `publish`. -/
def Publishes : Cmd → Prop
  | .connect => True
  | .xadd m _ => m = n
  | c => c.Ensures n false

/-- The commands of `_handle_message`. -/
def Handles : Cmd → Prop
  | .decode m _ | .seen m _ | .hand m _ _ | .mark m _ | .xack m _ _ => m = n
  | .callback _ => True
  | _ => False

/-- The commands of `_refresh_streams`. -/
def Refreshes : Cmd → Prop
  | .scan m | .isKnown m _ => m = n
  | c => c.Ensures n true

/-- The commands of a turn of `_run_consumer`. -/
def Consumes : Cmd → Prop
  | .connect | .sleep => True
  | .refreshDue m | .known m | .xreadgroup m _ => m = n
  | c => c.Handles n ∨ c.Refreshes n

/-- The commands of a turn of `_run_sweeper`. -/
def Sweeps : Cmd → Prop
  | .connect | .sleep | .dlqCallback _ _ => True
  | .known m | .xpendingRange m _ | .xautoclaim m _ | .park m _ _ | .swept m _ => m = n
  | c => c.Handles n

/-- The commands of the discovery of a stream by a broadcast. -/
def Discovers : Cmd → Prop
  | .discover m _ | .setCursor m _ _ => m = n
  | .xrevrange _ => True
  | _ => False

/-- The commands of a turn of `_run_broadcast`. -/
def Broadcasts : Cmd → Prop
  | .connect | .sleep | .callback _ => True
  | .refreshDue m | .known m | .scan m | .cursors m | .beginXread m _ | .xread m _ | .advance m _ _ _ => m = n
  | c => c.Discovers n

/-- The commands of `start_consumer`. -/
def Starts (broadcast : Bool) : Cmd → Prop
  | .start m => m = n
  | .connect => True
  | c => if broadcast then c.Discovers n else c.Ensures n false

end Cmd

/-- The commands that a call may issue. -/
def Call.Issues (cfg : ℕ → RedisStreamsBackend) : Call → Cmd → Prop
  | start n, c => c.Starts n (cfg n).broadcast
  | close n, c => c = .stop n
  | publish n _, c => c.Publishes n
  | reader n, c =>
    c = .running n ∨ if (cfg n).broadcast then c.Broadcasts n else c = .readerFailed n ∨ c.Consumes n
  | sweeper n, c => (cfg n).broadcast = false ∧ (c = .running n ∨ c.Sweeps n)
  | foreign f, c => c = f.cmd

section Tasks

variable {D : Cmd → Prop} {n : ℕ} {stream : String} {reading : Bool} {α : Type}

theorem all_ask {c : Cmd} (h : D c) : Prog.All (S := commands) D (ask c).run := ⟨h, fun _ => trivial⟩

theorem all_orRaise {a : Option α} : Prog.All D (orRaise a).run := by
  cases a <;> trivial

theorem all_isolated {r : Outcome Unit} : Prog.All D (isolated r).run := by
  cases r with
  | ok => trivial
  | error exc =>
    show Prog.All (S := commands) D (ExceptT.run (if exc.isException then pure false else throw Raised.escaped))
    split_ifs <;> trivial

theorem all_ensureConnection (h : D .connect) : Prog.All D ensureConnection.run := by
  refine .seq (all_ask h) fun (ok : Bool) => ?_
  cases ok <;> trivial

theorem ensures_ensureGroup : Prog.All (Cmd.Ensures n reading) (ensureGroup n stream reading).run := by
  refine .seq (all_ask rfl) fun (ready : Bool) => ?_
  cases ready with
  | true => trivial
  | false => exact .seq (all_ask rfl) fun _ => .seq all_orRaise fun _ => all_ask ⟨rfl, rfl⟩

theorem all_ack (id : EntryId) (h : D (.xack n stream id)) : Prog.All D (ack n stream id).run :=
  .seq (all_ask h) fun _ => trivial

namespace RedisStreamsBackend

variable {backend : RedisStreamsBackend}

theorem publishes_publish (e : Envelope) : Prog.All (Cmd.Publishes n) (backend.publish n e).run := by
  have add : Prog.All (Cmd.Publishes n) (ExceptT.run do orRaise (← ask (.xadd n e))) :=
    .seq (all_ask rfl) fun _ => all_orRaise
  refine .seq (all_ensureConnection trivial) fun _ => ?_
  cases hb : backend.broadcast with
  | true => exact add
  | false =>
    refine .seq (ensures_ensureGroup.mono fun c hc => ?_) fun _ => add
    cases c with
    | isReady | xgroupCreate | ready => exact hc
    | _ => exact hc.elim

/-! ## A reader -/

theorem handles_handleMessage (id : EntryId) (fields : Fields) :
    Prog.All (Cmd.Handles n) (handleMessage n stream id fields).run := by
  have done : Prog.All (Cmd.Handles n) (ack n stream id).run := all_ack id rfl
  refine .seq (all_ask rfl) fun r => ?_
  cases r with
  | none => exact done
  | some e =>
    refine .seq (all_ask rfl) fun _ => .seq all_orRaise fun seen => ?_
    cases seen with
    | true => exact done
    | false =>
      refine .seq (all_ask rfl) fun _ => .seq (all_ask trivial) fun _ => .seq all_isolated fun ok => ?_
      cases ok with
      | true => exact .seq (all_ask rfl) fun _ => done
      | false => trivial

theorem handles_handleEach (messages : List (EntryId × Fields)) :
    Prog.All (Cmd.Handles n) (handleEach n stream messages).run := by
  induction messages with
  | nil => trivial
  | cons m messages ih => exact .seq (handles_handleMessage m.1 m.2) fun _ => ih

theorem handles_handleAll (results : List (String × List (EntryId × Fields))) :
    Prog.All (Cmd.Handles n) (handleAll n results).run := by
  induction results with
  | nil => trivial
  | cons r results ih => exact .seq (handles_handleEach r.2) fun _ => ih

theorem refreshes_joinEach (streams : List String) : Prog.All (Cmd.Refreshes n) (joinEach n streams).run := by
  induction streams with
  | nil => trivial
  | cons stream streams ih =>
    refine .seq (all_ask rfl) fun (known : Bool) => ?_
    cases known with
    | true => exact ih
    | false =>
      refine .seq (ensures_ensureGroup.mono fun c hc => ?_) fun _ => ih
      cases c with
      | isReady | xgroupCreate | ready => exact hc
      | _ => exact hc.elim

theorem refreshes_refreshStreams : Prog.All (Cmd.Refreshes n) (backend.refreshStreams n).run := by
  unfold refreshStreams
  split_ifs
  · trivial
  · refine .seq (all_ask rfl) fun r => .seq (refreshes_joinEach r.1) fun _ => ?_
    split_ifs <;> trivial

/-- Where the reader takes its messages from. -/
theorem consumes_consume : Prog.All (Cmd.Consumes n) (backend.consume n).run := by
  have handles : ∀ results, Prog.All (Cmd.Consumes n) (handleAll n results).run := fun results =>
    (handles_handleAll results).mono fun c hc => by
      cases c with
      | decode | seen | hand | mark | xack | callback => exact .inl hc
      | _ => exact hc.elim
  have read : Prog.All (Cmd.Consumes n) (ExceptT.run do
      let names ← ask (.known n)
      if names.isEmpty then ask .sleep
      else
        let results ← orRaise (← ask (.xreadgroup n names))
        handleAll n results) := by
    refine .seq (all_ask rfl) fun names => ?_
    split_ifs
    · exact all_ask trivial
    · exact .seq (all_ask rfl) fun _ => .seq all_orRaise handles
  refine .seq (all_ensureConnection trivial) fun _ => .seq (all_ask rfl) fun (due : Bool) => ?_
  cases due with
  | false => exact read
  | true =>
    refine .seq (refreshes_refreshStreams.mono fun c hc => ?_) fun _ => read
    cases c with
    | scan | isKnown | isReady | xgroupCreate | ready => exact .inr hc
    | _ => exact hc.elim

/-! ## A sweeper -/

theorem sweeps_parkToDlq (id : EntryId) (fields : Fields) (attempts : ℕ) :
    Prog.All (Cmd.Sweeps n) (backend.parkToDlq n stream id fields attempts).run := by
  have done : Prog.All (Cmd.Sweeps n) (ack n stream id).run := all_ack id rfl
  refine .seq (all_ask rfl) fun r => ?_
  cases r with
  | none => exact done
  | some e =>
    dsimp only
    split_ifs
    · exact .seq (all_ask rfl) fun _ => .seq (all_ask trivial) fun _ => .seq all_isolated fun _ => done
    · exact done

theorem sweeps_sweepEach (above : List (EntryId × ℕ)) (messages : List (EntryId × Fields)) :
    Prog.All (Cmd.Sweeps n) (backend.sweepEach n stream above messages).run := by
  induction messages with
  | nil => trivial
  | cons m messages ih =>
    obtain ⟨id, fields⟩ := m
    rw [sweepEach]
    cases above.lookup id with
    | some attempts => exact .seq (sweeps_parkToDlq id fields attempts) fun _ => ih
    | none =>
      refine .seq ((handles_handleMessage id fields).mono fun c hc => ?_) fun _ => ih
      cases c with
      | decode | seen | hand | mark | xack | callback => exact hc
      | _ => exact hc.elim

theorem sweeps_sweepStream : Prog.All (Cmd.Sweeps n) (backend.sweepStream n stream).run := by
  have listed : Prog.All (Cmd.Sweeps n) (backend.overThreshold n stream).run := by
    unfold overThreshold
    cases backend.maxDeliveries with
    | none => trivial
    | some bound => exact .seq (all_ask rfl) fun _ => .seq all_orRaise fun _ => trivial
  refine .seq listed fun above => .seq (all_ask rfl) fun _ => .seq all_orRaise fun messages => ?_
  exact .seq (sweeps_sweepEach above messages) fun _ => all_ask rfl

theorem sweeps_sweepAll (streams : List String) : Prog.All (Cmd.Sweeps n) (backend.sweepAll n streams).run := by
  induction streams with
  | nil => trivial
  | cons stream streams ih => exact .seq sweeps_sweepStream fun _ => ih

theorem sweeps_sweep : Prog.All (Cmd.Sweeps n) (backend.sweep n).run :=
  .seq (all_ask trivial) fun _ => .seq (all_ensureConnection trivial) fun _ =>
    .seq (all_ask rfl) sweeps_sweepAll

/-! ## A broadcast -/

theorem discovers_discoverEach (streams : List String) :
    Prog.All (Cmd.Discovers n) (discoverEach n streams).run := by
  induction streams with
  | nil => trivial
  | cons stream streams ih =>
    refine .seq (all_ask rfl) fun (new : Bool) => ?_
    cases new with
    | false => exact ih
    | true =>
      have tail : Prog.All (Cmd.Discovers n) (resolveTailId stream).run := by
        refine .seq (all_ask trivial) fun r => ?_
        rcases r with _ | _ | id <;> trivial
      exact .seq tail fun _ => .seq (all_ask rfl) fun _ => ih

theorem broadcasts_of_discovers {x : Task α} (hx : Prog.All (Cmd.Discovers n) x.run) :
    Prog.All (Cmd.Broadcasts n) x.run :=
  hx.mono fun c hc => by
    cases c with
    | discover | setCursor | xrevrange => exact hc
    | _ => exact hc.elim

theorem broadcasts_broadcastEach (messages : List (EntryId × Fields)) :
    Prog.All (Cmd.Broadcasts n) (broadcastEach n stream messages).run := by
  induction messages with
  | nil => trivial
  | cons m messages ih =>
    have entry : Prog.All (Cmd.Broadcasts n) (broadcastEntry n stream m.1 m.2).run := by
      refine .seq (all_ask rfl) fun r => ?_
      cases r with
      | none => trivial
      | some e => exact .seq (all_ask trivial) fun _ => .seq all_isolated fun _ => trivial
    exact .seq entry fun _ => ih

theorem broadcasts_broadcastAll (results : List (String × List (EntryId × Fields))) :
    Prog.All (Cmd.Broadcasts n) (broadcastAll n results).run := by
  induction results with
  | nil => trivial
  | cons r results ih => exact .seq (broadcasts_broadcastEach r.2) fun _ => ih

theorem broadcasts_broadcastOnce : Prog.All (Cmd.Broadcasts n) (backend.broadcastOnce n).run := by
  have read : Prog.All (Cmd.Broadcasts n) (ExceptT.run do
      let names ← ask (.known n)
      if names.isEmpty then ask .sleep
      else
        let cursors ← orRaise (← ask (.cursors n))
        let asked ← ask (.beginXread n cursors)
        let results ← orRaise (← ask (.xread n asked))
        broadcastAll n results) := by
    refine .seq (all_ask rfl) fun names => ?_
    split_ifs
    · exact all_ask trivial
    · exact .seq (all_ask rfl) fun _ => .seq all_orRaise fun _ => .seq (all_ask rfl) fun _ =>
        .seq (all_ask rfl) fun _ => .seq all_orRaise broadcasts_broadcastAll
  have refresh : Prog.All (Cmd.Broadcasts n) (backend.refreshStreamsBroadcast n).run := by
    unfold refreshStreamsBroadcast
    split_ifs
    · trivial
    · refine .seq (all_ask rfl) fun r =>
        .seq (broadcasts_of_discovers (discovers_discoverEach r.1)) fun _ => ?_
      split_ifs <;> trivial
  refine .seq (all_ensureConnection trivial) fun _ => .seq (all_ask rfl) fun (due : Bool) => ?_
  cases due with
  | false => exact read
  | true => exact .seq refresh fun _ => read

/-! ## Calls -/

theorem all_turn {body : Task Unit} {failed : Coro Bool} (running : D (.running n))
    (hb : Prog.All D body.run) (hf : Prog.All D failed) : Prog.All D (turn n body failed) := by
  refine .bind (.one running) fun (running : Bool) => ?_
  cases running with
  | false => trivial
  | true =>
    refine .bind hb fun r => ?_
    rcases r with (_ | _) | _
    · refine .bind hf fun goes => ?_
      cases goes <;> trivial
    · trivial
    · trivial

theorem ensures_ensureEach (streams : List String) :
    Prog.All (Cmd.Ensures n false) (ensureEach n streams).run := by
  induction streams with
  | nil => trivial
  | cons stream streams ih => exact .seq ensures_ensureGroup fun _ => ih

theorem starts_startConsumer : Prog.All (Cmd.Starts n backend.broadcast) (backend.startConsumer n).run := by
  refine .seq (all_ask rfl) fun _ => ?_
  split_ifs with _ hb
  · refine .seq (all_ensureConnection trivial) fun _ => ?_
    refine (discovers_discoverEach backend.seeds).mono fun c hc => ?_
    rw [hb]
    cases c with
    | discover | setCursor | xrevrange => exact hc
    | _ => exact hc.elim
  · refine .seq (all_ensureConnection trivial) fun _ => ?_
    refine (ensures_ensureEach backend.seeds).mono fun c hc => ?_
    rw [Bool.not_eq_true] at hb
    rw [hb]
    cases c with
    | isReady | xgroupCreate | ready => exact hc
    | _ => exact hc.elim
  · trivial

end RedisStreamsBackend

/-- What the calls issue. -/
theorem issues_code (cfg : ℕ → RedisStreamsBackend) (o : Call) : Prog.All (o.Issues cfg) (o.code cfg) := by
  cases o with
  | start n => exact .bind RedisStreamsBackend.starts_startConsumer fun _ => trivial
  | close n => exact .bind (all_ask rfl) fun _ => trivial
  | publish n e => exact .bind (RedisStreamsBackend.publishes_publish e) fun _ => trivial
  | reader n =>
    refine .bind ?_ fun _ => trivial
    unfold RedisStreamsBackend.readerTurn
    cases hb : (cfg n).broadcast with
    | true =>
      refine RedisStreamsBackend.all_turn (.inl rfl)
        (RedisStreamsBackend.broadcasts_broadcastOnce.mono fun c hc => .inr ?_) (.one (.inl rfl))
      simpa [hb] using hc
    | false =>
      refine RedisStreamsBackend.all_turn (.inl rfl)
        (RedisStreamsBackend.consumes_consume.mono fun c hc => .inr ?_) (.one (.inr ?_))
      · rw [if_neg (by simp [hb])]
        exact .inl rfl
      · rw [if_neg (by simp [hb])]
        exact .inr hc
  | sweeper n =>
    refine .bind ?_ fun _ => trivial
    unfold RedisStreamsBackend.sweeperTurn
    split_ifs with hb
    · trivial
    · rw [Bool.not_eq_true] at hb
      exact RedisStreamsBackend.all_turn ⟨hb, .inl rfl⟩
        (RedisStreamsBackend.sweeps_sweep.mono fun _ h => ⟨hb, .inr h⟩) (.one ⟨hb, .inl rfl⟩)
  | foreign f => exact .bind (.one rfl) fun _ => trivial

end Tasks

/-! ## Contracts -/

section Contracts

variable {cfg : ℕ → RedisStreamsBackend} {K : Contract (backends cfg)} {p n : ℕ} {o : Call} {σ : State}
  {A : State → Prop} {α β : Type}

/-- What a program does with its result does not matter to its safety. -/
theorem safe_map {x : Prog commands α} {f : α → β} (h : K.Safe p o x (fun _ _ => True) σ) :
    K.Safe p o (x >>= fun a => Prog.pure (f a)) (fun _ _ => True) σ :=
  .bind (h.mono fun _ _ _ _ _ _ _ => trivial)

theorem triple_orRaise {a : Option α} {B : α → State → Prop} (stable : ∀ b, K.Stable p (B b))
    (h : ∀ b, a = some b → ∀ σ, A σ → B b σ) : K.Triple p o A (orRaise a) B := by
  cases a with
  | none => exact .throw
  | some b => exact .pure (stable b) fun σ _ hA => h b rfl σ hA

theorem triple_isolated (stable : K.Stable p A) {r : Outcome Unit} :
    K.Triple p o A (isolated r) fun _ => A := by
  cases r with
  | ok => exact .pure stable fun _ _ h => h
  | error exc =>
    show K.Triple p o _ (if exc.isException then pure false else throw Raised.escaped) _
    split_ifs
    · exact .pure stable fun _ _ h => h
    · exact .throw

/-- A turn of a loop is safe when its body and its error path are. -/
theorem safe_turn {body : Task Unit} {failed : RedisStreamsBackend.Coro Bool} {B : Unit → State → Prop}
    (stable : K.Stable p A) (running : ∀ σ i, K.Inv σ → A σ → K.Guard p o (.running n) i σ)
    (hb : K.Triple p o A body B) (hf : ∀ σ, K.Inv σ → K.Safe p o failed (fun _ _ => True) σ) (hA : A σ) :
    K.Safe p o (RedisStreamsBackend.turn n body failed) (fun _ _ => True) σ := by
  have rest : ∀ r σ, K.Inv σ →
      K.Safe p o (RedisStreamsBackend.ended failed r) (fun _ _ => True) σ := by
    intro r σ inv
    rcases r with (_ | _) | _
    · refine .bind ((hf σ inv).mono fun goes _ _ _ => ?_)
      cases goes <;> exact fun _ _ _ => trivial
    · exact fun _ _ _ => trivial
    · exact fun _ _ _ => trivial
  intro σ' hR inv i ok
  have hA' := stable.rely hR hA
  refine ⟨running σ' i inv hA', ?_⟩
  have go : ∀ running : Bool, K.Safe p o
      (if running = true then body.run >>= RedisStreamsBackend.ended failed else pure .stopped)
        (fun _ _ => True) σ' := by
    intro running
    split_ifs
    · exact .bind ((hb σ' inv hA').mono fun r σ'' inv'' _ => rest r σ'' inv'')
    · exact fun _ _ _ => trivial
  exact go _

/-- A call is safe when everything that it may issue is guarded. -/
theorem safe_issues (guard : ∀ c i σ, o.Issues cfg c → K.Inv σ → K.Ok p o c i σ → K.Guard p o c i σ) :
    K.Safe p o (o.code cfg) (fun _ _ => True) σ :=
  .of_all (A := fun _ => True) (fun _ _ => trivial) (fun h inv ok _ => guard _ _ _ h inv ok)
    (fun _ _ _ _ => trivial) (issues_code cfg o) trivial

/-- When every call is safe, every pool reached from the start is within the contract. -/
theorem within_of_reach (inv : K.Inv (start cfg).shared)
    (safe : ∀ p o σ, K.Inv σ → K.Safe p o (Call.code cfg o) (K.Post p o) σ) {P : Pool (backends cfg)}
    (h : Pool.Reach (Pool.Meets K.Ok) (start cfg) P) : K.Within (fun _ _ _ => True) (fun _ => True) P := by
  have kept : K.Kept (fun _ _ _ => True) (fun _ => True) :=
    ⟨fun _ _ => trivial, fun _ _ inv _ => safe _ _ _ inv, fun _ _ => trivial, fun _ _ => trivial⟩
  refine Contract.sound kept ⟨inv, fun _ => trivial, fun _ => trivial, fun hp => by cases hp⟩ ?_
  refine h.mono fun Q a ha => ?_
  cases a with
  | exec p i => exact fun o c k hp _ => ha o c k hp
  | _ => trivial

end Contracts

end NavigatorEventbus.Bus.Streams
