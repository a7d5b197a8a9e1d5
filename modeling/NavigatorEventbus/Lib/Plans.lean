import NavigatorEventbus.Lib.Endings

/-!
# Plans

A plan is a program over the calls of a service, with single commands that change nothing in between.  A service whose
calls carry out plans (`Carrier`) refines the service that it calls: interleaved command by command, its actors do
nothing that actors making the calls of their plans could not have done (`Simulates.reach`).
-/

namespace Interleave

variable {S : Signature} {M : Machine S} {V W : Service M}

/-- A step of a plan: a call of the service, or a look at the machine. -/
inductive Order (V : Service M) : Type where
  | call (o : V.Call)
  | look (c : S.Cmd)

/-- What a step of a plan learns. -/
@[reducible] def Order.Reply : Order V → Type
  | call _ => V.Result
  | look c => S.Reply c

/-- The steps of the plans over a service. -/
abbrev planSteps (V : Service M) : Signature := ⟨Order V, Order.Reply⟩

/-- A plan over a service. -/
abbrev Plan (V : Service M) (α : Type) : Type := Prog (planSteps V) α

namespace Plan

variable {α β : Type}

/-- A call as a plan. -/
def call (o : V.Call) : Plan V V.Result := Prog.cmd (S := planSteps V) (.call o)

/-- A look as a plan. -/
def look (c : S.Cmd) : Plan V (S.Reply c) := Prog.cmd (S := planSteps V) (.look c)

/-- The program that carries out a plan. -/
def code : Plan V α → Prog S α
  | .pure a => .pure a
  | .op (.call o) k => V.code o >>= fun r => code (k r)
  | .op (.look c) k => .op c fun r => code (k r)
  | .hang => .hang

theorem code_bind (x : Plan V α) (f : α → Plan V β) : code (x >>= f) = code x >>= fun a => code (f a) := by
  induction x with
  | pure a => rfl
  | op c k ih =>
    cases c with
    | call o =>
      change (V.code o >>= fun r => code (k r >>= f)) = (V.code o >>= fun r => code (k r)) >>= fun a => code (f a)
      simp only [ih, Prog.bind_assoc']
    | look c => exact congrArg (Prog.op c) (funext ih)
  | hang => rfl

/-- A call with what follows it: what holds of the commands of both holds of the plan's. -/
theorem all_call_bind {C : S.Cmd → Prop} {o : V.Call} {f : V.Result → Plan V α} (ho : (V.code o).All C)
    (hf : ∀ r, (code (f r)).All C) : (code (call o >>= f)).All C :=
  ho.bind hf

theorem ends_call_bind {p : ℕ} {o : V.Call} {f : V.Result → Plan V α} {R : V.Result → List (Issued M) → Prop}
    {Q : α → List (Issued M) → Prop} (ho : (V.code o).Ends M p R)
    (hf : ∀ r t, R r t → (code (f r)).Ends M p fun a t' => Q a (t ++ t')) : (code (call o >>= f)).Ends M p Q :=
  ho.bind hf

theorem ends_look_bind {p : ℕ} {c : S.Cmd} {f : S.Reply c → Plan V α} {Q : α → List (Issued M) → Prop}
    (hf : ∀ i σ, (code (f (M.exec p c i σ).1)).Ends M p fun a t => Q a (⟨c, i, σ⟩ :: t)) :
    (code (look c >>= f)).Ends M p Q :=
  hf

/-- A command that leaves the machine as it is. -/
def Idle (M : Machine S) (c : S.Cmd) : Prop := ∀ p i σ, (M.exec p c i σ).2 = σ

/-- From phase `φ` on, the calls of the plan meet `C` and are accepted, its looks change nothing, and it ends with a
phase and a result that satisfy `Q`. -/
def Obeys (C : V.Call → Prop) (Q : V.Phase → α → Prop) : V.Phase → Plan V α → Prop
  | φ, .pure a => Q φ a
  | φ, .op (.call o) k => C o ∧ V.accepts φ o = true ∧ ∀ r, Obeys C Q (V.phase o r) (k r)
  | φ, .op (.look c) k => Idle M c ∧ ∀ r, Obeys C Q φ (k r)
  | _, .hang => True

variable {C : V.Call → Prop} {Q : V.Phase → α → Prop} {Q' : V.Phase → β → Prop} {φ : V.Phase} {x : Plan V α}

theorem Obeys.bind {f : α → Plan V β} (hx : Obeys C Q φ x) (hf : ∀ φ a, Q φ a → Obeys C Q' φ (f a)) :
    Obeys C Q' φ (x >>= f) := by
  induction x generalizing φ with
  | pure a => exact hf φ a hx
  | op c k ih =>
    cases c with
    | call o => exact ⟨hx.1, hx.2.1, fun r => ih r (hx.2.2 r)⟩
    | look c => exact ⟨hx.1, fun r => ih r (hx.2 r)⟩
  | hang => trivial

/-- A call with what follows it. -/
theorem Obeys.call_bind {o : V.Call} {f : V.Result → Plan V α} (ho : C o) (accepts : V.accepts φ o = true)
    (hf : ∀ r, Obeys C Q (V.phase o r) (f r)) : Obeys C Q φ (call o >>= f) :=
  ⟨ho, accepts, hf⟩

/-- A look with what follows it. -/
theorem Obeys.look_bind {c : S.Cmd} {f : S.Reply c → Plan V α} (idle : Idle M c) (hf : ∀ r, Obeys C Q φ (f r)) :
    Obeys C Q φ (look c >>= f) :=
  ⟨idle, hf⟩

end Plan

/-- How the calls of `W` are carried out by plans over `V`, with the phases of `V` that a phase of `W` may stand for. -/
structure Carrier (W V : Service M) (C : V.Call → Prop) where
  plan : W.Call → Plan V W.Result
  Stands : W.Phase → V.Phase → Prop
  disturb : W.Disturbance → V.Disturbance
  code_plan : ∀ w, W.code w = (plan w).code
  disturb_eq : ∀ d σ, W.disturb d σ = V.disturb (disturb d) σ
  note_eq : ∀ p w r σ, W.note p w r σ = σ
  note_eq' : ∀ p o r σ, V.note p o r σ = σ
  stands_idle : Stands W.idle V.idle
  obeys : ∀ w ψ φ, W.accepts ψ w = true → Stands ψ φ → (plan w).Obeys C (fun φ r => Stands (W.phase w r) φ) φ

namespace Carrier

variable {C : V.Call → Prop} (K : Carrier W V C)

/-- What is left of the plan of `w`. -/
abbrev Left (w : W.Call) (φ : V.Phase) (k : Plan V W.Result) : Prop :=
  k.Obeys C (fun φ r => K.Stands (W.phase w r) φ) φ

/-- An actor of `W` with the actor of `V` that makes the calls of its plan. -/
inductive Follows : Actor S W.Call W.Result W.Phase → Actor S V.Call V.Result V.Phase → Prop where
  | resting {ψ : W.Phase} {φ : V.Phase} (stands : K.Stands ψ φ) : Follows (.resting ψ) (.resting φ)
  | between {w : W.Call} {φ : V.Phase} {k : Plan V W.Result} (left : K.Left w φ k) :
      Follows (.calling w k.code) (.resting φ)
  | within {w : W.Call} {o : V.Call} {y : Prog S V.Result} {k : V.Result → Plan V W.Result} (ho : C o)
      (left : ∀ r, K.Left w (V.phase o r) (k r)) : Follows (.calling w (y >>= fun r => (k r).code)) (.calling o y)

/-- The two pools are in the same state, actor by actor. -/
def Simulates (P : Pool W) (Q : Pool V) : Prop :=
  P.shared = Q.shared ∧ ∀ p, K.Follows (P.actors p) (Q.actors p)

/-- The decisions of actors that make calls that meet `C`. -/
abbrev Allowed (C : V.Call → Prop) : Pool V → Act V → Prop := Pool.Meets fun _ o _ _ _ => C o

/-- An actor of `V` that has come as far as its plan, up to the next command. -/
inductive Ready (w : W.Call) : Prog S W.Result → Actor S V.Call V.Result V.Phase → Prop where
  | done {r : W.Result} {φ : V.Phase} (stands : K.Stands (W.phase w r) φ) : Ready w (.pure r) (.resting φ)
  | look {c : S.Cmd} {φ : V.Phase} {k : S.Reply c → Plan V W.Result} (idle : Plan.Idle M c)
      (left : ∀ r, K.Left w φ (k r)) : Ready w (.op c fun r => (k r).code) (.resting φ)
  | inside {o : V.Call} {c : S.Cmd} {y : S.Reply c → Prog S V.Result} {k : V.Result → Plan V W.Result} (ho : C o)
      (left : ∀ r, K.Left w (V.phase o r) (k r)) :
      Ready w (.op c fun s => y s >>= fun r => (k r).code) (.calling o (.op c y))
  | stuck {a : Actor S V.Call V.Result V.Phase} : Ready w .hang a

/-- Without a command, the actor `p` of `V` can come as far as its plan. -/
def Advances (Q : Pool V) (p : ℕ) (w : W.Call) (x : Prog S W.Result) : Prop :=
  ∃ Q', Pool.Reach (Allowed C) Q Q' ∧ Q'.shared = Q.shared ∧ (∀ q, q ≠ p → Q'.actors q = Q.actors q) ∧
    K.Ready w x (Q'.actors p)

variable {K} {w : W.Call} {p : ℕ} {P P' : Pool W} {Q Q' : Pool V}

theorem Advances.behind {x : Prog S W.Result} (h : K.Advances Q' p w x) (reach : Pool.Reach (Allowed C) Q Q')
    (shared : Q'.shared = Q.shared) (others : ∀ q, q ≠ p → Q'.actors q = Q.actors q) : K.Advances Q p w x := by
  obtain ⟨R, reach', shared', others', ready⟩ := h
  exact ⟨R, reach.trans reach', shared'.trans shared, fun q hq => (others' q hq).trans (others q hq), ready⟩

/-- A returned call of `V` is left. -/
theorem advances_ret {o : V.Call} {r : V.Result} {x : Prog S W.Result} (hp : Q.actors p = .calling o (.pure r))
    (next : ∀ Q' : Pool V, Q'.actors p = .resting (V.phase o r) → K.Advances Q' p w x) : K.Advances Q p w x := by
  have step : Q.act (.ret p) = some ({ Q with shared := V.note p o r Q.shared }.set p (.resting (V.phase o r))) := by
    simp only [Pool.act, hp]
  refine (next _ (Pool.set_actors_self ..)).behind (.step (.ret p) .refl trivial step) (K.note_eq' ..) fun q hq => ?_
  rw [Pool.set_actors_of_ne _ hq]

theorem advances_between {φ : V.Phase} {k : Plan V W.Result} (left : K.Left w φ k) (hp : Q.actors p = .resting φ) :
    K.Advances Q p w k.code := by
  induction k generalizing φ Q with
  | pure r => exact ⟨Q, .refl, rfl, fun _ _ => rfl, by rw [hp]; exact .done left⟩
  | op c k ih =>
    cases c with
    | look c => exact ⟨Q, .refl, rfl, fun _ _ => rfl, by rw [hp]; exact .look left.1 left.2⟩
    | call o =>
      obtain ⟨ho, accepts, left⟩ := left
      have step : Q.act (.call p o) = some (Q.set p (.calling o (V.code o))) := by
        simp only [Pool.act, hp, accepts, if_true]
      have begun : (Q.set p (.calling o (V.code o))).actors p = .calling o (V.code o) := Pool.set_actors_self ..
      refine Advances.behind ?_ (.step (.call p o) .refl trivial step) (Pool.set_shared ..)
        fun q hq => Pool.set_actors_of_ne _ hq _
      change K.Advances _ p w (V.code o >>= fun r => Plan.code (k r))
      cases hc : V.code o with
      | pure r =>
        rw [hc] at begun
        exact advances_ret begun fun Q' hp => ih r (left r) hp
      | op c y =>
        rw [hc] at begun
        exact ⟨_, .refl, rfl, fun _ _ => rfl, by rw [begun]; exact .inside ho left⟩
      | hang => exact ⟨_, .refl, rfl, fun _ _ => rfl, .stuck⟩
  | hang => exact ⟨Q, .refl, rfl, fun _ _ => rfl, .stuck⟩

theorem Follows.advances {x : Prog S W.Result} (h : K.Follows (.calling w x) (Q.actors p)) : K.Advances Q p w x := by
  generalize hp : Q.actors p = a at h
  cases h with
  | between left => exact advances_between left hp
  | @within _ o y k ho left =>
    cases y with
    | pure r => exact advances_ret hp fun Q' hp' => advances_between (left r) hp'
    | op c y => exact ⟨Q, .refl, rfl, fun _ _ => rfl, by rw [hp]; exact .inside ho left⟩
    | hang => exact ⟨Q, .refl, rfl, fun _ _ => rfl, .stuck⟩

/-- One actor moves, and the others follow as before. -/
theorem Simulates.set (h : K.Simulates P Q) {σ : M.State} {a : Actor S W.Call W.Result W.Phase}
    (shared : σ = Q'.shared) (others : ∀ q, q ≠ p → Q'.actors q = Q.actors q) (follows : K.Follows a (Q'.actors p)) :
    K.Simulates ({ P with shared := σ }.set p a) Q' := by
  refine ⟨shared, Pool.forall_set (P := { P with shared := σ }) (J := fun q a => K.Follows a (Q'.actors q)) follows ?_⟩
  intro q hq
  rw [others q hq]
  exact h.2 q

theorem Simulates.step {a : Act W} (h : K.Simulates P Q) (hs : P.act a = some P') :
    ∃ Q', Pool.Reach (Allowed C) Q Q' ∧ K.Simulates P' Q' := by
  obtain ⟨shared, follows⟩ := h
  cases Pool.acted hs with
  | @call p w ψ hp accepts =>
    have before := follows p
    rw [hp] at before
    generalize hq : Q.actors p = b at before
    cases before with
    | resting stands =>
      refine ⟨Q, .refl, Simulates.set ⟨shared, follows⟩ shared (fun _ _ => rfl) ?_⟩
      rw [K.code_plan, hq]
      exact .between (K.obeys w ψ _ accepts stands)
  | @exec p i w c k hp =>
    have before := follows p
    rw [hp] at before
    obtain ⟨Q₁, reach, shared₁, others, ready⟩ := before.advances
    generalize hq : Q₁.actors p = b at ready
    cases ready with
    | @look _ φ k idle left =>
      refine ⟨Q₁, reach, Simulates.set ⟨shared, follows⟩ ?_ others ?_⟩
      · rw [idle, shared, shared₁]
      · rw [hq]
        exact .between (left _)
    | @inside o _ y k ho left =>
      have step : Q₁.act (.exec p i) = some ({ Q₁ with shared := (M.exec p c i Q₁.shared).2 }.set p
          (.calling o (y (M.exec p c i Q₁.shared).1))) := by
        simp only [Pool.act, hq]
      refine ⟨_, .step (.exec p i) reach (fun o' c' k' hp' => ?_) step,
        Simulates.set ⟨shared, follows⟩ ?_ (fun q hqp => ?_) ?_⟩
      · rw [hq] at hp'
        cases hp'
        exact ho
      · rw [Pool.set_shared, shared₁, shared]
      · rw [Pool.set_actors_of_ne _ hqp]
        exact others q hqp
      · rw [Pool.set_actors_self, shared₁, ← shared]
        exact .within ho left
  | @ret p w r hp =>
    have before := follows p
    rw [hp] at before
    obtain ⟨Q₁, reach, shared₁, others, ready⟩ := before.advances
    generalize hq : Q₁.actors p = b at ready
    cases ready with
    | done stands =>
      refine ⟨Q₁, reach, Simulates.set ⟨shared, follows⟩ ?_ others ?_⟩
      · rw [K.note_eq, shared, shared₁]
      · rw [hq]
        exact .resting stands
  | @crash p =>
    have step : Q.act (.crash p) = some (Q.set p (.resting V.idle)) := rfl
    refine ⟨_, .step (.crash p) .refl trivial step, Simulates.set ⟨shared, follows⟩ shared (fun q hqp => ?_) ?_⟩
    · exact Pool.set_actors_of_ne _ hqp _
    · rw [Pool.set_actors_self]
      exact .resting K.stands_idle
  | @disturb d =>
    have step : Q.act (.disturb (K.disturb d)) = some { Q with shared := V.disturb (K.disturb d) Q.shared } := rfl
    refine ⟨_, .step (.disturb (K.disturb d)) .refl trivial step, ?_, follows⟩
    change W.disturb d P.shared = V.disturb (K.disturb d) Q.shared
    rw [K.disturb_eq, shared]

/-- Whatever actors that carry out plans can do, actors that make the calls of the plans can do. -/
theorem Simulates.reach {A : Pool W → Act W → Prop} (h : K.Simulates P Q) (hr : Pool.Reach A P P') :
    ∃ Q', Pool.Reach (Allowed C) Q Q' ∧ K.Simulates P' Q' := by
  induction hr with
  | refl => exact ⟨Q, .refl, h⟩
  | step a _ _ hs ih =>
    obtain ⟨Q₁, reach, sim⟩ := ih
    obtain ⟨Q₂, reach', sim'⟩ := sim.step hs
    exact ⟨Q₂, reach.trans reach', sim'⟩

end Carrier

end Interleave
