import Mathlib.Tactic.SplitIfs
import NavigatorEventbus.Lib.Program

/-!
# Rely and guarantee

A `Contract` says what every actor owes the others when it issues a command (`Guard`) and when it
returns (`Post`), what may be assumed of the commands of the runs considered (`Ok`), and an invariant
of the machine that all of this keeps.  `Safe` is the proof obligation of one program: whatever the others do within the
contract, each of its commands is guarded and its result satisfies the postcondition.  When every
call is safe, every pool reached is within the contract (`Contract.sound`), and an invariant of the
guarded commands is an invariant of the pool (`Contract.invariant`).
-/

namespace Interleave

variable {S : Signature} {M : Machine S}

/-- The rules that the actors of a service keep towards each other. -/
structure Contract (V : Service M) where
  Inv : M.State → Prop
  Ok : ℕ → V.Call → (c : S.Cmd) → M.Input → M.State → Prop
  Guard : ℕ → V.Call → (c : S.Cmd) → M.Input → M.State → Prop
  Post : ℕ → V.Call → V.Result → M.State → Prop
  inv_exec : ∀ {p o c i σ}, Inv σ → Ok p o c i σ → Guard p o c i σ → Inv (M.exec p c i σ).2
  inv_note : ∀ {p o r σ}, Inv σ → Post p o r σ → Inv (V.note p o r σ)
  inv_disturb : ∀ {σ} (d : V.Disturbance), Inv σ → Inv (V.disturb d σ)

namespace Contract

variable {V : Service M} (K : Contract V)

/-- A move that actor `p` must expect: a guarded command or the return of another actor, or a
disturbance. -/
inductive Other (p : ℕ) (σ : M.State) : M.State → Prop where
  | exec {q : ℕ} {o : V.Call} {c : S.Cmd} {i : M.Input} (ne : q ≠ p) (inv : K.Inv σ)
      (ok : K.Ok q o c i σ) (guard : K.Guard q o c i σ) : Other p σ (M.exec q c i σ).2
  | note {q : ℕ} {o : V.Call} {r : V.Result} (ne : q ≠ p) (inv : K.Inv σ) (post : K.Post q o r σ) :
    Other p σ (V.note q o r σ)
  | disturb (d : V.Disturbance) (inv : K.Inv σ) : Other p σ (V.disturb d σ)

/-- Any number of moves of the others. -/
def Rely (p : ℕ) : M.State → M.State → Prop := Relation.ReflTransGen (K.Other p)

theorem Other.inv {p : ℕ} {σ σ' : M.State} (h : K.Other p σ σ') : K.Inv σ' := by
  cases h with
  | exec _ inv ok guard => exact K.inv_exec inv ok guard
  | note _ inv post => exact K.inv_note inv post
  | disturb d inv => exact K.inv_disturb d inv

theorem Rely.inv {p : ℕ} {σ σ' : M.State} (h : K.Rely p σ σ') (hσ : K.Inv σ) : K.Inv σ' := by
  induction h with
  | refl => exact hσ
  | tail _ h _ => exact h.inv

/-- A reflexive and transitive relation that covers each move of the others covers their moves. -/
theorem Rely.le {p : ℕ} {R : M.State → M.State → Prop} (refl : ∀ σ, R σ σ)
    (trans : ∀ {σ₁ σ₂ σ₃}, R σ₁ σ₂ → R σ₂ σ₃ → R σ₁ σ₃)
    (step : ∀ {σ σ'}, K.Other p σ σ' → R σ σ') {σ σ' : M.State} (h : K.Rely p σ σ') : R σ σ' := by
  induction h with
  | refl => exact refl σ
  | tail _ h ih => exact trans ih (step h)

variable {α β : Type}

/-- Executed by actor `p` in the call `o` from `σ`, with the others moving at any time, the program
issues guarded commands only, and its result satisfies `Q`. -/
def Safe (p : ℕ) (o : V.Call) : Prog S α → (α → M.State → Prop) → M.State → Prop
  | .pure a, Q, σ => ∀ σ', K.Rely p σ σ' → K.Inv σ' → Q a σ'
  | .op c k, Q, σ => ∀ σ', K.Rely p σ σ' → K.Inv σ' → ∀ i, K.Ok p o c i σ' →
      K.Guard p o c i σ' ∧ Safe p o (k (M.exec p c i σ').1) Q (M.exec p c i σ').2
  | .hang, _, _ => True

variable {K} {p : ℕ} {o : V.Call} {Q : α → M.State → Prop} {σ : M.State}

/-- Safety survives the moves of the others. -/
theorem Safe.later {x : Prog S α} (h : K.Safe p o x Q σ) {σ' : M.State} (hR : K.Rely p σ σ') :
    K.Safe p o x Q σ' := by
  cases x with
  | pure a => exact fun σ'' hR' => h σ'' (hR.trans hR')
  | op c k => exact fun σ'' hR' => h σ'' (hR.trans hR')
  | hang => trivial

theorem Safe.mono {Q' : α → M.State → Prop} {x : Prog S α} (h : K.Safe p o x Q σ)
    (hQ : ∀ a σ', K.Inv σ' → Q a σ' → Q' a σ') : K.Safe p o x Q' σ := by
  induction x generalizing σ with
  | pure a => exact fun σ' hR inv => hQ a σ' inv (h σ' hR inv)
  | op c k ih =>
    intro σ' hR inv i ok
    obtain ⟨guard, rest⟩ := h σ' hR inv i ok
    exact ⟨guard, ih _ rest⟩
  | hang => trivial

/-- A sequence is safe when its first part is and leaves the rest safe. -/
theorem Safe.bind {x : Prog S α} {f : α → Prog S β} {Q : β → M.State → Prop}
    (h : K.Safe p o x (fun a σ' => K.Safe p o (f a) Q σ') σ) : K.Safe p o (x >>= f) Q σ := by
  induction x generalizing σ with
  | pure a =>
    have h : ∀ σ', K.Rely p σ σ' → K.Inv σ' → K.Safe p o (f a) Q σ' := h
    change K.Safe p o (f a) Q σ
    cases hf : f a with
    | pure b =>
      intro σ' hR inv
      have := h σ' hR inv
      rw [hf] at this
      exact this σ' .refl inv
    | op c k =>
      intro σ' hR inv
      have := h σ' hR inv
      rw [hf] at this
      exact this σ' .refl inv
    | hang => trivial
  | op c k ih =>
    intro σ' hR inv i ok
    obtain ⟨guard, rest⟩ := h σ' hR inv i ok
    exact ⟨guard, ih _ rest⟩
  | hang => trivial

/-- A command is safe when it is guarded wherever the others may have led, and leaves the rest safe. -/
theorem Safe.step {A : M.State → Prop} {c : S.Cmd} {k : S.Reply c → Prog S α}
    (rely : ∀ {σ σ'}, K.Rely p σ σ' → A σ → A σ') (hA : A σ)
    (rest : ∀ σ' i, K.Inv σ' → K.Ok p o c i σ' → A σ' →
      K.Guard p o c i σ' ∧ K.Safe p o (k (M.exec p c i σ').1) Q (M.exec p c i σ').2) :
    K.Safe p o (Prog.op c k) Q σ :=
  fun σ' hR inv i ok => rest σ' i inv ok (rely hR hA)

theorem Safe.ret {A : M.State → Prop} {a : α} (rely : ∀ {σ σ'}, K.Rely p σ σ' → A σ → A σ')
    (hA : A σ) (post : ∀ σ', K.Inv σ' → A σ' → Q a σ') : K.Safe p o (Prog.pure a) Q σ :=
  fun σ' hR inv => post σ' inv (rely hR hA)

/-- A program whose commands all keep an assertion, and are guarded where it holds, is safe. -/
theorem Safe.of_all {C : S.Cmd → Prop} {A : M.State → Prop} (rely : ∀ {σ σ'}, K.Rely p σ σ' → A σ → A σ')
    (guard : ∀ {c i σ}, C c → K.Inv σ → K.Ok p o c i σ → A σ → K.Guard p o c i σ)
    (keep : ∀ {c i σ}, C c → K.Inv σ → K.Ok p o c i σ → A σ → A (M.exec p c i σ).2)
    {x : Prog S α} (hx : x.All C) (hA : A σ) : K.Safe p o x (fun _ => A) σ := by
  induction x generalizing σ with
  | pure a => exact fun σ' hR _ => rely hR hA
  | op c k ih =>
    intro σ' hR inv i ok
    have hA' := rely hR hA
    exact ⟨guard hx.1 inv ok hA', ih _ (hx.2 _) (keep hx.1 inv ok hA')⟩
  | hang => trivial

/-- The same for a program whose commands follow rules that its replies satisfy. -/
theorem Safe.of_follows {R : (c : S.Cmd) → S.Reply c → Prop} {C : Option S.Cmd → S.Cmd → Prop}
    {A : M.State → Prop} {Q : α → Prop} {last : Option S.Cmd}
    (rely : ∀ {σ σ'}, K.Rely p σ σ' → A σ → A σ')
    (keep : ∀ {last c i σ}, C last c → K.Inv σ → K.Ok p o c i σ → A σ →
      K.Guard p o c i σ ∧ R c (M.exec p c i σ).1 ∧ A (M.exec p c i σ).2)
    {x : Prog S α} (hx : x.Follows R C Q last) (hA : A σ) : K.Safe p o x (fun a σ' => Q a ∧ A σ') σ := by
  induction x generalizing σ last with
  | pure a => exact fun σ' hR _ => ⟨hx, rely hR hA⟩
  | op c k ih =>
    intro σ' hR inv i ok
    obtain ⟨guard, reply, hA'⟩ := keep hx.1 inv ok (rely hR hA)
    exact ⟨guard, ih _ (hx.2 _ reply) hA'⟩
  | hang => trivial

/-- A safe program stays safe along its traces, and issues guarded commands. -/
theorem Safe.trace {E : M.State → M.State → Prop} (hE : ∀ σ σ', E σ σ' → K.Rely p σ σ')
    {x y : Prog S α} {t : List (Issued M)} {σ' : M.State} (h : K.Safe p o x Q σ)
    (hσ : K.Inv σ) (ht : Trace M p E x σ t y σ')
    (hok : ∀ e ∈ t, K.Ok p o e.cmd e.input e.before) :
    K.Safe p o y Q σ' ∧ K.Inv σ' ∧ ∀ e ∈ t, K.Inv e.before ∧ K.Guard p o e.cmd e.input e.before := by
  induction ht with
  | refl => exact ⟨h, hσ, fun e he => absurd he List.not_mem_nil⟩
  | moved ht hE' ih =>
    obtain ⟨safe, inv, guards⟩ := ih hok
    exact ⟨safe.later (hE _ _ hE'), Rely.inv K (hE _ _ hE') inv, guards⟩
  | @op t c k σ₁ ht i ih =>
    obtain ⟨safe, inv, guards⟩ := ih fun e he => hok e (List.mem_append_left _ he)
    have ok : K.Ok p o c i σ₁ := hok ⟨c, i, σ₁⟩ (by simp)
    obtain ⟨guard, rest⟩ := safe σ₁ .refl inv i ok
    refine ⟨rest, K.inv_exec inv ok guard, fun e he => ?_⟩
    rcases List.mem_append.1 he with he | he
    · exact guards e he
    · rw [List.mem_singleton.1 he]
      exact ⟨inv, guard⟩

/-! ## Pools -/

/-- What holds of a pool within the contract: the invariant, and for each actor the safety of what it
has left to execute, or the assertion of the phase it rests in. -/
structure Within (K : Contract V) (Φ : ℕ → V.Phase → M.State → Prop) (Admits : V.Call → Prop)
    (P : Pool V) : Prop where
  inv : K.Inv P.shared
  resting : ∀ {p φ}, P.actors p = .resting φ → Φ p φ P.shared
  admits : ∀ {p o x}, P.actors p = .calling o x → Admits o
  calling : ∀ {p o x}, P.actors p = .calling o x → K.Safe p o x (K.Post p o) P.shared

/-- The obligations of a service: every call is safe in the phases that accept it, its result leaves
its actor in a phase whose assertion holds, and the others do not break that assertion. -/
structure Kept (K : Contract V) (Φ : ℕ → V.Phase → M.State → Prop) (Admits : V.Call → Prop) :
    Prop where
  idle : ∀ p σ, Φ p V.idle σ
  call : ∀ {p φ o σ}, Admits o → V.accepts φ o = true → K.Inv σ → Φ p φ σ →
    K.Safe p o (V.code o) (K.Post p o) σ
  phase : ∀ {p o r σ}, K.Inv σ → K.Post p o r σ → Φ p (V.phase o r) (V.note p o r σ)
  stable : ∀ {p φ σ σ'}, K.Other p σ σ' → Φ p φ σ → Φ p φ σ'

/-- The decisions considered: admitted calls, and commands that are `Ok`. -/
def Admitted (K : Contract V) (Admits : V.Call → Prop) (P : Pool V) : Act V → Prop
  | .call _ o => Admits o
  | .exec p i => ∀ o c k, P.actors p = .calling o (.op c k) → Admits o → K.Ok p o c i P.shared
  | _ => True

variable {Φ : ℕ → V.Phase → M.State → Prop} {Admits : V.Call → Prop}

theorem Kept.rely (kept : K.Kept Φ Admits) {φ : V.Phase} {σ' : M.State} (hR : K.Rely p σ σ')
    (h : Φ p φ σ) : Φ p φ σ' := by
  induction hR with
  | refl => exact h
  | tail _ hO ih => exact kept.stable hO ih

theorem Within.of_moved (kept : K.Kept Φ Admits) {P : Pool V} (h : K.Within Φ Admits P) (σ' : M.State)
    {p : ℕ} {a : Actor S V.Call V.Result V.Phase} (inv : K.Inv σ')
    (others : ∀ q, q ≠ p → K.Rely q P.shared σ') (resting : ∀ φ, a = .resting φ → Φ p φ σ')
    (admits : ∀ o x, a = .calling o x → Admits o)
    (calling : ∀ o x, a = .calling o x → K.Safe p o x (K.Post p o) σ') :
    K.Within Φ Admits ({ P with shared := σ' }.set p a) := by
  refine ⟨inv, fun {q φ} hq => ?_, fun {q o x} hq => ?_, fun {q o x} hq => ?_⟩
  · by_cases hqp : q = p
    · subst hqp
      exact resting φ (by simpa using hq)
    · rw [Pool.set_actors_of_ne _ hqp] at hq
      exact kept.rely (others q hqp) (h.resting hq)
  · by_cases hqp : q = p
    · subst hqp
      exact admits o x (by simpa using hq)
    · rw [Pool.set_actors_of_ne _ hqp] at hq
      exact h.admits hq
  · by_cases hqp : q = p
    · subst hqp
      exact calling o x (by simpa using hq)
    · rw [Pool.set_actors_of_ne _ hqp] at hq
      exact (h.calling hq).later (others q hqp)

/-- In a pool within the contract, every command about to be issued is guarded. -/
theorem Within.guard {P : Pool V} (h : K.Within Φ Admits P) {p : ℕ} {o : V.Call} {c : S.Cmd}
    {k : S.Reply c → Prog S V.Result} (hp : P.actors p = .calling o (.op c k)) {i : M.Input}
    (ok : K.Ok p o c i P.shared) : K.Guard p o c i P.shared :=
  (h.calling hp _ .refl h.inv i ok).1

/-- A call that has its result satisfies its postcondition. -/
theorem Within.post {P : Pool V} (h : K.Within Φ Admits P) {p : ℕ} {o : V.Call} {r : V.Result}
    (hp : P.actors p = .calling o (.pure r)) : K.Post p o r P.shared :=
  h.calling hp _ .refl h.inv

/-- One admitted decision keeps the pool within the contract. -/
theorem Within.act (kept : K.Kept Φ Admits) {P P' : Pool V} (h : K.Within Φ Admits P)
    {a : Act V} (ha : K.Admitted Admits P a) (hs : P.act a = some P') : K.Within Φ Admits P' := by
  cases Pool.acted hs with
  | call hφ hacc =>
    refine h.of_moved kept P.shared h.inv (fun _ _ => .refl) (fun φ' e => by cases e) ?_ ?_
    · rintro o' x ⟨rfl, rfl⟩
      exact ha
    · rintro o' x ⟨rfl, rfl⟩
      exact kept.call ha hacc h.inv (h.resting hφ)
  | @exec p i o c k hp =>
    have ok := ha o c k hp (h.admits hp)
    obtain ⟨guard, rest⟩ := h.calling hp _ .refl h.inv i ok
    refine h.of_moved kept _ (K.inv_exec h.inv ok guard)
      (fun q hq => .single (.exec hq.symm h.inv ok guard)) (fun φ' e => by cases e) ?_ ?_
    · rintro o' x ⟨rfl, rfl⟩
      exact h.admits hp
    · rintro o' x ⟨rfl, rfl⟩
      exact rest
  | ret hp =>
    have post := h.post hp
    refine h.of_moved kept _ (K.inv_note h.inv post)
      (fun q hq => .single (.note hq.symm h.inv post)) ?_ (fun o' x e => by cases e)
      (fun o' x e => by cases e)
    rintro φ ⟨rfl⟩
    exact kept.phase h.inv post
  | @crash p =>
    refine h.of_moved kept P.shared h.inv (fun _ _ => .refl) ?_ (fun o' x e => by cases e)
      (fun o' x e => by cases e)
    rintro φ ⟨rfl⟩
    exact kept.idle p _
  | @disturb d =>
    have moved : ∀ q, K.Other q P.shared (V.disturb d P.shared) := fun q => .disturb d h.inv
    exact ⟨K.inv_disturb d h.inv, fun hq => kept.stable (moved _) (h.resting hq),
      fun hq => h.admits hq, fun hq => (h.calling hq).later (.single (moved _))⟩

/-- Every pool reached by admitted decisions is within the contract. -/
theorem sound (kept : K.Kept Φ Admits) {P P' : Pool V} (h : K.Within Φ Admits P)
    (hr : Pool.Reach (K.Admitted Admits) P P') : K.Within Φ Admits P' := by
  induction hr with
  | refl => exact h
  | step a _ ha hs ih => exact ih.act kept ha hs

/-- A property of the shared state that the guarded commands meeting a condition, the returns and the
disturbances keep holds in every pool reached by them. -/
theorem invariant (kept : K.Kept Φ Admits) {J : M.State → Prop}
    {C : ℕ → V.Call → (c : S.Cmd) → M.Input → M.State → Prop}
    (exec : ∀ {p o c i σ}, Admits o → K.Inv σ → K.Ok p o c i σ → C p o c i σ → K.Guard p o c i σ →
      J σ → J (M.exec p c i σ).2)
    (note : ∀ {p o r σ}, K.Inv σ → K.Post p o r σ → J σ → J (V.note p o r σ))
    (disturb : ∀ {σ} (d : V.Disturbance), K.Inv σ → J σ → J (V.disturb d σ))
    {P P' : Pool V} (h : K.Within Φ Admits P) (hJ : J P.shared)
    (hr : Pool.Reach (fun Q a => K.Admitted Admits Q a ∧ Pool.Meets C Q a) P P') : J P'.shared := by
  induction hr with
  | refl => exact hJ
  | @step Q Q' a hr ha hs ih =>
    have hQ := sound kept h (hr.mono fun _ _ h => h.1)
    cases Pool.acted hs with
    | call => exact ih
    | exec hp =>
      have ok := ha.1 _ _ _ hp (hQ.admits hp)
      exact exec (hQ.admits hp) hQ.inv ok (ha.2 _ _ _ hp) (hQ.guard hp ok) ih
    | ret hp => exact note hQ.inv (hQ.post hp) ih
    | crash => exact ih
    | disturb => exact disturb _ hQ.inv ih

end Contract

end Interleave
