import NavigatorEventbus.Lib.RelyGuarantee

/-!
# Triples for programs that raise

A program that may raise is a program whose result is an exception or a value.  A `Triple` of such a program
says that its commands are guarded when it begins where an assertion holds, and that a second assertion holds
of the value when it has one.  Between its commands the others move within the contract, so an assertion must
be one that they do not break (`Stable`).
-/

namespace Interleave

/-- The commands of a sequence are those of its parts. -/
theorem Prog.All.seq {S : Signature} {D : S.Cmd → Prop} {α β ε : Type} {x : ExceptT ε (Prog S) α}
    {f : α → ExceptT ε (Prog S) β} (hx : Prog.All D x.run) (hf : ∀ a, Prog.All D (f a).run) :
    Prog.All D (x >>= f).run := by
  rw [ExceptT.run_bind]
  refine Prog.All.bind hx fun r => ?_
  cases r with
  | ok a => exact hf a
  | error e => trivial

namespace Contract

variable {S : Signature} {M : Machine S} {V : Service M} (K : Contract V) {α β ε : Type}

/-- The others do not break an assertion of actor `p`. -/
def Stable (p : ℕ) (A : M.State → Prop) : Prop := ∀ {σ σ'}, K.Other p σ σ' → A σ → A σ'

/-- From a state with `A` the program issues guarded commands only, and its value satisfies `B`. -/
def Triple (p : ℕ) (o : V.Call) (A : M.State → Prop) (x : ExceptT ε (Prog S) α)
    (B : α → M.State → Prop) : Prop :=
  ∀ σ, K.Inv σ → A σ → K.Safe p o x.run (fun r σ' => ∀ a, r = .ok a → B a σ') σ

variable {K} {p : ℕ} {o : V.Call} {A A' : M.State → Prop} {B B' : α → M.State → Prop}
  {C : β → M.State → Prop}

theorem Stable.rely (h : K.Stable p A) {σ σ' : M.State} (hR : K.Rely p σ σ') (hA : A σ) : A σ' := by
  induction hR with
  | refl => exact hA
  | tail _ hO ih => exact h hO ih

theorem Stable.and (h : K.Stable p A) (h' : K.Stable p A') : K.Stable p fun σ => A σ ∧ A' σ :=
  fun hO hA => ⟨h hO hA.1, h' hO hA.2⟩

theorem Stable.const (φ : Prop) : K.Stable p fun _ => φ := fun _ hφ => hφ

namespace Triple

theorem pure {a : α} (stable : K.Stable p (B a)) (h : ∀ σ, K.Inv σ → A σ → B a σ) :
    K.Triple p o A (Pure.pure a : ExceptT ε (Prog S) α) B := by
  rintro σ inv hA σ' hR - _ ⟨rfl⟩
  exact stable.rely hR (h σ inv hA)

theorem throw {e : ε} : K.Triple p o A (MonadExcept.throw e : ExceptT ε (Prog S) α) B :=
  fun _ _ _ _ _ _ _ h => by cases h

theorem bind {x : ExceptT ε (Prog S) α} {f : α → ExceptT ε (Prog S) β} (hx : K.Triple p o A x B)
    (hf : ∀ a, K.Triple p o (B a) (f a) C) : K.Triple p o A (x >>= f) C := by
  intro σ inv hA
  rw [ExceptT.run_bind]
  refine Safe.bind ((hx σ inv hA).mono fun r σ' inv' hB => ?_)
  cases r with
  | ok a => exact hf a σ' inv' (hB a rfl)
  | error e => exact fun _ _ _ _ h => by cases h

/-- A single command. -/
theorem ask {c : S.Cmd} {B : S.Reply c → M.State → Prop} (stable : K.Stable p A)
    (after : ∀ r, K.Stable p (B r))
    (step : ∀ σ i, K.Inv σ → K.Ok p o c i σ → A σ → K.Guard p o c i σ ∧
      B (M.exec p c i σ).1 (M.exec p c i σ).2) :
    K.Triple p o A (ExceptT.lift (Prog.cmd c) : ExceptT ε (Prog S) (S.Reply c)) B := by
  intro σ _ hA σ' hR inv i ok
  obtain ⟨guard, hB⟩ := step σ' i inv ok (stable.rely hR hA)
  refine ⟨guard, ?_⟩
  rintro σ'' hR' - _ ⟨rfl⟩
  exact Stable.rely (after _) hR' hB

theorem mono {x : ExceptT ε (Prog S) α} (h : K.Triple p o A x B) (pre : ∀ σ, K.Inv σ → A' σ → A σ)
    (post : ∀ a σ, K.Inv σ → B a σ → B' a σ) : K.Triple p o A' x B' :=
  fun σ inv hA => (h σ inv (pre σ inv hA)).mono fun _ σ' inv' hB a ha => post a σ' inv' (hB a ha)

theorem pre {x : ExceptT ε (Prog S) α} (h : K.Triple p o A x B) (pre : ∀ σ, K.Inv σ → A' σ → A σ) :
    K.Triple p o A' x B :=
  h.mono pre fun _ _ _ hB => hB

/-- What does not depend on the state may be assumed. -/
theorem fact {φ : Prop} {x : ExceptT ε (Prog S) α} (h : φ → K.Triple p o A x B) :
    K.Triple p o (fun σ => φ ∧ A σ) x B :=
  fun _ inv hA => h hA.1 _ inv hA.2

/-- A program whose commands keep an assertion, and are guarded where it holds. -/
theorem of_all {D : S.Cmd → Prop} (stable : K.Stable p A)
    (step : ∀ {c i σ}, D c → K.Inv σ → K.Ok p o c i σ → A σ → K.Guard p o c i σ ∧ A (M.exec p c i σ).2)
    {x : ExceptT ε (Prog S) α} (hx : Prog.All D x.run) : K.Triple p o A x fun _ => A :=
  fun _ _ hA => (Safe.of_all (fun hR => stable.rely hR) (fun hD inv ok h => (step hD inv ok h).1)
    (fun hD inv ok h => (step hD inv ok h).2) hx hA).mono fun _ _ _ hA' _ _ => hA'

/-- The program is safe as a whole, whatever it ends with. -/
theorem safe {x : ExceptT ε (Prog S) α} (h : K.Triple p o A x B) {σ : M.State} (inv : K.Inv σ) (hA : A σ) :
    K.Safe p o x.run (fun _ _ => True) σ :=
  (h σ inv hA).mono fun _ _ _ _ => trivial

end Triple

end Contract

end Interleave
