import NavigatorEventbus.Lib.Program

/-!
# What a program has issued when it returns

`Ends` is a judgement on a program: whatever the others do between its commands, its result and the commands that it
has issued by then satisfy an assertion.  The judgement follows the program, and holds of every trace (`Ends.trace`).
-/

namespace Interleave

namespace Prog

variable {S : Signature} {M : Machine S} {p : ℕ} {α β : Type}

/-- When the program returns, its result and what it has issued satisfy `R`. -/
def Ends (M : Machine S) (p : ℕ) : Prog S α → (α → List (Issued M) → Prop) → Prop
  | pure a, R => R a []
  | op c k, R => ∀ i σ, Ends M p (k (M.exec p c i σ).1) fun a t => R a (⟨c, i, σ⟩ :: t)
  | hang, _ => True

variable {R R' : α → List (Issued M) → Prop} {x : Prog S α}

theorem Ends.mono (hx : x.Ends M p R) (hR : ∀ a t, R a t → R' a t) : x.Ends M p R' := by
  induction x generalizing R R' with
  | pure a => exact hR a [] hx
  | op c k ih => exact fun i σ => ih _ (hx i σ) fun a t => hR a (_ :: t)
  | hang => trivial

theorem Ends.bind {f : α → Prog S β} {Q : β → List (Issued M) → Prop} (hx : x.Ends M p R)
    (hf : ∀ a t, R a t → (f a).Ends M p fun b t' => Q b (t ++ t')) : (x >>= f).Ends M p Q := by
  induction x generalizing R Q with
  | pure a => exact hf a [] hx
  | op c k ih => exact fun i σ => ih _ (hx i σ) fun a t => hf a (_ :: t)
  | hang => trivial

theorem Ends.pure {a : α} (h : R a []) : (Prog.pure a : Prog S α).Ends M p R :=
  h

/-- A last part that issues nothing. -/
theorem Ends.map {Q : β → List (Issued M) → Prop} {g : α → β} (hx : x.Ends M p fun a t => Q (g a) t) :
    (x >>= fun a => Prog.pure (g a)).Ends M p Q :=
  hx.bind fun a t h => by rwa [← List.append_nil t] at h

/-- A command with what follows it. -/
theorem Ends.cmd_bind {c : S.Cmd} {f : S.Reply c → Prog S α}
    (hf : ∀ i σ, (f (M.exec p c i σ).1).Ends M p fun a t => R a (⟨c, i, σ⟩ :: t)) : (cmd c >>= f).Ends M p R :=
  hf

theorem Ends.cmd {c : S.Cmd} {R : S.Reply c → List (Issued M) → Prop}
    (h : ∀ i σ, R (M.exec p c i σ).1 [⟨c, i, σ⟩]) : (Prog.cmd c).Ends M p R :=
  h

theorem Ends.and (hx : x.Ends M p R) (hx' : x.Ends M p R') : x.Ends M p fun a t => R a t ∧ R' a t := by
  induction x generalizing R R' with
  | pure a => exact ⟨hx, hx'⟩
  | op c k ih => exact fun i σ => ih _ (hx i σ) (hx' i σ)
  | hang => trivial

/-- What holds of all commands of the program holds of those it has issued. -/
theorem Ends.of_all {C : S.Cmd → Prop} (hx : x.All C) : x.Ends M p fun _ t => ∀ e ∈ t, C e.cmd := by
  induction x with
  | pure a => exact fun e he => absurd he List.not_mem_nil
  | op c k ih => exact fun i σ => (ih _ (hx.2 _)).mono fun _ t ht => List.forall_mem_cons.2 ⟨hx.1, ht⟩
  | hang => trivial

theorem Ends.of_yields {Q : α → Prop} (hx : x.Yields Q) : x.Ends M p fun a _ => Q a := by
  induction x with
  | pure a => exact hx
  | op c k ih => exact fun i σ => ih _ (hx _)
  | hang => trivial

theorem Ends.trace {E : M.State → M.State → Prop} {a : α} {σ σ' : M.State} {t : List (Issued M)}
    (hx : x.Ends M p R) (h : Trace M p E x σ t (.pure a) σ') : R a t := by
  suffices left : ∀ {y : Prog S α} {σ' : M.State} {t : List (Issued M)}, Trace M p E x σ t y σ' →
      y.Ends M p fun a t' => R a (t ++ t') by
    simpa [Ends] using left h
  intro y σ' t h
  induction h with
  | refl => simpa using hx
  | moved _ _ ih => exact ih
  | op _ i ih => exact (ih i _).mono fun a t' ht => by simpa using ht

end Prog

end Interleave
