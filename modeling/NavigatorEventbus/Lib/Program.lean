import Mathlib.Data.Nat.Notation
import Mathlib.Logic.Function.Basic
import Mathlib.Logic.Relation
import Mathlib.Tactic.SplitIfs

/-!
# Programs over atomic commands

A program is a tree of atomic commands: each node issues one command to a shared machine and goes on
with the reply.  Nothing is atomic beyond a single command, so the machine may be changed by others
between any two commands of a program.  `Run` is the execution of one program under such
interference, `Pool` the execution of any number of actors side by side, each making one call
after another.
-/

namespace Interleave

/-- The commands of a machine, with the type of the reply of each. -/
structure Signature where
  Cmd : Type
  Reply : Cmd → Type

/-- A program over the commands of `S`. `hang` is a loop cut off at its bound: it never moves. -/
inductive Prog (S : Signature) (α : Type) : Type where
  | pure (a : α)
  | op (c : S.Cmd) (k : S.Reply c → Prog S α)
  | hang

namespace Prog

variable {S : Signature} {α β γ : Type}

/-- Sequential composition. -/
def bind : Prog S α → (α → Prog S β) → Prog S β
  | pure a, f => f a
  | op c k, f => op c fun r => (k r).bind f
  | hang, _ => hang

instance : Monad (Prog S) where
  pure := Prog.pure
  bind := Prog.bind

/-- A single command. -/
def cmd (c : S.Cmd) : Prog S (S.Reply c) := op c pure

@[simp] theorem pure_bind' (a : α) (f : α → Prog S β) : (Prog.pure a : Prog S α) >>= f = f a := rfl

@[simp] theorem pure_eq (a : α) : (Pure.pure a : Prog S α) = Prog.pure a := rfl

@[simp] theorem op_bind (c : S.Cmd) (k : S.Reply c → Prog S α) (f : α → Prog S β) :
    op c k >>= f = op c fun r => k r >>= f := rfl

@[simp] theorem hang_bind (f : α → Prog S β) : (hang : Prog S α) >>= f = hang := rfl

@[simp] theorem cmd_bind (c : S.Cmd) (f : S.Reply c → Prog S β) : cmd c >>= f = op c f := rfl

theorem bind_pure' (x : Prog S α) : x >>= Prog.pure = x := by
  induction x with
  | pure a => rfl
  | op c k ih => exact congrArg (op c) (funext ih)
  | hang => rfl

@[simp] theorem bind_assoc' (x : Prog S α) (f : α → Prog S β) (g : β → Prog S γ) :
    x >>= f >>= g = x >>= fun a => f a >>= g := by
  induction x with
  | pure a => rfl
  | op c k ih => exact congrArg (op c) (funext ih)
  | hang => rfl

/-- At most `n` commands of `x`, then `a`: a call that its caller gives up on. -/
def cutoff (a : α) : ℕ → Prog S α → Prog S α
  | _, pure b => pure b
  | 0, op _ _ => pure a
  | n + 1, op c k => op c fun r => cutoff a n (k r)
  | _, hang => pure a

/-- Every command that the program may issue satisfies `C`. -/
def All (C : S.Cmd → Prop) : Prog S α → Prop
  | pure _ => True
  | op c k => C c ∧ ∀ r, All C (k r)
  | hang => True

theorem All.one {C : S.Cmd → Prop} {c : S.Cmd} (h : C c) : All C (cmd c) := ⟨h, fun _ => trivial⟩

theorem All.of_forall {C : S.Cmd → Prop} (h : ∀ c, C c) (x : Prog S α) : All C x := by
  induction x with
  | pure a => trivial
  | op c k ih => exact ⟨h c, ih⟩
  | hang => trivial

theorem All.bind {C : S.Cmd → Prop} {x : Prog S α} {f : α → Prog S β} (hx : All C x)
    (hf : ∀ a, All C (f a)) : All C (x >>= f) := by
  induction x with
  | pure a => exact hf a
  | op c k ih => exact ⟨hx.1, fun r => ih r (hx.2 r)⟩
  | hang => trivial

/-- A command with what follows it. -/
theorem All.cmd_bind {C : S.Cmd → Prop} {c : S.Cmd} {f : S.Reply c → Prog S α} (h : C c)
    (hf : ∀ r, All C (f r)) : All C (cmd c >>= f) :=
  ⟨h, hf⟩

theorem All.mono {C D : S.Cmd → Prop} (hCD : ∀ c, C c → D c) {x : Prog S α} (hx : All C x) :
    All D x := by
  induction x with
  | pure a => trivial
  | op c k ih => exact ⟨hCD c hx.1, fun r => ih r (hx.2 r)⟩
  | hang => trivial

theorem All.cutoff {C : S.Cmd → Prop} {x : Prog S α} (hx : All C x) (a : α) (n : ℕ) :
    All C (x.cutoff a n) := by
  induction x generalizing n with
  | pure b => cases n <;> trivial
  | op c k ih =>
    cases n with
    | zero => trivial
    | succ n => exact ⟨hx.1, fun r => ih r (hx.2 r) n⟩
  | hang => cases n <;> trivial

end Prog

namespace Prog

variable {S : Signature} {α β : Type}

/-- The program comes to its end, as long as the replies to its commands satisfy `R`. -/
def ReturnsIf (R : (c : S.Cmd) → S.Reply c → Prop) : Prog S α → Prop
  | pure _ => True
  | op c k => ∀ r, R c r → ReturnsIf R (k r)
  | hang => False

theorem ReturnsIf.bind {R : (c : S.Cmd) → S.Reply c → Prop} {x : Prog S α} {f : α → Prog S β} (hx : ReturnsIf R x)
    (hf : ∀ a, ReturnsIf R (f a)) : ReturnsIf R (x >>= f) := by
  induction x with
  | pure a => exact hf a
  | op c k ih => exact fun r hr => ih r (hx r hr)
  | hang => exact hx.elim

/-- The program has no bounded loops: it comes to its end, whatever is replied to its commands. -/
def Returns (x : Prog S α) : Prop := ReturnsIf (fun _ _ => True) x

theorem Returns.bind {x : Prog S α} {f : α → Prog S β} (hx : Returns x) (hf : ∀ a, Returns (f a)) :
    Returns (x >>= f) := ReturnsIf.bind hx hf

/-- A command with what follows it. -/
theorem Returns.cmd_bind {c : S.Cmd} {f : S.Reply c → Prog S α} (hf : ∀ r, Returns (f r)) :
    Returns (Prog.cmd c >>= f) := fun r _ => hf r

/-- Every result of the program satisfies `R`, whatever is replied to its commands. -/
def Yields (R : α → Prop) : Prog S α → Prop
  | pure a => R a
  | op _ k => ∀ r, Yields R (k r)
  | hang => True

theorem Yields.bind {Q : α → Prop} {R : β → Prop} {x : Prog S α} {f : α → Prog S β} (hx : Yields Q x)
    (hf : ∀ a, Q a → Yields R (f a)) : Yields R (x >>= f) := by
  induction x with
  | pure a => exact hf a hx
  | op c k ih => exact fun r => ih r (hx r)
  | hang => trivial

/-- What yields `R` whatever came before it. -/
theorem Yields.then {R : β → Prop} {x : Prog S α} {f : α → Prog S β} (hf : ∀ a, Yields R (f a)) :
    Yields R (x >>= f) := by
  induction x with
  | pure a => exact hf a
  | op c k ih => exact ih
  | hang => trivial

theorem Yields.mono {Q R : α → Prop} {x : Prog S α} (hx : Yields Q x) (h : ∀ a, Q a → R a) :
    Yields R x := by
  induction x with
  | pure a => exact h a hx
  | op c k ih => exact fun r => ih r (hx r)
  | hang => trivial

theorem Yields.cutoff {R : α → Prop} {x : Prog S α} (hx : Yields R x) {a : α} (ha : R a) (n : ℕ) :
    Yields R (x.cutoff a n) := by
  induction x generalizing n with
  | pure b => cases n <;> exact hx
  | op c k ih =>
    cases n with
    | zero => exact ha
    | succ n => exact fun r => ih r (hx r) n
  | hang => cases n <;> exact ha

theorem Yields.of_forall {R : α → Prop} (h : ∀ a, R a) (x : Prog S α) : Yields R x := by
  induction x with
  | pure a => exact h a
  | op c k ih => exact ih
  | hang => trivial

end Prog

namespace Prog

variable {S : Signature} {α β : Type}

/-- As long as the replies satisfy `R`, every command is allowed by `C` after the one before it (`last`
for the first one), and the result satisfies `Q`. -/
def Follows (R : (c : S.Cmd) → S.Reply c → Prop) (C : Option S.Cmd → S.Cmd → Prop) (Q : α → Prop) :
    Option S.Cmd → Prog S α → Prop
  | _, pure a => Q a
  | last, op c k => C last c ∧ ∀ r, R c r → Follows R C Q (some c) (k r)
  | _, hang => True

variable {R : (c : S.Cmd) → S.Reply c → Prop} {C : Option S.Cmd → S.Cmd → Prop}

theorem Follows.bind {Q : α → Prop} {Q' : β → Prop} {x : Prog S α} {f : α → Prog S β}
    {last : Option S.Cmd} (hx : Follows R C Q last x) (hf : ∀ last a, Q a → Follows R C Q' last (f a)) :
    Follows R C Q' last (x >>= f) := by
  induction x generalizing last with
  | pure a => exact hf last a hx
  | op c k ih => exact ⟨hx.1, fun r hr => ih r (hx.2 r hr)⟩
  | hang => trivial

/-- A command with what follows it. -/
theorem Follows.cmd_bind {Q : α → Prop} {c : S.Cmd} {f : S.Reply c → Prog S α} {last : Option S.Cmd}
    (hc : C last c) (hf : ∀ r, R c r → Follows R C Q (some c) (f r)) : Follows R C Q last (Prog.cmd c >>= f) :=
  ⟨hc, hf⟩

/-- When every reply is allowed, every command is. -/
theorem Follows.all {D : S.Cmd → Prop} {Q : α → Prop} {x : Prog S α} {last : Option S.Cmd}
    (hR : ∀ c r, R c r) (hx : Follows R (fun _ => D) Q last x) : x.All D := by
  induction x generalizing last with
  | op c k ih => exact ⟨hx.1, fun r => ih r (hx.2 r (hR c r))⟩
  | _ => trivial

/-- A single command that may stand anywhere. -/
theorem Follows.cmd {c : S.Cmd} {Q : S.Reply c → Prop} {last : Option S.Cmd} (hc : C last c)
    (hQ : ∀ r, R c r → Q r) : Follows R C Q last (Prog.cmd c) :=
  ⟨hc, hQ⟩

end Prog

namespace Prog

variable {S : Signature} {α β : Type}

/-- The command that comes next. -/
def head : Prog S α → Option S.Cmd
  | op c _ => some c
  | _ => none

/-- After a command and a reply for which `N` names a command, that one comes next. -/
def Leads (N : (c : S.Cmd) → S.Reply c → Option S.Cmd) : Prog S α → Prop
  | op c k => ∀ r, (∀ d, N c r = some d → (k r).head = some d) ∧ Leads N (k r)
  | _ => True

variable {N : (c : S.Cmd) → S.Reply c → Option S.Cmd}

theorem head_bind {x : Prog S α} {f : α → Prog S β} {d : S.Cmd} (h : x.head = some d) :
    (x >>= f).head = some d := by
  cases x with
  | op c k => exact h
  | _ => cases h

theorem Leads.bind {x : Prog S α} {f : α → Prog S β} (hx : Leads N x) (hf : ∀ a, Leads N (f a)) :
    Leads N (x >>= f) := by
  induction x with
  | pure a => exact hf a
  | op c k ih => exact fun r => ⟨fun d hd => head_bind ((hx r).1 d hd), ih r (hx r).2⟩
  | hang => trivial

/-- A single command after which nothing has to come. -/
theorem Leads.cmd {c : S.Cmd} (h : ∀ r, N c r = none) : Leads N (Prog.cmd c) :=
  fun r => ⟨fun d hd => by simp [h r] at hd, trivial⟩

theorem Leads.pure {a : α} : Leads N (Prog.pure a : Prog S α) := trivial

/-- A command with what follows it. -/
theorem Leads.cmd_bind {c : S.Cmd} {f : S.Reply c → Prog S α}
    (h : ∀ r d, N c r = some d → (f r).head = some d) (hf : ∀ r, Leads N (f r)) :
    Leads N (Prog.cmd c >>= f) :=
  fun r => ⟨h r, hf r⟩

/-- A command after which nothing has to come, with what follows it. -/
theorem Leads.then {c : S.Cmd} {f : S.Reply c → Prog S α} (h : ∀ r, N c r = none)
    (hf : ∀ r, Leads N (f r)) : Leads N (Prog.cmd c >>= f) :=
  .cmd_bind (fun r d hd => by simp [h r] at hd) hf

end Prog

/-- A machine that executes the commands of `S` for numbered actors. The input is what the
environment supplies with a command, such as the reading of a clock. -/
structure Machine (S : Signature) where
  State : Type
  Input : Type
  exec : ℕ → (c : S.Cmd) → Input → State → S.Reply c × State

variable {S : Signature}

/-- The result of a program that actor `p` executes alone, with the same input for every command, and
the state that it leaves. -/
def Prog.run (M : Machine S) (p : ℕ) (i : M.Input) {α : Type} : Prog S α → M.State → Option (α × M.State)
  | pure a, σ => some (a, σ)
  | op c k, σ => (k (M.exec p c i σ).1).run M p i (M.exec p c i σ).2
  | hang, _ => none

theorem Prog.run_bind (M : Machine S) (p : ℕ) (i : M.Input) {α β : Type} (x : Prog S α)
    (f : α → Prog S β) (σ : M.State) :
    (x >>= f).run M p i σ = (x.run M p i σ).bind fun r => (f r.1).run M p i r.2 := by
  induction x generalizing σ with
  | pure a => rfl
  | op c k ih => exact ih _ _
  | hang => rfl

/-! ## One program under interference -/

/-- One executed command: what was issued, with which input, and in which state. -/
structure Issued (M : Machine S) where
  cmd : S.Cmd
  input : M.Input
  before : M.State

namespace Issued

variable {M : Machine S}

/-- The reply actor `p` got. -/
def reply (e : Issued M) (p : ℕ) : S.Reply e.cmd := (M.exec p e.cmd e.input e.before).1

/-- The state the command of actor `p` left. -/
def after (e : Issued M) (p : ℕ) : M.State := (M.exec p e.cmd e.input e.before).2

end Issued

/-- `Trace M p E x σ t y σ'`: actor `p` executes `x` from `σ` while others make the moves `E`; it has
issued the commands `t`, the state is `σ'`, and `y` is what is left to execute. -/
inductive Trace (M : Machine S) (p : ℕ) (E : M.State → M.State → Prop) {α : Type} (x : Prog S α)
    (σ : M.State) : List (Issued M) → Prog S α → M.State → Prop where
  | refl : Trace M p E x σ [] x σ
  | moved {t : List (Issued M)} {y : Prog S α} {σ₁ σ₂ : M.State}
      (h : Trace M p E x σ t y σ₁) (hE : E σ₁ σ₂) : Trace M p E x σ t y σ₂
  | op {t : List (Issued M)} {c : S.Cmd} {k : S.Reply c → Prog S α} {σ₁ : M.State}
      (h : Trace M p E x σ t (.op c k) σ₁) (i : M.Input) :
      Trace M p E x σ (t ++ [⟨c, i, σ₁⟩]) (k (M.exec p c i σ₁).1) (M.exec p c i σ₁).2

/-- What actor `p` issues when it executes a program alone, one command for each input, with what is left
and the state. -/
def Prog.follow (M : Machine S) (p : ℕ) {α : Type} :
    List M.Input → Prog S α → M.State → List (Issued M) × Prog S α × M.State
  | i :: is, op c k, σ =>
    let r := follow M p is (k (M.exec p c i σ).1) (M.exec p c i σ).2
    (⟨c, i, σ⟩ :: r.1, r.2)
  | _, x, σ => ([], x, σ)

namespace Trace

variable {M : Machine S} {p : ℕ} {E : M.State → M.State → Prop} {α β : Type}

/-- A trace of a sequence is inside its first part, or past it. -/
theorem bind_inv {x : Prog S α} {f : α → Prog S β} {σ σ' : M.State} {t : List (Issued M)}
    {z : Prog S β} (h : Trace M p E (x >>= f) σ t z σ') :
    (∃ y, z = y >>= f ∧ Trace M p E x σ t y σ') ∨
      ∃ t₁ t₂ a σ₁, t = t₁ ++ t₂ ∧ Trace M p E x σ t₁ (.pure a) σ₁ ∧ Trace M p E (f a) σ₁ t₂ z σ' := by
  generalize hz : x >>= f = w at h
  induction h with
  | refl => exact .inl ⟨x, hz.symm, .refl⟩
  | moved h hE ih =>
    rcases ih with ⟨y, rfl, hy⟩ | ⟨t₁, t₂, a, σ₁, rfl, h₁, h₂⟩
    · exact .inl ⟨y, rfl, hy.moved hE⟩
    · exact .inr ⟨t₁, t₂, a, σ₁, rfl, h₁, h₂.moved hE⟩
  | @op t c k σ₁ h i ih =>
    rcases ih with ⟨y, hy, hx⟩ | ⟨t₁, t₂, a, σ₂, rfl, h₁, h₂⟩
    · cases y with
      | pure a =>
        have hy : Prog.op c k = f a := hy
        refine .inr ⟨t, [⟨c, i, σ₁⟩], a, σ₁, rfl, hx, ?_⟩
        rw [← hy]
        exact Trace.refl.op i
      | op d l =>
        obtain ⟨rfl, rfl⟩ : c = d ∧ HEq k fun r => l r >>= f := by
          simpa only [Prog.op_bind, Prog.op.injEq] using hy
        exact .inl ⟨_, rfl, hx.op i⟩
      | hang => cases hy
    · exact .inr ⟨t₁, t₂ ++ [⟨c, i, σ₁⟩], a, σ₂, by rw [List.append_assoc], h₁, h₂.op i⟩

/-- A trace of a command with a continuation has not begun, or goes on with the reply. -/
theorem op_inv {c : S.Cmd} {k : S.Reply c → Prog S α} {y : Prog S α} {σ σ' : M.State}
    {t : List (Issued M)} (h : Trace M p E (.op c k) σ t y σ') :
    (t = [] ∧ y = .op c k) ∨ ∃ i σ₁ t', t = ⟨c, i, σ₁⟩ :: t' ∧
      Trace M p E (k (M.exec p c i σ₁).1) (M.exec p c i σ₁).2 t' y σ' := by
  induction h with
  | refl => exact .inl ⟨rfl, rfl⟩
  | moved h hE ih =>
    rcases ih with same | ⟨i, σ₁, t', rfl, h'⟩
    · exact .inl same
    · exact .inr ⟨i, σ₁, t', rfl, h'.moved hE⟩
  | @op t d l σ₂ h j ih =>
    rcases ih with ⟨rfl, same⟩ | ⟨i, σ₁, t', rfl, h'⟩
    · obtain ⟨rfl, same⟩ := Prog.op.inj same
      cases same
      exact .inr ⟨j, σ₂, [], rfl, .refl⟩
    · exact .inr ⟨i, σ₁, t' ++ [⟨d, j, σ₂⟩], rfl, h'.op j⟩

/-- A finished trace of a command with a continuation. -/
theorem op_pure_inv {c : S.Cmd} {k : S.Reply c → Prog S α} {a : α} {σ σ' : M.State}
    {t : List (Issued M)} (h : Trace M p E (.op c k) σ t (.pure a) σ') :
    ∃ i σ₁ t', t = ⟨c, i, σ₁⟩ :: t' ∧
      Trace M p E (k (M.exec p c i σ₁).1) (M.exec p c i σ₁).2 t' (.pure a) σ' := by
  rcases h.op_inv with ⟨-, h⟩ | h
  · cases h
  · exact h

theorem pure_inv {a : α} {y : Prog S α} {σ σ' : M.State} {t : List (Issued M)}
    (h : Trace M p E (.pure a) σ t y σ') : t = [] ∧ y = .pure a := by
  induction h with
  | refl => exact ⟨rfl, rfl⟩
  | moved _ _ ih => exact ih
  | op _ _ ih => cases ih.2

theorem hang_inv {y : Prog S α} {σ σ' : M.State} {t : List (Issued M)} (h : Trace M p E .hang σ t y σ') :
    t = [] ∧ y = .hang := by
  induction h with
  | refl => exact ⟨rfl, rfl⟩
  | moved _ _ ih => exact ih
  | op _ _ ih => cases ih.2

theorem mono {E' : M.State → M.State → Prop} (hE : ∀ σ σ', E σ σ' → E' σ σ') {x y : Prog S α}
    {σ σ' : M.State} {t : List (Issued M)} (h : Trace M p E x σ t y σ') :
    Trace M p E' x σ t y σ' := by
  induction h with
  | refl => exact .refl
  | moved _ h ih => exact ih.moved (hE _ _ h)
  | op _ i ih => exact ih.op i

/-- A finished trace of a sequence. -/
theorem bind_pure_inv {x : Prog S α} {f : α → Prog S β} {b : β} {σ σ' : M.State} {t : List (Issued M)}
    (h : Trace M p E (x >>= f) σ t (.pure b) σ') :
    ∃ t₁ t₂ a σ₁, t = t₁ ++ t₂ ∧ Trace M p E x σ t₁ (.pure a) σ₁ ∧ Trace M p E (f a) σ₁ t₂ (.pure b) σ' := by
  rcases h.bind_inv with ⟨y, hy, h'⟩ | h'
  · cases y with
    | pure a =>
      have result : Prog.pure b = f a := hy
      exact ⟨t, [], a, σ', (List.append_nil t).symm, h', result ▸ .refl⟩
    | _ => cases hy
  · exact h'

/-- What is issued and what is left satisfy what all commands of the program satisfy. -/
theorem all {C : S.Cmd → Prop} {x y : Prog S α} {σ σ' : M.State} {t : List (Issued M)}
    (h : Trace M p E x σ t y σ') (hx : x.All C) : (∀ e ∈ t, C e.cmd) ∧ y.All C := by
  induction h with
  | refl => exact ⟨fun e he => absurd he List.not_mem_nil, hx⟩
  | moved _ _ ih => exact ih
  | op _ i ih =>
    refine ⟨fun e he => ?_, ih.2.2 _⟩
    rcases List.mem_append.1 he with he | he
    · exact ih.1 e he
    · rw [List.mem_singleton.1 he]
      exact ih.2.1

/-- What is left yields what the whole program yields. -/
theorem yields {R : α → Prop} {x y : Prog S α} {σ σ' : M.State} {t : List (Issued M)}
    (h : Trace M p E x σ t y σ') (hx : x.Yields R) : y.Yields R := by
  induction h with
  | refl => exact hx
  | moved _ _ ih => exact ih
  | op _ i ih => exact ih _

/-- The trace of a program that actor `p` executes alone, one command for each input. -/
theorem of_follow (x : Prog S α) (σ : M.State) (is : List M.Input) :
    Trace M p E x σ (Prog.follow M p is x σ).1 (Prog.follow M p is x σ).2.1 (Prog.follow M p is x σ).2.2 := by
  suffices claim : ∀ {t : List (Issued M)} {y : Prog S α} {σ₁ : M.State}, Trace M p E x σ t y σ₁ →
      Trace M p E x σ (t ++ (Prog.follow M p is y σ₁).1) (Prog.follow M p is y σ₁).2.1 (Prog.follow M p is y σ₁).2.2 by
    simpa using claim .refl
  induction is with
  | nil =>
    intro t y σ₁ h
    simpa [Prog.follow] using h
  | cons i is ih =>
    intro t y σ₁ h
    cases y with
    | op c k => simpa [Prog.follow] using ih (h.op i)
    | pure a => simpa [Prog.follow] using h
    | hang => simpa [Prog.follow] using h

section Past

variable {U : S.Cmd → Prop} {before after : List (Issued M)} {e : Issued M} {σ σ' : M.State}

/-- A command that the program does not issue is not in its traces. -/
theorem not_past {x y : Prog S α} (h : Trace M p E x σ (before ++ e :: after) y σ')
    (hx : x.All fun c => ¬ U c) : ¬ U e.cmd :=
  (h.all hx).1 e (by simp)

/-- A command that is not the first one comes after it. -/
theorem op_past {c : S.Cmd} {k : S.Reply c → Prog S α} {y : Prog S α}
    (h : Trace M p E (.op c k) σ (before ++ e :: after) y σ') (hc : ¬ U c) (he : U e.cmd) :
    ∃ i σ₁ before', before = ⟨c, i, σ₁⟩ :: before' ∧
      Trace M p E (k (M.exec p c i σ₁).1) (M.exec p c i σ₁).2 (before' ++ e :: after) y σ' := by
  rcases h.op_inv with ⟨none, -⟩ | ⟨i, σ₁, t', ht, h'⟩
  · simp at none
  · cases before with
    | nil =>
      obtain ⟨rfl, -⟩ := List.cons.inj ht
      exact absurd he hc
    | cons first before =>
      obtain ⟨rfl, rfl⟩ := List.cons.inj ht
      exact ⟨i, σ₁, before, rfl, h'⟩

/-- `op_past` for a command with what follows it. -/
theorem cmd_past {c : S.Cmd} {f : S.Reply c → Prog S α} {y : Prog S α}
    (h : Trace M p E (Prog.cmd c >>= f) σ (before ++ e :: after) y σ') (hc : ¬ U c) (he : U e.cmd) :
    ∃ i σ₁ before', before = ⟨c, i, σ₁⟩ :: before' ∧
      Trace M p E (f (M.exec p c i σ₁).1) (M.exec p c i σ₁).2 (before' ++ e :: after) y σ' :=
  h.op_past hc he

/-- A command that the first part of a sequence does not issue comes after its end. -/
theorem bind_past {x : Prog S α} {f : α → Prog S β} {z : Prog S β}
    (h : Trace M p E (x >>= f) σ (before ++ e :: after) z σ') (hx : x.All fun c => ¬ U c) (he : U e.cmd) :
    ∃ t₁ t₂ a σ₁, before = t₁ ++ t₂ ∧ Trace M p E x σ t₁ (.pure a) σ₁ ∧
      Trace M p E (f a) σ₁ (t₂ ++ e :: after) z σ' := by
  rcases h.bind_inv with ⟨y, -, hy⟩ | ⟨t₁, t₂, a, σ₁, ht, h₁, h₂⟩
  · exact absurd he (hy.not_past hx)
  · rcases List.append_eq_append_iff.1 ht with ⟨l, rfl, hl⟩ | ⟨l, rfl, hl⟩
    · cases l with
      | nil =>
        rw [List.nil_append] at hl
        subst hl
        exact ⟨before, [], a, σ₁, by simp, by simpa using h₁, h₂⟩
      | cons first l =>
        obtain ⟨rfl, -⟩ := List.cons.inj hl
        exact absurd he ((h₁.all hx).1 e (by simp))
    · exact ⟨t₁, l, a, σ₁, rfl, h₁, hl ▸ h₂⟩

/-- A command that the last part of a sequence does not issue comes before its beginning. -/
theorem bind_first {x : Prog S α} {f : α → Prog S β} {z : Prog S β}
    (h : Trace M p E (x >>= f) σ (before ++ e :: after) z σ') (hf : ∀ a, (f a).All fun c => ¬ U c)
    (he : U e.cmd) : ∃ after' y σ₁, Trace M p E x σ (before ++ e :: after') y σ₁ := by
  rcases h.bind_inv with ⟨y, -, hy⟩ | ⟨t₁, t₂, a, σ₁, ht, h₁, h₂⟩
  · exact ⟨after, y, σ', hy⟩
  · rcases List.append_eq_append_iff.1 ht with ⟨l, rfl, hl⟩ | ⟨l, rfl, hl⟩
    · cases l with
      | nil =>
        rw [List.nil_append] at hl
        subst hl
        exact absurd he ((h₂.all (hf a)).1 e (List.mem_cons_self ..))
      | cons first l =>
        obtain ⟨rfl, -⟩ := List.cons.inj hl
        exact ⟨l, .pure a, σ₁, h₁⟩
    · subst hl
      exact absurd he (h₂.not_past (hf a))

end Past

end Trace

/-! ## Any number of actors -/

/-- What an actor does: it rests in a phase between two calls, or executes the call `o`. -/
inductive Actor (S : Signature) (Call Result Phase : Type) : Type where
  | resting (φ : Phase)
  | calling (o : Call) (x : Prog S Result)

/-- Actors that make calls to one machine. `phase` says what a returned call leaves its actor
with, `accepts` which calls an actor may make in a phase, `note` what the history of the machine
records of a return, and `disturb` what may happen to the machine by itself. -/
structure Service (M : Machine S) where
  Call : Type
  Result : Type
  Phase : Type
  idle : Phase
  code : Call → Prog S Result
  phase : Call → Result → Phase
  accepts : Phase → Call → Bool
  note : ℕ → Call → Result → M.State → M.State
  Disturbance : Type
  disturb : Disturbance → M.State → M.State

variable {M : Machine S}

/-- The shared state and every actor. -/
structure Pool (V : Service M) where
  shared : M.State
  actors : ℕ → Actor S V.Call V.Result V.Phase

/-- One scheduling decision. -/
inductive Act (V : Service M) : Type where
  | call (p : ℕ) (o : V.Call)
  | exec (p : ℕ) (i : M.Input)
  | ret (p : ℕ)
  | crash (p : ℕ)
  | disturb (d : V.Disturbance)

/-- No actor crashes. -/
def Act.Uncrashed {V : Service M} : Act V → Prop
  | .crash _ => False
  | _ => True

instance {V : Service M} (a : Act V) : Decidable a.Uncrashed := by
  cases a <;> unfold Act.Uncrashed <;> infer_instance

namespace Pool

variable {V : Service M}

/-- The actor `p` becomes `a`. -/
def set (P : Pool V) (p : ℕ) (a : Actor S V.Call V.Result V.Phase) : Pool V :=
  { P with actors := Function.update P.actors p a }

@[simp] theorem set_shared (P : Pool V) (p : ℕ) (a : Actor S V.Call V.Result V.Phase) :
    (P.set p a).shared = P.shared := rfl

@[simp] theorem set_actors_self (P : Pool V) (p : ℕ) (a : Actor S V.Call V.Result V.Phase) :
    (P.set p a).actors p = a := by
  simp [set]

theorem set_actors_of_ne (P : Pool V) {p q : ℕ} (h : q ≠ p)
    (a : Actor S V.Call V.Result V.Phase) : (P.set p a).actors q = P.actors q := by
  simp [set, h]

/-- The effect of a scheduling decision; `none` when it is not possible. -/
def act (P : Pool V) : Act V → Option (Pool V)
  | .call p o =>
    match P.actors p with
    | .resting φ => if V.accepts φ o then some (P.set p (.calling o (V.code o))) else none
    | .calling _ _ => none
  | .exec p i =>
    match P.actors p with
    | .calling o (.op c k) =>
      some ({ P with shared := (M.exec p c i P.shared).2 }.set p
        (.calling o (k (M.exec p c i P.shared).1)))
    | _ => none
  | .ret p =>
    match P.actors p with
    | .calling o (.pure r) =>
      some ({ P with shared := V.note p o r P.shared }.set p (.resting (V.phase o r)))
    | _ => none
  | .crash p => some (P.set p (.resting V.idle))
  | .disturb d => some { P with shared := V.disturb d P.shared }

/-- What a scheduling decision did. -/
inductive Acted (P : Pool V) : Act V → Pool V → Prop where
  | call {p : ℕ} {o : V.Call} {φ : V.Phase} (hp : P.actors p = .resting φ)
      (accepts : V.accepts φ o = true) : Acted P (.call p o) (P.set p (.calling o (V.code o)))
  | exec {p : ℕ} {i : M.Input} {o : V.Call} {c : S.Cmd} {k : S.Reply c → Prog S V.Result}
      (hp : P.actors p = .calling o (.op c k)) :
      Acted P (.exec p i) ({ P with shared := (M.exec p c i P.shared).2 }.set p
        (.calling o (k (M.exec p c i P.shared).1)))
  | ret {p : ℕ} {o : V.Call} {r : V.Result} (hp : P.actors p = .calling o (.pure r)) :
      Acted P (.ret p) ({ P with shared := V.note p o r P.shared }.set p (.resting (V.phase o r)))
  | crash {p : ℕ} : Acted P (.crash p) (P.set p (.resting V.idle))
  | disturb {d : V.Disturbance} :
      Acted P (.disturb d) { P with shared := V.disturb d P.shared }

theorem acted {P P' : Pool V} {a : Act V} (hs : P.act a = some P') : P.Acted a P' := by
  cases a with
  | call p o =>
    simp only [act] at hs
    split at hs
    · rename_i φ hp
      split_ifs at hs with accepts
      cases hs
      exact .call hp accepts
    · cases hs
  | exec p i =>
    simp only [act] at hs
    split at hs
    · rename_i o c k hp
      cases hs
      exact .exec hp
    · cases hs
  | ret p =>
    simp only [act] at hs
    split at hs
    · rename_i o r hp
      cases hs
      exact .ret hp
    · cases hs
  | crash p =>
    cases hs
    exact .crash
  | disturb d =>
    cases hs
    exact .disturb

theorem shared_of_exec {P P' : Pool V} {p : ℕ} {i : M.Input} {o : V.Call} {c : S.Cmd}
    {k : S.Reply c → Prog S V.Result} (hp : P.actors p = .calling o (.op c k))
    (hs : P.act (.exec p i) = some P') : P'.shared = (M.exec p c i P.shared).2 := by
  simp only [act, hp, Option.some.injEq] at hs
  rw [← hs, set_shared]

/-- A property of every actor, when the one actor that moved has it and the others had it. -/
theorem forall_set {P : Pool V} {p : ℕ} {a : Actor S V.Call V.Result V.Phase}
    {J : ℕ → Actor S V.Call V.Result V.Phase → Prop} (new : J p a)
    (old : ∀ q, q ≠ p → J q (P.actors q)) (q : ℕ) : J q ((P.set p a).actors q) := by
  by_cases hqp : q = p
  · subst hqp
    rwa [set_actors_self]
  · rw [set_actors_of_ne _ hqp]
    exact old q hqp

/-- The pools reached from `P` by decisions that `A` admits. -/
inductive Reach (A : Pool V → Act V → Prop) (P : Pool V) : Pool V → Prop where
  | refl : Reach A P P
  | step {Q Q' : Pool V} (a : Act V) (h : Reach A P Q) (ha : A Q a) (hs : Q.act a = some Q') :
      Reach A P Q'

theorem Reach.mono {A B : Pool V → Act V → Prop} {P Q : Pool V} (hAB : ∀ Q a, A Q a → B Q a)
    (h : Reach A P Q) : Reach B P Q := by
  induction h with
  | refl => exact .refl
  | step a _ ha hs ih => exact .step a ih (hAB _ _ ha) hs

theorem Reach.trans {A : Pool V → Act V → Prop} {P Q R : Pool V} (h : Reach A P Q)
    (h' : Reach A Q R) : Reach A P R := by
  induction h' with
  | refl => exact h
  | step a _ ha hs ih => exact .step a ih ha hs

/-- The decisions whose commands meet the condition `C`. -/
def Meets (C : ℕ → V.Call → (c : S.Cmd) → M.Input → M.State → Prop) (P : Pool V) : Act V → Prop
  | .exec p i => ∀ o c k, P.actors p = .calling o (.op c k) → C p o c i P.shared
  | _ => True

theorem Meets.mono {C D : ℕ → V.Call → (c : S.Cmd) → M.Input → M.State → Prop}
    (hCD : ∀ p o c i σ, C p o c i σ → D p o c i σ) {P : Pool V} {a : Act V} (h : Meets C P a) :
    Meets D P a := by
  cases a with
  | exec p i => exact fun o c k hp => hCD _ _ _ _ _ (h o c k hp)
  | _ => trivial

/-- The decisions of actors that never crash, whose commands meet `C`, whose returns meet `R`, and with
disturbances that meet `D`. -/
def Within (C : ℕ → V.Call → (c : S.Cmd) → M.Input → M.State → Prop)
    (R : ℕ → V.Call → V.Result → M.State → Prop) (D : V.Disturbance → M.State → Prop) (P : Pool V) :
    Act V → Prop
  | .call _ _ => True
  | .exec p i => ∀ o c k, P.actors p = .calling o (.op c k) → C p o c i P.shared
  | .ret p => ∀ o r, P.actors p = .calling o (.pure r) → R p o r P.shared
  | .crash _ => False
  | .disturb d => D d P.shared

/-- What the calls in progress have left issues only commands that `D` allows their calls. -/
def Calls (D : V.Call → S.Cmd → Prop) (P : Pool V) : Prop :=
  ∀ p o x, P.actors p = .calling o x → x.All (D o)

section Calls

variable {D : V.Call → S.Cmd → Prop} {P P' : Pool V}

/-- What is left of every call in progress has a property that the calls have and their commands
keep. -/
theorem Reach.programs {A : Pool V → Act V → Prop} {J : V.Call → Prog S V.Result → Prop}
    (code : ∀ o, J o (V.code o)) (next : ∀ {o c k}, J o (.op c k) → ∀ r, J o (k r))
    (h : ∀ p o x, P.actors p = .calling o x → J o x) (hr : Reach A P P') :
    ∀ p o x, P'.actors p = .calling o x → J o x := by
  have set : ∀ {Q : Pool V} {p : ℕ} {a : Actor S V.Call V.Result V.Phase} {σ : M.State},
      (∀ p o x, Q.actors p = .calling o x → J o x) → (∀ o x, a = .calling o x → J o x) →
        ∀ q o x, ({ Q with shared := σ }.set p a).actors q = .calling o x → J o x :=
    fun old new => forall_set (J := fun _ a => ∀ o x, a = .calling o x → J o x) new fun q _ => old q
  induction hr with
  | refl => exact h
  | step a _ _ hs ih =>
    cases acted hs with
    | call =>
      refine set ih fun o' x e => ?_
      cases e
      exact code _
    | exec hp =>
      refine set ih fun o' x e => ?_
      cases e
      exact next (ih _ _ _ hp) _
    | ret => exact set ih fun o' x e => by cases e
    | crash => exact set ih fun o' x e => by cases e
    | disturb => exact ih

/-- In every pool reached, the calls in progress issue only commands that `D` allows them. -/
theorem Reach.calls {A : Pool V → Act V → Prop} (code : ∀ o, (V.code o).All (D o)) (h : P.Calls D)
    (hr : Reach A P P') : P'.Calls D :=
  hr.programs (J := fun o x => x.All (D o)) code (fun h r => h.2 r) h

/-- A property of the shared state that every allowed command meeting the condition keeps, and the
returns and disturbances too, holds in every pool reached. -/
theorem Reach.invariant {C : ℕ → V.Call → (c : S.Cmd) → M.Input → M.State → Prop}
    {J : M.State → Prop} (code : ∀ o, (V.code o).All (D o))
    (exec : ∀ {p o c i σ}, D o c → C p o c i σ → J σ → J (M.exec p c i σ).2)
    (note : ∀ {p o r σ}, J σ → J (V.note p o r σ))
    (disturb : ∀ {σ} (d : V.Disturbance), J σ → J (V.disturb d σ))
    (h : P.Calls D) (hJ : J P.shared) (hr : Reach (Meets C) P P') : J P'.shared := by
  induction hr with
  | refl => exact hJ
  | @step Q Q' a hr ha hs ih =>
    have calls := hr.calls code h
    cases acted hs with
    | call => exact ih
    | exec hp => exact exec (calls _ _ _ hp).1 (ha _ _ _ hp) ih
    | ret => exact note ih
    | crash => exact ih
    | disturb => exact disturb _ ih

/-- No actor rests in a phase that the calls do not lead to, unless it crashed. -/
theorem Reach.resting {A : Pool V → Act V → Prop} {Φ : V.Phase → Prop}
    (uncrashed : ∀ {Q : Pool V} {p : ℕ}, ¬ A Q (.crash p)) (phase : ∀ o r, Φ (V.phase o r))
    (h : ∀ p φ, P.actors p = .resting φ → Φ φ) (hr : Reach A P P') :
    ∀ p φ, P'.actors p = .resting φ → Φ φ := by
  have set : ∀ {Q : Pool V} {p : ℕ} {a : Actor S V.Call V.Result V.Phase} {σ : M.State},
      (∀ p φ, Q.actors p = .resting φ → Φ φ) → (∀ φ, a = .resting φ → Φ φ) →
        ∀ q φ, ({ Q with shared := σ }.set p a).actors q = .resting φ → Φ φ :=
    fun old new => forall_set (J := fun _ a => ∀ φ, a = .resting φ → Φ φ) new fun q _ => old q
  induction hr with
  | refl => exact h
  | step a _ ha hs ih =>
    cases acted hs with
    | call => exact set ih fun φ e => by cases e
    | exec => exact set ih fun φ e => by cases e
    | ret =>
      refine set ih fun φ e => ?_
      cases e
      exact phase _ _
    | crash => exact absurd ha uncrashed
    | disturb => exact ih

/-- A property of the shared state that every command, return and disturbance keeps. -/
theorem Reach.stable {A : Pool V → Act V → Prop} {J : M.State → Prop}
    (exec : ∀ {p c i σ}, J σ → J (M.exec p c i σ).2) (note : ∀ {p o r σ}, J σ → J (V.note p o r σ))
    (disturb : ∀ {σ} (d : V.Disturbance), J σ → J (V.disturb d σ)) (hJ : J P.shared)
    (hr : Reach A P P') : J P'.shared := by
  have free : Reach (Meets fun _ _ _ _ _ => True) P P' := by
    refine hr.mono fun _ a _ => ?_
    cases a with
    | exec p i => exact fun _ _ _ _ => trivial
    | _ => trivial
  exact free.invariant (fun o => .of_forall (fun _ => trivial) _) (fun _ _ h => exec h) note disturb
    (fun _ _ x _ => .of_forall (fun _ : S.Cmd => trivial) x) hJ

/-- An actor that executes nothing stays at the beginning of its calls. -/
theorem Reach.untouched {C : ℕ → V.Call → (c : S.Cmd) → M.Input → M.State → Prop} {q : ℕ}
    (hC : ∀ {p o c i σ}, C p o c i σ → p ≠ q) (h : ∀ o x, P.actors q = .calling o x → x = V.code o)
    (hr : Reach (Meets C) P P') : ∀ o x, P'.actors q = .calling o x → x = V.code o := by
  have set : ∀ {Q : Pool V} {p : ℕ} {a : Actor S V.Call V.Result V.Phase} {σ : M.State},
      (∀ o x, Q.actors q = .calling o x → x = V.code o) →
      (p = q → ∀ o x, a = .calling o x → x = V.code o) →
      ∀ o x, ({ Q with shared := σ }.set p a).actors q = .calling o x → x = V.code o :=
    fun old new => forall_set (J := fun p a => p = q → ∀ o x, a = .calling o x → x = V.code o) new
      (fun _ _ hq => hq ▸ old) q rfl
  induction hr with
  | refl => exact h
  | @step Q Q' a _ ha hs ih =>
    cases acted hs with
    | call =>
      refine set ih fun _ o' x e => ?_
      cases e
      rfl
    | exec hp => exact set ih fun hpq => absurd hpq (hC (ha _ _ _ hp))
    | ret => exact set ih fun _ o x e => by cases e
    | crash => exact set ih fun _ o x e => by cases e
    | disturb => exact ih

end Calls

/-! ## What an observer records -/

section Recorded

variable {G : Type} {A B : Pool V → Act V → Prop} {up : Pool V → Act V → G → G} {P Q : Pool V}
  {g r : G}

/-- The pools reached by decisions that `A` admits, with what an observer has recorded on the way. -/
inductive Recorded (A : Pool V → Act V → Prop) (up : Pool V → Act V → G → G) (P : Pool V) (g : G) :
    Pool V → G → Prop where
  | refl : Recorded A up P g P g
  | step {Q Q' : Pool V} {r : G} (a : Act V) (h : Recorded A up P g Q r) (ha : A Q a)
      (hs : Q.act a = some Q') : Recorded A up P g Q' (up Q a r)

theorem Recorded.reach (h : Recorded A up P g Q r) : Reach A P Q := by
  induction h with
  | refl => exact .refl
  | step a _ ha hs ih => exact .step a ih ha hs

theorem Recorded.trans {R : Pool V} {r' : G} (h : Recorded A up P g Q r)
    (h' : Recorded A up Q r R r') : Recorded A up P g R r' := by
  induction h' with
  | refl => exact h
  | step a _ ha hs ih => exact .step a ih ha hs

/-- Only actor `p` moves. -/
def Solo (p : ℕ) : Act V → Prop
  | .call q _ | .exec q _ | .ret q | .crash q => q = p
  | .disturb _ => True

instance (p : ℕ) (a : Act V) : Decidable (Solo p a) := by
  cases a <;> unfold Solo <;> infer_instance

theorem Solo.others {p : ℕ} {a : Act V} (ha : Solo p a) {P' : Pool V} (hs : P.act a = some P')
    {q : ℕ} (hq : q ≠ p) : P'.actors q = P.actors q := by
  have ne : ∀ {p'}, p' = p → q ≠ p' := fun h => h ▸ hq
  cases acted hs with
  | call => exact set_actors_of_ne _ (ne ha) _
  | exec => exact set_actors_of_ne _ (ne ha) _
  | ret => exact set_actors_of_ne _ (ne ha) _
  | crash => exact set_actors_of_ne _ (ne ha) _
  | disturb => rfl

/-- The pool after a sequence of decisions of actor `p` that pass a test, with the record. -/
def recordSolo (p : ℕ) (test : Pool V → Act V → Bool) (up : Pool V → Act V → G → G) (P : Pool V)
    (g : G) : List (Act V) → Option (Pool V × G)
  | [] => some (P, g)
  | a :: l =>
    if Solo p a ∧ test P a = true then
      (P.act a).bind fun P' => P'.recordSolo p test up (up P a g) l
    else none

/-- A sequence of decisions of one actor is recorded, when they pass a test that is enough where every
other actor rests. -/
theorem Recorded.of_solo {p : ℕ} {test : Pool V → Act V → Bool}
    (enough : ∀ {Q Q' : Pool V} {a}, (∀ q, q ≠ p → ∃ φ, Q.actors q = .resting φ) → Solo p a →
      test Q a = true → Q.act a = some Q' → A Q a)
    {P : Pool V} {g : G} (rest : ∀ q, q ≠ p → ∃ φ, P.actors q = .resting φ) {l : List (Act V)}
    (hrun : P.recordSolo p test up g l = some (Q, r)) : Recorded A up P g Q r := by
  induction l generalizing P g with
  | nil =>
    cases hrun
    exact .refl
  | cons a l ih =>
    simp only [recordSolo] at hrun
    split_ifs at hrun with ha
    obtain ⟨P', hP', hrun⟩ := Option.bind_eq_some_iff.1 hrun
    have first : Recorded A up P g P' (up P a g) := .step a .refl (enough rest ha.1 ha.2 hP') hP'
    exact first.trans (ih (fun q hq => by rw [ha.1.others hP' hq]; exact rest q hq) hrun)

/-- What the calls in progress have issued, with what the decision adds. -/
def issued (P : Pool V) (a : Act V) (g : ℕ → List (Issued M)) : ℕ → List (Issued M) :=
  match a with
  | .call p _ => Function.update g p []
  | .exec p i =>
    match P.actors p with
    | .calling _ (.op c _) => Function.update g p (g p ++ [⟨c, i, P.shared⟩])
    | _ => g
  | _ => g

/-- What a call in progress has issued is a trace of its program. -/
theorem Recorded.trace {g r : ℕ → List (Issued M)} (rest : ∀ p, ∃ φ, P.actors p = .resting φ)
    (h : Recorded A issued P g Q r) {p : ℕ} {o : V.Call} {x : Prog S V.Result}
    (hp : Q.actors p = .calling o x) : ∃ σ, Trace M p (fun _ _ => True) (V.code o) σ (r p) x Q.shared := by
  induction h generalizing o x with
  | refl =>
    obtain ⟨φ, hφ⟩ := rest p
    rw [hφ] at hp
    cases hp
  | @step Q Q' r a _ _ hs ih =>
    cases acted hs with
    | @call q o' φ hφ hacc =>
      by_cases hpq : p = q
      · subst hpq
        obtain ⟨rfl, rfl⟩ : o' = o ∧ V.code o' = x := by simpa using hp
        exact ⟨Q.shared, by simpa [issued] using .refl⟩
      · rw [set_actors_of_ne _ hpq] at hp
        obtain ⟨σ, t⟩ := ih hp
        exact ⟨σ, by simpa [issued, hpq] using t⟩
    | @exec q i o' c k hq =>
      by_cases hpq : p = q
      · subst hpq
        obtain ⟨σ, t⟩ := ih hq
        obtain ⟨rfl, rfl⟩ : o' = o ∧ k (M.exec p c i Q.shared).1 = x := by simpa using hp
        exact ⟨σ, by simpa [issued, hq] using t.op i⟩
      · rw [set_actors_of_ne _ hpq] at hp
        obtain ⟨σ, t⟩ := ih hp
        exact ⟨σ, by simpa [issued, hq, hpq] using t.moved trivial⟩
    | @ret q o' r' hq | @crash q =>
      by_cases hpq : p = q
      · subst hpq
        simp at hp
      · rw [set_actors_of_ne _ hpq] at hp
        obtain ⟨σ, t⟩ := ih hp
        exact ⟨σ, t.moved trivial⟩
    | disturb =>
      obtain ⟨σ, t⟩ := ih hp
      exact ⟨σ, t.moved trivial⟩

end Recorded

section Decidable

variable (C : ℕ → V.Call → (c : S.Cmd) → M.Input → M.State → Prop)
  [∀ p o c i σ, Decidable (C p o c i σ)]

/-- Whether a decision meets the condition. -/
def meets (P : Pool V) : Act V → Bool
  | .exec p i =>
    match P.actors p with
    | .calling o (.op c _) => decide (C p o c i P.shared)
    | _ => true
  | _ => true

/-- The pool after a sequence of decisions that meet the condition. -/
def runIf (P : Pool V) : List (Act V) → Option (Pool V)
  | [] => some P
  | a :: l => if P.meets C a then (P.act a).bind fun P' => P'.runIf l else none

variable {C}

theorem Meets.of_meets {P : Pool V} {a : Act V} (h : P.meets C a = true) : Meets C P a := by
  cases a with
  | exec p i =>
    intro o c k hp
    simpa [meets, hp] using h
  | _ => trivial

/-- A sequence of decisions that meet the condition, and satisfy `B` besides, reaches its end. -/
theorem Reach.of_runIf_forall {B : Act V → Prop} {P Q : Pool V} {l : List (Act V)} (hl : ∀ a ∈ l, B a)
    (hrun : P.runIf C l = some Q) : Reach (fun Q a => Meets C Q a ∧ B a) P Q := by
  induction l generalizing P with
  | nil =>
    cases hrun
    exact .refl
  | cons a l ih =>
    simp only [runIf] at hrun
    split at hrun
    · rename_i ha
      obtain ⟨P', hP', hrun⟩ := Option.bind_eq_some_iff.1 hrun
      have first : Reach (fun Q a => Meets C Q a ∧ B a) P P' :=
        .step a .refl ⟨.of_meets ha, hl a (List.mem_cons_self ..)⟩ hP'
      exact first.trans (ih (fun b hb => hl b (List.mem_cons_of_mem _ hb)) hrun)
    · cases hrun

/-- A sequence of decisions that meet the condition reaches its end. -/
theorem Reach.of_runIf {P Q : Pool V} {l : List (Act V)} (hrun : P.runIf C l = some Q) :
    Reach (Meets C) P Q :=
  (Reach.of_runIf_forall (B := fun _ => True) (fun _ _ => trivial) hrun).mono fun _ _ h => h.1

variable (C) in
/-- The pool after a sequence of decisions that meet the condition, with the record. -/
def recordIf {G : Type} (up : Pool V → Act V → G → G) (P : Pool V) (g : G) : List (Act V) → Option (Pool V × G)
  | [] => some (P, g)
  | a :: l => if P.meets C a then (P.act a).bind fun P' => P'.recordIf up (up P a g) l else none

/-- A sequence of decisions that meet the condition, and satisfy `B` besides, is recorded. -/
theorem Recorded.of_recordIf {G : Type} {up : Pool V → Act V → G → G} {B : Act V → Prop} {P Q : Pool V}
    {g r : G} {l : List (Act V)} (hl : ∀ a ∈ l, B a) (hrun : P.recordIf C up g l = some (Q, r)) :
    Recorded (fun Q a => Meets C Q a ∧ B a) up P g Q r := by
  induction l generalizing P g with
  | nil =>
    cases hrun
    exact .refl
  | cons a l ih =>
    simp only [recordIf] at hrun
    split at hrun
    · rename_i ha
      obtain ⟨P', hP', hrun⟩ := Option.bind_eq_some_iff.1 hrun
      have first : Recorded (fun Q a => Meets C Q a ∧ B a) up P g P' (up P a g) :=
        .step a .refl ⟨.of_meets ha, hl a (List.mem_cons_self ..)⟩ hP'
      exact first.trans (ih (fun b hb => hl b (List.mem_cons_of_mem _ hb)) hrun)
    · cases hrun

end Decidable

end Pool

/-- The call of an actor that has its result, with the result. -/
def Actor.result {Call Result Phase : Type} : Actor S Call Result Phase → Option (Call × Result)
  | calling o (.pure r) => some (o, r)
  | _ => none

theorem Actor.result_eq_some {Call Result Phase : Type} {a : Actor S Call Result Phase} {o : Call}
    {r : Result} : a.result = some (o, r) ↔ a = .calling o (.pure r) := by
  cases a with
  | resting φ => simp [result]
  | calling o' x => cases x <;> simp [result]

/-- Whether an actor is between two calls. -/
def Actor.isResting {Call Result Phase : Type} : Actor S Call Result Phase → Bool
  | resting _ => true
  | calling _ _ => false

theorem Actor.isResting_eq_true {Call Result Phase : Type} {a : Actor S Call Result Phase}
    (h : a.isResting = true) : ∃ φ, a = .resting φ := by
  cases a with
  | resting φ => exact ⟨φ, rfl⟩
  | calling o x => cases h

/-- The call of an actor that has a command to issue. -/
def Actor.issuing {Call Result Phase : Type} : Actor S Call Result Phase → Option Call
  | calling o (.op _ _) => some o
  | _ => none

theorem Actor.issuing_eq_some {Call Result Phase : Type} {a : Actor S Call Result Phase} {o : Call}
    (h : a.issuing = some o) : ∃ c k, a = .calling o (.op c k) := by
  cases a with
  | resting φ => cases h
  | calling o' x =>
    cases x with
    | op c k =>
      cases h
      exact ⟨c, k, rfl⟩
    | _ => cases h

end Interleave
