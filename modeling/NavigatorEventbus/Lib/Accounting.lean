import NavigatorEventbus.Lib.History
import NavigatorEventbus.Lib.Program

/-!
# What programs emit and spend

Two judgements on programs.  `Emits` bounds the things that the commands of a program stand for: whatever is
replied, they are among the given ones, in order.  `Affords` is an account: each command has a cost and each
reply may earn something, and the program never overdraws the credit that it starts with.  A pool keeps a
journal of the calls and commands of its actors; when every call affords its code, the journal as a whole is
not overdrawn (`Recorded.balance`).
-/

namespace Interleave

namespace Prog

variable {S : Signature} {α β ε : Type}

/-- What the commands of the program stand for is among `l`, in order. -/
def Emits (f : S.Cmd → List ε) : List ε → Prog S α → Prop
  | _, pure _ => True
  | l, op c k => ∃ rest, (f c ++ rest).Sublist l ∧ ∀ r, Emits f rest (k r)
  | _, hang => True

variable {f : S.Cmd → List ε} {l l' : List ε}

theorem Emits.mono {x : Prog S α} (h : Emits f l x) (hl : l.Sublist l') : Emits f l' x := by
  cases x with
  | op c k =>
    obtain ⟨rest, sub, h⟩ := h
    exact ⟨rest, sub.trans hl, h⟩
  | _ => trivial

theorem Emits.bind {x : Prog S α} {g : α → Prog S β} (hx : Emits f l x) (hg : ∀ a, Emits f l' (g a)) :
    Emits f (l ++ l') (x >>= g) := by
  induction x generalizing l with
  | pure a => exact (hg a).mono (List.sublist_append_right l l')
  | op c k ih =>
    obtain ⟨rest, sub, h⟩ := hx
    refine ⟨rest ++ l', ?_, fun r => ih r (h r)⟩
    rw [← List.append_assoc]
    exact sub.append (List.Sublist.refl l')
  | hang => trivial

/-- A command with what follows it. -/
theorem Emits.cmd_bind {c : S.Cmd} {g : S.Reply c → Prog S α} (hl : (f c ++ l').Sublist l)
    (hg : ∀ r, Emits f l' (g r)) : Emits f l (cmd c >>= g) :=
  ⟨l', hl, hg⟩

/-- Commands that stand for nothing. -/
theorem Emits.of_all {x : Prog S α} (h : x.All fun c => f c = []) : Emits f l x := by
  induction x with
  | op c k ih => exact ⟨l, by rw [h.1, List.nil_append], fun r => ih r (h.2 r)⟩
  | _ => trivial

/-- A first part that emits nothing. -/
theorem Emits.after {x : Prog S α} {g : α → Prog S β} (hx : x.All fun c => f c = [])
    (hg : ∀ a, Emits f l (g a)) : Emits f l (x >>= g) :=
  (Emits.of_all (l := []) hx).bind hg

theorem Emits.sublist {M : Machine S} {p : ℕ} {E : M.State → M.State → Prop} {x y : Prog S α}
    {σ σ' : M.State} {t : List (Issued M)} (h : Trace M p E x σ t y σ') (hx : Emits f l x) :
    (t.flatMap fun e => f e.cmd).Sublist l := by
  suffices claim : ∃ rest, ((t.flatMap fun e => f e.cmd) ++ rest).Sublist l ∧ Emits f rest y by
    obtain ⟨rest, sub, -⟩ := claim
    exact (List.sublist_append_left _ rest).trans sub
  induction h with
  | refl => exact ⟨l, List.Sublist.refl l, hx⟩
  | moved _ _ ih => exact ih
  | @op t c k σ₁ _ i ih =>
    obtain ⟨rest, sub, rest', sub', h⟩ := ih
    refine ⟨rest', ?_, h _⟩
    rw [List.flatMap_append, List.append_assoc]
    exact ((List.Sublist.refl _).append (by simpa using sub')).trans sub

/-- With the credit `n`, the program never spends more than it has and earns. -/
def Affords (cost gain : (c : S.Cmd) → S.Reply c → ℕ) : ℕ → Prog S α → Prop
  | _, pure _ => True
  | n, op c k => ∀ r, cost c r ≤ n + gain c r ∧ Affords cost gain (n + gain c r - cost c r) (k r)
  | _, hang => True

variable {cost gain : (c : S.Cmd) → S.Reply c → ℕ} {n m : ℕ}

theorem Affords.mono {x : Prog S α} (h : Affords cost gain n x) (hn : n ≤ m) : Affords cost gain m x := by
  induction x generalizing n m with
  | op c k ih =>
    intro r
    obtain ⟨enough, rest⟩ := h r
    exact ⟨by omega, ih r rest (by omega)⟩
  | _ => trivial

theorem Affords.bind {x : Prog S α} {g : α → Prog S β} (hx : Affords cost gain n x)
    (hg : ∀ a, Affords cost gain m (g a)) : Affords cost gain (n + m) (x >>= g) := by
  induction x generalizing n with
  | pure a => exact (hg a).mono (Nat.le_add_left m n)
  | op c k ih =>
    intro r
    obtain ⟨enough, rest⟩ := hx r
    exact ⟨by omega, (ih r rest).mono (by omega)⟩
  | hang => trivial

/-- A command with what follows it. -/
theorem Affords.cmd_bind {c : S.Cmd} {g : S.Reply c → Prog S α}
    (h : ∀ r, cost c r ≤ n + gain c r ∧ Affords cost gain (n + gain c r - cost c r) (g r)) :
    Affords cost gain n (cmd c >>= g) :=
  h

/-- A program whose commands cost nothing. -/
theorem Affords.of_all {x : Prog S α} (h : x.All fun c => ∀ r, cost c r = 0) : Affords cost gain n x := by
  induction x generalizing n with
  | op c k ih => exact fun r => ⟨by rw [h.1 r]; exact Nat.zero_le _, ih r (h.2 r)⟩
  | _ => trivial

/-- A first part that costs nothing. -/
theorem Affords.after {x : Prog S α} {g : α → Prog S β} (hx : x.All fun c => ∀ r, cost c r = 0)
    (hg : ∀ a, Affords cost gain n (g a)) : Affords cost gain n (x >>= g) := by
  simpa using (Affords.of_all (n := 0) hx).bind hg

/-- A first part that costs nothing, with what its result satisfies. -/
theorem Affords.after_yields {Q : α → Prop} {x : Prog S α} {g : α → Prog S β}
    (hx : x.All fun c => ∀ r, cost c r = 0) (hQ : x.Yields Q) (hg : ∀ a, Q a → Affords cost gain n (g a)) :
    Affords cost gain n (x >>= g) := by
  induction x generalizing n with
  | pure a => exact hg a hQ
  | op c k ih =>
    intro r
    rw [hx.1 r]
    exact ⟨Nat.zero_le _, ih r (hx.2 r) (hQ r) fun a ha => (hg a ha).mono (by omega)⟩
  | hang => trivial

/-- A last part that costs nothing. -/
theorem Affords.map {x : Prog S α} (hx : Affords cost gain n x) (g : α → β) :
    Affords cost gain n (x >>= fun a => Prog.pure (g a)) :=
  hx.bind (m := 0) fun _ => trivial

end Prog

namespace Pool

variable {S : Signature} {M : Machine S} {V : Service M}

/-- A line of the journal of a pool: a call begins, or a command has its reply. -/
inductive Entry (V : Service M) : Type where
  | called (o : V.Call)
  | replied (c : S.Cmd) (r : S.Reply c)

/-- The journal after a scheduling decision. -/
def journal (P : Pool V) : Act V → History (Entry V) → History (Entry V)
  | .call p o, h => (p, .called o) :: h
  | .exec p i, h =>
    match P.actors p with
    | .calling _ (.op c _) => (p, .replied c (M.exec p c i P.shared).1) :: h
    | _ => h
  | _, h => h

/-- What a line of the journal costs. -/
def Entry.spent (cost : (c : S.Cmd) → S.Reply c → ℕ) : Entry V → ℕ
  | called _ => 0
  | replied c r => cost c r

/-- What a line of the journal brings in. -/
def Entry.earned (credit : V.Call → ℕ) (gain : (c : S.Cmd) → S.Reply c → ℕ) : Entry V → ℕ
  | called o => credit o
  | replied c r => gain c r

variable {cost gain : (c : S.Cmd) → S.Reply c → ℕ} {credit : V.Call → ℕ}

/-- What actor `p` has spent is covered, and so is what it still may spend. -/
def Covered (cost gain : (c : S.Cmd) → S.Reply c → ℕ) (credit : V.Call → ℕ) (h : History (Entry V))
    (p : ℕ) : Actor S V.Call V.Result V.Phase → Prop
  | .resting _ =>
    History.weigh (Entry.spent cost) (h.own p) ≤ History.weigh (Entry.earned credit gain) (h.own p)
  | .calling _ x => ∃ n, x.Affords cost gain n ∧
      History.weigh (Entry.spent cost) (h.own p) + n ≤
        History.weigh (Entry.earned credit gain) (h.own p)

theorem Covered.le {h : History (Entry V)} {p : ℕ} {a : Actor S V.Call V.Result V.Phase}
    (covered : Covered cost gain credit h p a) :
    History.weigh (Entry.spent cost) (h.own p) ≤ History.weigh (Entry.earned credit gain) (h.own p) := by
  cases a with
  | resting φ => exact covered
  | calling o x =>
    obtain ⟨n, -, hn⟩ := covered
    omega

/-- An actor that gives up what it has left is still covered. -/
theorem Covered.rest {h : History (Entry V)} {p : ℕ} {a : Actor S V.Call V.Result V.Phase}
    (covered : Covered cost gain credit h p a) (φ : V.Phase) :
    Covered cost gain credit h p (.resting φ : Actor S V.Call V.Result V.Phase) :=
  covered.le

/-- The journal of others does not matter. -/
theorem Covered.cons_of_ne {h : History (Entry V)} {p q : ℕ} {a : Actor S V.Call V.Result V.Phase}
    {e : Entry V} (hq : q ≠ p) (covered : Covered cost gain credit h q a) :
    Covered cost gain credit ((p, e) :: h) q a := by
  cases a <;> simpa only [Covered, History.own_cons_of_ne hq.symm] using covered

theorem Recorded.covered {A : Pool V → Act V → Prop} {P Q : Pool V} {h : History (Entry V)}
    (code : ∀ o, (V.code o).Affords cost gain (credit o)) (rest : ∀ p, ∃ φ, P.actors p = .resting φ)
    (hr : Recorded A journal P [] Q h) (p : ℕ) : Covered cost gain credit h p (Q.actors p) := by
  induction hr generalizing p with
  | refl =>
    obtain ⟨φ, hφ⟩ := rest p
    rw [hφ]
    exact Nat.le_refl _
  | @step Q Q' h a _ _ hs ih =>
    cases acted hs with
    | @call q o φ hq _ =>
      refine forall_set (J := fun p a => Covered cost gain credit ((q, .called o) :: h) p a) ?_
        (fun p hp => (ih p).cons_of_ne hp) p
      have before := (ih q).le
      refine ⟨credit o, code o, ?_⟩
      simp only [History.own_cons_self, History.weigh_cons, Entry.spent, Entry.earned]
      omega
    | @exec q i o c k hq =>
      rw [journal, hq]
      refine forall_set (P := { Q with shared := _ })
        (J := fun p a => Covered cost gain credit ((q, .replied c (M.exec q c i Q.shared).1) :: h) p a) ?_
        (fun p hp => (ih p).cons_of_ne hp) p
      have before := ih q
      rw [hq] at before
      obtain ⟨n, affords, covered⟩ := before
      obtain ⟨enough, rest⟩ := affords (M.exec q c i Q.shared).1
      refine ⟨_, rest, ?_⟩
      simp only [History.own_cons_self, History.weigh_cons, Entry.spent, Entry.earned]
      omega
    | @ret q o r hq =>
      exact forall_set (P := { Q with shared := _ }) (J := fun p a => Covered cost gain credit h p a)
        ((ih q).rest _) (fun p _ => ih p) p
    | @crash q =>
      exact forall_set (J := fun p a => Covered cost gain credit h p a) ((ih q).rest _) (fun p _ => ih p) p
    | disturb => exact ih p

/-- When every call affords its code, the pool as a whole has not spent more than its calls and replies
brought in. -/
theorem Recorded.balance {A : Pool V → Act V → Prop} {P Q : Pool V} {h : History (Entry V)}
    (code : ∀ o, (V.code o).Affords cost gain (credit o)) (rest : ∀ p, ∃ φ, P.actors p = .resting φ)
    (hr : Recorded A journal P [] Q h) :
    History.total (Entry.spent cost) h ≤ History.total (Entry.earned credit gain) h :=
  History.total_le_of_own fun p => (hr.covered code rest p).le

/-- A stock that only certain replies add to covers those that take from it. -/
theorem Recorded.stocked {A : Pool V → Act V → Prop} {P Q : Pool V} {h : History (Entry V)} (stock : M.State → ℕ)
    (exec : ∀ p c i σ, stock (M.exec p c i σ).2 + cost c (M.exec p c i σ).1 ≤ stock σ + gain c (M.exec p c i σ).1)
    (note : ∀ p o r σ, stock (V.note p o r σ) ≤ stock σ) (disturb : ∀ d σ, stock (V.disturb d σ) ≤ stock σ)
    (hr : Recorded A journal P [] Q h) :
    History.total (Entry.spent cost) h + stock Q.shared ≤ History.total (Entry.spent gain) h + stock P.shared := by
  induction hr with
  | refl => exact Nat.le_refl _
  | @step Q Q' h a _ _ hs ih =>
    cases acted hs with
    | @call q o φ hq _ => simpa [journal, Entry.spent] using ih
    | @exec q i o c k hq =>
      have step := exec q c i Q.shared
      rw [journal, hq]
      simp only [History.total_cons, Entry.spent, Pool.set]
      omega
    | @ret q o r hq => exact (Nat.add_le_add_left (note q o r Q.shared) _).trans ih
    | @crash q => exact ih
    | @disturb d => exact (Nat.add_le_add_left (disturb d Q.shared) _).trans ih

/-- What is brought in comes with the calls or with the replies. -/
theorem total_earned (h : History (Entry V)) : History.total (Entry.earned credit gain) h =
    History.total (Entry.earned credit fun _ _ => 0) h + History.total (Entry.spent gain) h := by
  rw [← History.total_add]
  congr 1
  funext e
  cases e with
  | called o => rfl
  | replied c r => exact (Nat.zero_add _).symm

end Pool

end Interleave
