import Mathlib.Algebra.BigOperators.Group.Finset.Piecewise
import Mathlib.Algebra.GroupWithZero.Nat
import Mathlib.Algebra.Order.BigOperators.Group.Finset
import Mathlib.Data.Nat.Notation

/-!
# Histories

A history is the list of the events so far, newest first, each stamped with the actor it belongs to.
What an actor has to know of a history is often only its own part of it, which the others do not
change; totals over the whole history are sums of totals over these parts.
-/

namespace Interleave

/-- The events so far, newest first. -/
abbrev History (ε : Type) := List (ℕ × ε)

namespace History

variable {ε : Type} {p q : ℕ} {e : ε} {h h' : History ε}

/-- The events of actor `p`. -/
def own (p : ℕ) : History ε → List ε
  | [] => []
  | (q, e) :: h => if q = p then e :: own p h else own p h

@[simp] theorem own_nil : own p ([] : History ε) = [] := rfl

@[simp] theorem own_cons_self : own p ((p, e) :: h) = e :: own p h := if_pos rfl

@[simp] theorem own_cons_of_ne (hq : q ≠ p) : own p ((q, e) :: h) = own p h := if_neg hq

theorem own_append : own p (h ++ h') = own p h ++ own p h' := by
  induction h with
  | nil => rfl
  | cons x h ih =>
    obtain ⟨q, e⟩ := x
    by_cases hq : q = p
    · subst hq
      simp [ih]
    · simp [hq, ih]

@[simp] theorem own_map_self (l : List ε) : own p (l.map fun e => (p, e)) = l := by
  induction l with
  | nil => rfl
  | cons e l ih => simp [ih]

@[simp] theorem own_map_of_ne (hq : q ≠ p) (l : List ε) : own p (l.map fun e => (q, e)) = [] := by
  induction l with
  | nil => rfl
  | cons e l ih => simp [hq, ih]

theorem mem_own : e ∈ own p h ↔ (p, e) ∈ h := by
  induction h with
  | nil => simp
  | cons x h ih =>
    obtain ⟨q, f⟩ := x
    by_cases hq : q = p
    · subst hq
      simp [ih]
    · simp [hq, ih, Ne.symm hq]

/-- The history has the event `e` of actor `p`, and nothing `bad` after it. -/
def Since (p : ℕ) (e : ε) (bad : ε → Prop) (h : History ε) : Prop :=
  ∃ l l', h = l ++ (p, e) :: l' ∧ ∀ x ∈ l, ¬ bad x.2

variable {e' : ε} {bad : ε → Prop}

theorem Since.self : Since p e bad ((p, e) :: h) :=
  ⟨[], h, rfl, fun _ hx => absurd hx List.not_mem_nil⟩

theorem Since.append (since : Since p e bad h) (hbad : ∀ x ∈ h', ¬ bad x.2) :
    Since p e bad (h' ++ h) := by
  obtain ⟨l, l', rfl, hl⟩ := since
  refine ⟨h' ++ l, l', (List.append_assoc ..).symm, fun x hx => ?_⟩
  rcases List.mem_append.1 hx with hx | hx
  · exact hbad x hx
  · exact hl x hx

theorem Since.cons (since : Since p e bad h) (hbad : ¬ bad e') : Since p e bad ((q, e') :: h) := by
  have clean : ∀ x ∈ [(q, e')], ¬ bad x.2 := fun x hx => by rwa [List.mem_singleton.1 hx]
  exact since.append clean

theorem Since.mem (since : Since p e bad h) : (p, e) ∈ h := by
  obtain ⟨l, l', rfl, _⟩ := since
  simp

theorem Since.of_append {l : History ε} (since : Since p e bad (l ++ h)) (hl : (p, e) ∉ l) :
    Since p e bad h := by
  induction l with
  | nil => exact since
  | cons x l ih =>
    refine ih ?_ fun hm => hl (List.mem_cons_of_mem _ hm)
    obtain ⟨a, b, hab, ha⟩ := since
    cases a with
    | nil =>
      obtain ⟨rfl, -⟩ := List.cons.inj hab
      exact absurd (List.mem_cons_self ..) hl
    | cons y a =>
      obtain ⟨rfl, htail⟩ := List.cons.inj hab
      exact ⟨a, b, htail, fun z hz => ha z (List.mem_cons_of_mem _ hz)⟩

/-- A new event is the one in question, or the old history has it, and the new one is not bad. -/
theorem Since.cons_inv (since : Since p e bad ((q, e') :: h)) :
    (p, e) = (q, e') ∨ Since p e bad h ∧ ¬ bad e' := by
  obtain ⟨l, l', hl, clean⟩ := since
  cases l with
  | nil =>
    obtain ⟨heq, -⟩ := List.cons.inj hl
    exact .inl heq.symm
  | cons x l =>
    obtain ⟨rfl, htail⟩ := List.cons.inj hl
    exact .inr ⟨⟨l, l', htail, fun y hy => clean y (List.mem_cons_of_mem _ hy)⟩,
      clean _ (List.mem_cons_self ..)⟩

/-- The event in question is among the newer ones, or the older history has it, and no newer one is bad. -/
theorem Since.append_inv {l : History ε} (since : Since p e bad (l ++ h)) :
    (p, e) ∈ l ∨ Since p e bad h ∧ ∀ x ∈ l, ¬ bad x.2 := by
  induction l with
  | nil => exact .inr ⟨since, fun _ hx => absurd hx List.not_mem_nil⟩
  | cons x l ih =>
    obtain ⟨q, e'⟩ := x
    rcases since.cons_inv with heq | ⟨since, clean⟩
    · exact .inl (heq ▸ List.mem_cons_self ..)
    · rcases ih since with hl | ⟨since, hl⟩
      · exact .inl (List.mem_cons_of_mem _ hl)
      · exact .inr ⟨since, List.forall_mem_cons.2 ⟨clean, hl⟩⟩

/-- Of two different events, one comes after the other. -/
theorem Since.not_both {bad' : ε → Prop} (since : Since p e bad h) (since' : Since q e' bad' h)
    (hbad : bad e') (hbad' : bad' e) (ne : e ≠ e') : False := by
  obtain ⟨l, l', rfl, clean⟩ := since
  obtain ⟨m, m', hm, clean'⟩ := since'
  rcases List.append_eq_append_iff.1 hm with ⟨a, rfl, ha⟩ | ⟨a, rfl, ha⟩
  · cases a with
    | nil =>
      obtain ⟨heq, -⟩ := List.cons.inj ha
      exact ne (Prod.mk.inj heq).2
    | cons x a =>
      obtain ⟨rfl, -⟩ := List.cons.inj ha
      exact clean' (p, e) (by simp) hbad'
  · cases a with
    | nil =>
      obtain ⟨heq, -⟩ := List.cons.inj ha
      exact ne (Prod.mk.inj heq).2.symm
    | cons x a =>
      obtain ⟨rfl, -⟩ := List.cons.inj ha
      exact clean (q, e') (by simp) hbad

/-- The events after the last time that `e` happened. -/
def after [DecidableEq ε] (e : ε) (h : History ε) : List ε := (h.map Prod.snd).takeWhile (· ≠ e)

section After

variable [DecidableEq ε]

@[simp] theorem after_cons_self : after e ((p, e) :: h) = [] := by simp [after]

@[simp] theorem after_cons_of_ne (hne : e' ≠ e) : after e ((p, e') :: h) = e' :: after e h := by
  simp [after, hne]

theorem mem_of_mem_after (he : e' ∈ after e h) : ∃ p, (p, e') ∈ h := by
  obtain ⟨x, hx, rfl⟩ := List.mem_map.1 ((List.takeWhile_prefix _).mem he)
  exact ⟨x.1, hx⟩

/-- Events that come after those that were there. -/
theorem after_append {l : History ε} (hl : ∀ x ∈ l, x.2 ≠ e) : after e (l ++ h) = l.map Prod.snd ++ after e h := by
  rw [after, List.map_append, List.takeWhile_append_of_pos, after]
  intro event hevent
  obtain ⟨x, hx, rfl⟩ := List.mem_map.1 hevent
  simpa using hl x hx

theorem mem_after_append {l : History ε} (he : e' ∈ after e h) (hl : ∀ x ∈ l, x.2 ≠ e) :
    e' ∈ after e (l ++ h) := by
  rw [after_append hl]
  exact List.mem_append_right _ he

end After

/-- `h'` is `h` with more events of actor `p`, which satisfy `D`. -/
def Extends (p : ℕ) (D : ε → Prop) (h h' : History ε) : Prop :=
  ∃ l : List ε, h' = (l.map fun e => (p, e)) ++ h ∧ ∀ e ∈ l, D e

section Extends

variable {D D' : ε → Prop} {h'' : History ε}

theorem Extends.refl : Extends p D h h := ⟨[], rfl, by simp⟩

theorem Extends.of_eq (heq : h' = h) : Extends p D h h' := heq ▸ .refl

theorem Extends.one (he : D e) : Extends p D h ((p, e) :: h) := ⟨[e], rfl, by simpa⟩

theorem Extends.trans (first : Extends p D h h') (second : Extends p D h' h'') : Extends p D h h'' := by
  obtain ⟨l, rfl, hl⟩ := first
  obtain ⟨l', rfl, hl'⟩ := second
  exact ⟨l' ++ l, by simp, fun e he => (List.mem_append.1 he).elim (hl' e) (hl e)⟩

theorem Extends.mono (hD : ∀ e, D e → D' e) (ext : Extends p D h h') : Extends p D' h h' := by
  obtain ⟨l, rfl, hl⟩ := ext
  exact ⟨l, rfl, fun e he => hD e (hl e he)⟩

/-- Without new events that satisfy `D` nothing has happened. -/
theorem Extends.eq_of_false (ext : Extends p (fun _ => False) h h') : h' = h := by
  obtain ⟨l, rfl, hl⟩ := ext
  cases l with
  | nil => rfl
  | cons e l => exact (hl e (List.mem_cons_self ..)).elim

/-- What every new event keeps. -/
theorem Extends.induct {J : History ε → Prop} (ext : Extends p D h h') (hJ : J h)
    (step : ∀ e h, D e → J h → J ((p, e) :: h)) : J h' := by
  obtain ⟨l, rfl, hl⟩ := ext
  induction l with
  | nil => exact hJ
  | cons e l ih =>
    exact step e _ (hl e (List.mem_cons_self ..)) (ih fun f hf => hl f (List.mem_cons_of_mem _ hf))

end Extends

/-- Every event satisfied `Φ` when it happened: its actor, the event, and what was before it. -/
def Each (Φ : ℕ → ε → History ε → Prop) (h : History ε) : Prop :=
  ∀ later p e before, h = later ++ (p, e) :: before → Φ p e before

theorem Each.nil (Φ : ℕ → ε → History ε → Prop) : Each Φ [] := by
  intro later p e before h
  simp at h

theorem Each.cons {Φ : ℕ → ε → History ε → Prop} (each : Each Φ h) (new : Φ p e h) :
    Each Φ ((p, e) :: h) := by
  intro later q e' before heq
  cases later with
  | nil =>
    obtain ⟨hx, rfl⟩ := List.cons.inj heq
    obtain ⟨rfl, rfl⟩ := Prod.mk.inj hx
    exact new
  | cons x later =>
    obtain ⟨-, heq⟩ := List.cons.inj heq
    exact each later q e' before heq

theorem Each.append {Φ : ℕ → ε → History ε → Prop} {l : History ε} (each : Each Φ h)
    (new : ∀ x ∈ l, ∀ h, Φ x.1 x.2 h) : Each Φ (l ++ h) := by
  induction l with
  | nil => exact each
  | cons x l ih =>
    exact (ih fun y hy => new y (List.mem_cons_of_mem _ hy)).cons (new x (List.mem_cons_self ..) _)

/-- The sum of a weight over a list of events. -/
def weigh (w : ε → ℕ) (l : List ε) : ℕ := (l.map w).sum

@[simp] theorem weigh_nil (w : ε → ℕ) : weigh w [] = 0 := rfl

@[simp] theorem weigh_cons (w : ε → ℕ) (l : List ε) : weigh w (e :: l) = w e + weigh w l := by
  simp [weigh]

@[simp] theorem weigh_append (w : ε → ℕ) (l l' : List ε) :
    weigh w (l ++ l') = weigh w l + weigh w l' := by
  simp [weigh]

theorem le_weigh {l : List ε} (w : ε → ℕ) (he : e ∈ l) : w e ≤ weigh w l := by
  induction l with
  | nil => cases he
  | cons f l ih =>
    rw [weigh_cons]
    rcases List.mem_cons.1 he with rfl | he
    · exact Nat.le_add_right _ _
    · exact (ih he).trans (Nat.le_add_left _ _)

/-- The sum of a weight over the events of everybody. -/
def total (w : ε → ℕ) (h : History ε) : ℕ := weigh w (h.map Prod.snd)

@[simp] theorem total_nil (w : ε → ℕ) : total w [] = 0 := rfl

@[simp] theorem total_cons (w : ε → ℕ) : total w ((p, e) :: h) = w e + total w h := by
  simp [total]

@[simp] theorem total_append (w : ε → ℕ) : total w (h ++ h') = total w h + total w h' := by
  simp [total]

@[simp] theorem total_stamp (w : ε → ℕ) (l : List ε) :
    total w (l.map fun e => (p, e)) = weigh w l := by
  induction l with
  | nil => rfl
  | cons e l ih => simp [ih]

theorem total_add (w v : ε → ℕ) (h : History ε) : total (fun e => w e + v e) h = total w h + total v h := by
  induction h with
  | nil => rfl
  | cons x h ih =>
    obtain ⟨q, e⟩ := x
    simp only [total_cons, ih]
    omega

theorem total_mul (n : ℕ) (w : ε → ℕ) (h : History ε) : total (fun e => n * w e) h = n * total w h := by
  induction h with
  | nil => rfl
  | cons x h ih =>
    obtain ⟨q, e⟩ := x
    simp only [total_cons, ih, Nat.mul_add]

theorem total_mono {w v : ε → ℕ} (le : ∀ e, w e ≤ v e) (h : History ε) : total w h ≤ total v h := by
  induction h with
  | nil => exact Nat.le_refl _
  | cons x h ih =>
    obtain ⟨q, e⟩ := x
    have first := le e
    simp only [total_cons]
    omega

theorem weigh_own_le (w : ε → ℕ) (p : ℕ) (h : History ε) : weigh w (own p h) ≤ total w h := by
  induction h with
  | nil => simp
  | cons x h ih =>
    obtain ⟨q, e⟩ := x
    by_cases hq : q = p
    · subst hq
      simpa using ih
    · rw [own_cons_of_ne hq, total_cons]
      exact ih.trans (Nat.le_add_left _ _)

theorem total_eq_sum (w : ε → ℕ) (S : Finset ℕ) (hS : ∀ x ∈ h, x.1 ∈ S) :
    total w h = ∑ p ∈ S, weigh w (own p h) := by
  induction h with
  | nil => simp
  | cons x h ih =>
    obtain ⟨q, e⟩ := x
    have hq : q ∈ S := hS (q, e) (by simp)
    have each : ∀ p, weigh w (own p ((q, e) :: h)) =
        (if q = p then w e else 0) + weigh w (own p h) := by
      intro p
      by_cases hqp : q = p <;> simp [own, hqp]
    rw [total_cons, ih fun x hx => hS x (List.mem_cons_of_mem _ hx)]
    simp only [each, Finset.sum_add_distrib, Finset.sum_ite_eq, hq, if_true]

/-- A bound that holds for each actor's part holds for the whole history. -/
theorem total_le_of_own {w v : ε → ℕ} (each : ∀ p, weigh w (own p h) ≤ weigh v (own p h)) :
    total w h ≤ total v h := by
  have hS : ∀ x ∈ h, x.1 ∈ (h.map Prod.fst).toFinset := fun x hx => by
    rw [List.mem_toFinset]
    exact List.mem_map_of_mem hx
  rw [total_eq_sum w _ hS, total_eq_sum v _ hS]
  exact Finset.sum_le_sum fun p _ => each p

/-! ## Stacks

A history of what is open is a stack for each actor. -/

/-- Without the latest event of actor `p`. -/
def pop (p : ℕ) (h : History ε) : History ε := h.eraseP fun x => x.1 = p

theorem pop_cons_self : pop p ((p, e) :: h) = h := by simp [pop]

theorem pop_cons_of_ne (hq : q ≠ p) : pop p ((q, e) :: h) = (q, e) :: pop p h := by simp [pop, hq]

theorem pop_sublist (p : ℕ) (h : History ε) : (pop p h).Sublist h := List.eraseP_sublist

theorem lookup_eq_head? (p : ℕ) (h : History ε) : List.lookup p h = (own p h).head? := by
  induction h with
  | nil => rfl
  | cons x h ih =>
    obtain ⟨q, e⟩ := x
    by_cases hq : q = p
    · subst hq
      simp
    · rw [own_cons_of_ne hq, List.lookup_cons, beq_false_of_ne (Ne.symm hq), ← ih]

theorem mem_of_lookup (he : List.lookup p h = some e) : (p, e) ∈ h := by
  rw [lookup_eq_head?] at he
  exact mem_own.1 (List.mem_of_head? he)

theorem own_pop_self (p : ℕ) (h : History ε) : own p (pop p h) = (own p h).tail := by
  induction h with
  | nil => rfl
  | cons x h ih =>
    obtain ⟨q, e⟩ := x
    by_cases hq : q = p
    · subst hq
      rw [pop_cons_self, own_cons_self, List.tail_cons]
    · rw [pop_cons_of_ne hq, own_cons_of_ne hq, own_cons_of_ne hq, ih]

theorem own_pop_of_ne (hq : q ≠ p) (h : History ε) : own p (pop q h) = own p h := by
  induction h with
  | nil => rfl
  | cons x h ih =>
    obtain ⟨r, e⟩ := x
    by_cases hr : r = q
    · subst hr
      rw [pop_cons_self, own_cons_of_ne hq]
    · rw [pop_cons_of_ne hr, own, own, ih]

/-- The latest event of an actor and the rest together weigh as much as before. -/
theorem total_pop (w : ε → ℕ) (he : List.lookup p h = some e) : total w h = w e + total w (pop p h) := by
  induction h with
  | nil => cases he
  | cons x h ih =>
    obtain ⟨q, e'⟩ := x
    by_cases hq : q = p
    · subst hq
      rw [List.lookup_cons_self, Option.some.injEq] at he
      rw [pop_cons_self, total_cons, he]
    · rw [List.lookup_cons, beq_false_of_ne (Ne.symm hq)] at he
      rw [pop_cons_of_ne hq, total_cons, total_cons, ih he]
      omega

end History

end Interleave
