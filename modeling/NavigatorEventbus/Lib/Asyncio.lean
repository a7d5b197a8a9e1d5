import Mathlib.Data.List.Nodup
import Mathlib.Data.Nat.Notation
import Mathlib.Tactic.SplitIfs

/-!
# Queues and semaphores of an event loop

Tasks are numbers.  A task that has to wait is listed with what it waits for, in order; when its wait is
over it moves to the tasks that are due to run, and only when it runs does it go on: another task may have
taken the free place or the permit in between.
-/

namespace Asyncio

/-- A first-in first-out queue of at most `maxsize` items, unbounded when that is zero. `putters` are the
tasks that wait for space, `woken` those that are due to run. -/
structure Queue (α : Type) where
  maxsize : ℕ
  items : List α := []
  putters : List ℕ := []
  woken : List ℕ := []

namespace Queue

variable {α : Type} (q : Queue α)

def Full : Prop := 0 < q.maxsize ∧ q.maxsize ≤ q.items.length

instance : Decidable q.Full := inferInstanceAs (Decidable (_ ∧ _))

/-- The task that waits longest is due to run. -/
def wakeupNext : Queue α :=
  match q.putters with
  | [] => q
  | p :: rest => { q with putters := rest, woken := p :: q.woken }

/-- An item is put; callers check for space. -/
def push (a : α) : Queue α := { q with items := q.items ++ [a] }

/-- `put_nowait`; `none` when the queue is full. -/
def putNowait (a : α) : Option (Queue α) := if q.Full then none else some (q.push a)

/-- `get_nowait`; `none` when the queue is empty. -/
def getNowait : Option (α × Queue α) :=
  match q.items with
  | [] => none
  | a :: rest => some (a, { q with items := rest }.wakeupNext)

/-- A put that finds the queue full. -/
def wait (p : ℕ) : Queue α := { q with putters := q.putters ++ [p] }

/-- A task is no longer in the middle of a put. -/
def leave (p : ℕ) : Queue α :=
  { q with putters := q.putters.filter (· ≠ p), woken := q.woken.filter (· ≠ p) }

/-- A put that goes on, with space. -/
def resume (p : ℕ) (a : α) : Queue α := (q.leave p).push a

/-- A put that goes on and finds the queue full again. -/
def rewait (p : ℕ) : Queue α := if p ∈ q.woken ∧ q.Full then (q.leave p).wait p else q

/-- A put that is cancelled. It passes on the place that it was woken for. -/
def cancelPut (p : ℕ) : Queue α :=
  if p ∈ q.woken ∧ ¬ q.Full then (q.leave p).wakeupNext else q.leave p

/-- The tasks in the middle of a put. -/
def Putting (p : ℕ) : Prop := p ∈ q.putters ∨ p ∈ q.woken

variable {q} {p r : ℕ} {a : α}

/-- A full queue has an item to get. -/
theorem getNowait_ne_none (h : q.Full) : q.getNowait ≠ none := by
  obtain ⟨bounded, long⟩ := h
  unfold getNowait
  split
  · rename_i empty
    rw [empty, List.length_nil] at long
    omega
  · simp

theorem items_wakeupNext (q : Queue α) : q.wakeupNext.items = q.items := by
  rw [wakeupNext]
  split <;> rfl

theorem items_rewait (q : Queue α) (p : ℕ) : (q.rewait p).items = q.items := by
  rw [rewait]
  split_ifs <;> rfl

theorem items_cancelPut (q : Queue α) (p : ℕ) : (q.cancelPut p).items = q.items := by
  rw [cancelPut]
  split_ifs
  · exact items_wakeupNext _
  · rfl

theorem items_getNowait {q' : Queue α} (h : q.getNowait = some (a, q')) : q.items = a :: q'.items := by
  rw [getNowait] at h
  split at h
  · cases h
  · rename_i rest items
    cases h
    rw [items, items_wakeupNext]

theorem items_putNowait {q' : Queue α} (h : q.putNowait a = some q') : q'.items = q.items ++ [a] := by
  rw [putNowait] at h
  split_ifs at h
  cases h
  rfl

theorem mem_putters_wakeupNext (h : r ∈ q.wakeupNext.putters) : r ∈ q.putters := by
  unfold wakeupNext at h
  split at h
  · exact h
  · rename_i hp
    rw [hp]
    exact List.mem_cons_of_mem _ h

theorem putting_wakeupNext (h : q.wakeupNext.Putting r) : q.Putting r := by
  unfold wakeupNext at h
  split at h
  · exact h
  · rename_i hp
    rcases h with h | h
    · exact .inl (hp ▸ List.mem_cons_of_mem _ h)
    · rcases List.mem_cons.1 h with rfl | h
      · exact .inl (hp ▸ List.mem_cons_self ..)
      · exact .inr h

theorem putting_leave : (q.leave p).Putting r ↔ r ≠ p ∧ q.Putting r := by
  simp only [Putting, leave, List.mem_filter, decide_eq_true_eq, ← and_or_left, and_comm (b := r ≠ p)]

theorem putting_wait (h : (q.wait p).Putting r) : q.Putting r ∨ r = p := by
  rcases h with h | h
  · exact (List.mem_append.1 h).imp .inl List.mem_singleton.1
  · exact .inl (.inr h)

theorem putting_rewait (h : (q.rewait p).Putting r) : q.Putting r := by
  unfold rewait at h
  split_ifs at h with hp
  · rcases putting_wait h with h | rfl
    · exact (putting_leave.1 h).2
    · exact .inr hp.1
  · exact h

theorem putting_cancelPut (h : (q.cancelPut p).Putting r) : r ≠ p ∧ q.Putting r := by
  unfold cancelPut at h
  split_ifs at h
  · exact putting_leave.1 (putting_wakeupNext h)
  · exact putting_leave.1 h

/-- A property of a queue that concerns the task `r`: the items have no part in it, and it comes to hold
only when `r` begins to wait. -/
structure Concerns (r : ℕ) (I : Queue α → Prop) : Prop where
  items : ∀ {q : Queue α} {l : List α}, I { q with items := l } → I q
  wakeupNext : ∀ {q : Queue α}, I q.wakeupNext → I q
  leave : ∀ {q : Queue α} {p : ℕ}, I (q.leave p) → I q
  wait : ∀ {q : Queue α} {p : ℕ}, I (q.wait p) → I q ∨ r = p

namespace Concerns

theorem putting (r : ℕ) : Concerns r fun q : Queue α => q.Putting r where
  items := id
  wakeupNext := putting_wakeupNext
  leave h := (putting_leave.1 h).2
  wait := putting_wait

theorem putters (r : ℕ) : Concerns r fun q : Queue α => r ∈ q.putters where
  items := id
  wakeupNext := mem_putters_wakeupNext
  leave h := (List.mem_filter.1 h).1
  wait h := (List.mem_append.1 h).imp_right List.mem_singleton.1

variable {I : Queue α → Prop} (hI : Concerns r I)

include hI

theorem push (h : I (q.push a)) : I q := hI.items h

theorem getNowait {q' : Queue α} (hq : q.getNowait = some (a, q')) (h : I q') : I q := by
  unfold Queue.getNowait at hq
  split at hq
  · cases hq
  · cases hq
    exact hI.items (hI.wakeupNext h)

theorem cancelPut (h : I (q.cancelPut p)) : I q := by
  unfold Queue.cancelPut at h
  split_ifs at h
  · exact hI.leave (hI.wakeupNext h)
  · exact hI.leave h

end Concerns

end Queue

/-- Permits, with the tasks that wait for one and those that were granted one and are due to run. -/
structure Semaphore where
  value : ℕ := 0
  waiters : List ℕ := []
  granted : List ℕ := []

namespace Semaphore

variable (s : Semaphore)

def Locked : Prop := s.value = 0 ∨ s.waiters ≠ [] ∨ s.granted ≠ []

instance : Decidable s.Locked := inferInstanceAs (Decidable (_ ∨ _ ∨ _))

/-- As many of the waiting tasks as there are permits are granted one. -/
def wakeup (n : ℕ) : Semaphore :=
  let k := min n (min s.value s.waiters.length)
  { value := s.value - k
    waiters := s.waiters.drop k
    granted := s.granted ++ s.waiters.take k }

def release : Semaphore := { s with value := s.value + 1 }.wakeup 1

/-- `acquire`, with whether the permit was there. -/
def acquire (p : ℕ) : Bool × Semaphore :=
  if s.Locked then (false, { s with waiters := s.waiters ++ [p] })
  else (true, { s with value := s.value - 1 })

/-- An `acquire` that goes on with its permit. -/
def resume (p : ℕ) : Semaphore :=
  { s with granted := s.granted.filter (· ≠ p) }.wakeup s.value

/-- An `acquire` that is cancelled. It gives back the permit that it was granted. -/
def cancel (p : ℕ) : Semaphore :=
  if p ∈ s.granted then
    { s with value := s.value + 1, granted := s.granted.filter (· ≠ p) }.wakeup (s.value + 1)
  else { s with waiters := s.waiters.filter (· ≠ p) }.wakeup s.value

/-- The tasks in the middle of an `acquire`, in order. -/
def line : List ℕ := s.granted ++ s.waiters

/-- The permits, with those that were granted to a task which has not gone on with its own. -/
def permits : ℕ := s.value + s.granted.length

/-- No task is in the middle of an `acquire` twice, and none waits while there is a permit, unless one that
was granted its own is about to pass the rest on. -/
structure Fair : Prop where
  nodup : s.line.Nodup
  passing : s.waiters ≠ [] → s.value = 0 ∨ s.granted ≠ []

variable {s} {p q : ℕ}

@[simp] theorem line_wakeup (n : ℕ) : (s.wakeup n).line = s.line := by
  simp [wakeup, line, List.append_assoc]

@[simp] theorem permits_wakeup (n : ℕ) : (s.wakeup n).permits = s.permits := by
  simp only [wakeup, permits, List.length_append, List.length_take]
  omega

/-- After a wake-up of at least one task, none waits with a permit there. -/
theorem passing_wakeup {n : ℕ} (hn : 0 < n) (h : (s.wakeup n).waiters ≠ []) :
    (s.wakeup n).value = 0 ∨ (s.wakeup n).granted ≠ [] := by
  simp only [wakeup, ne_eq, List.drop_eq_nil_iff, List.append_eq_nil_iff, List.take_eq_nil_iff,
    Nat.not_le] at h ⊢
  by_cases empty : s.value = 0
  · exact .inl (by omega)
  · refine .inr fun none => ?_
    rcases none.2 with zero | nil
    · omega
    · rw [nil, List.length_nil] at h
      omega

@[simp] theorem line_release : s.release.line = s.line := line_wakeup 1

@[simp] theorem permits_release : s.release.permits = s.permits + 1 := by
  rw [release, permits_wakeup]
  simp only [permits]
  omega

theorem Fair.release (h : s.Fair) : s.release.Fair := by
  refine ⟨?_, passing_wakeup Nat.one_pos⟩
  rw [line_release]
  exact h.nodup

theorem line_acquire : (s.acquire p).2.line = if s.Locked then s.line ++ [p] else s.line := by
  rw [acquire]
  split_ifs
  · exact (List.append_assoc ..).symm
  · rfl

theorem permits_acquire : (s.acquire p).2.permits + (if s.Locked then 0 else 1) = s.permits := by
  rw [acquire]
  split_ifs with locked
  · rfl
  · simp only [Locked, not_or] at locked
    simp only [permits]
    omega

theorem Fair.acquire (h : s.Fair) (hp : p ∉ s.line) : (s.acquire p).2.Fair := by
  refine ⟨?_, ?_⟩
  · rw [line_acquire]
    split_ifs
    · exact List.nodup_append.2 ⟨h.nodup, List.nodup_singleton p, fun q hq r hr => by
        rw [List.mem_singleton.1 hr]
        exact fun same => hp (same ▸ hq)⟩
    · exact h.nodup
  · rw [Semaphore.acquire]
    split_ifs with locked
    · intro _
      rcases locked with none | waiting | granted
      · exact .inl none
      · exact h.passing waiting
      · exact .inr granted
    · simp only [Locked, not_or, not_not] at locked
      exact fun waiting => absurd locked.2.1 waiting

theorem length_filter_ne {l : List ℕ} (h : l.Nodup) (hp : p ∈ l) :
    (l.filter (· ≠ p)).length + 1 = l.length := by
  have perm := List.perm_cons_erase hp
  rw [perm.length_eq, List.length_cons, h.erase_eq_filter]
  exact congrArg (List.length · + 1) (List.filter_congr fun q _ => by simp [bne, beq_eq_decide])

/-- A task leaves the line from its first part. -/
theorem filter_append {l l' : List ℕ} (h : (l ++ l').Nodup) (hp : p ∈ l) :
    l.filter (· ≠ p) ++ l' = (l ++ l').filter (· ≠ p) := by
  rw [List.filter_append, List.append_cancel_left_eq]
  refine (List.filter_eq_self.2 fun q hq => ?_).symm
  have ne : q ≠ p := fun same => (List.nodup_append.1 h).2.2 p hp q hq same.symm
  simpa using ne

theorem line_resume (h : s.Fair) (hp : p ∈ s.granted) : (s.resume p).line = s.line.filter (· ≠ p) := by
  rw [resume, line_wakeup]
  exact filter_append h.nodup hp

theorem permits_resume (h : s.Fair) (hp : p ∈ s.granted) : (s.resume p).permits + 1 = s.permits := by
  have fewer := length_filter_ne (List.Nodup.of_append_left h.nodup) hp
  rw [resume, permits_wakeup]
  simp only [permits]
  omega

theorem Fair.resume (h : s.Fair) (hp : p ∈ s.granted) : (s.resume p).Fair := by
  refine ⟨?_, ?_⟩
  · rw [line_resume h hp]
    exact h.nodup.filter _
  · by_cases none : s.value = 0
    · intro _
      exact .inl (by simp [Semaphore.resume, wakeup, none])
    · exact passing_wakeup (Nat.pos_of_ne_zero none)

theorem line_cancel (h : s.Fair) : (s.cancel p).line = s.line.filter (· ≠ p) := by
  rw [cancel]
  split_ifs with granted
  · rw [line_wakeup]
    exact filter_append h.nodup granted
  · rw [line_wakeup, line, line, List.filter_append]
    refine congrArg (· ++ _) (List.filter_eq_self.2 fun q hq => ?_).symm
    have ne : q ≠ p := fun same => granted (same ▸ hq)
    simpa using ne

theorem permits_cancel (h : s.Fair) : (s.cancel p).permits = s.permits := by
  rw [cancel]
  split_ifs with granted
  · have fewer := length_filter_ne (List.Nodup.of_append_left h.nodup) granted
    rw [permits_wakeup]
    simp only [permits]
    omega
  · exact permits_wakeup _

theorem Fair.cancel (h : s.Fair) : (s.cancel p).Fair := by
  refine ⟨?_, ?_⟩
  · rw [line_cancel h]
    exact h.nodup.filter _
  · rw [Semaphore.cancel]
    split_ifs with granted
    · exact passing_wakeup (Nat.succ_pos _)
    · by_cases none : s.value = 0
      · intro _
        exact .inl (by simp [wakeup, none])
      · exact passing_wakeup (Nat.pos_of_ne_zero none)

end Semaphore

end Asyncio
