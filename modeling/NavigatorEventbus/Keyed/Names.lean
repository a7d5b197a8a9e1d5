import NavigatorEventbus.Queues.Names

/-!
# The keys of two keyed queues

A Redis key of a keyed queue (`_Keys` in `queues/keyed/store.py`) is the base of the queue, a role, and for
four of the roles a separator with a key or a message id.  No role contains the separator, so the keys of one
queue are told apart by the text up to the first separator.  The name in the base is free text too
(`KeyedQueueConfig` checks nothing of it), and two queues meet when the name of one goes on from the other's as
one of its own keys does (`Inside`).
-/

namespace NavigatorEventbus

/-! ## Roles and arguments -/

/-- The roles of which a queue has one key. -/
def closedRoles : List Text :=
  ["delayed".toList, "held".toList, "keys".toList, "all".toList, "paused".toList, "recover".toList,
    "lastscore".toList]

/-- The roles that free text follows. -/
def openRoles : List Text := ["sig".toList, "key".toList, "msg".toList, "lock".toList]

namespace KeyName

/-- The word that follows the base. -/
def role : KeyName → Text
  | delayed => "delayed".toList
  | held => "held".toList
  | keys => "keys".toList
  | all => "all".toList
  | paused => "paused".toList
  | recover => "recover".toList
  | lastscore => "lastscore".toList
  | sig _ => "sig".toList
  | key _ => "key".toList
  | msg _ => "msg".toList
  | lock _ => "lock".toList

/-- The free text after the role. -/
def arg : KeyName → Option Text
  | sig k => some k
  | key k => some k
  | msg messageId => some messageId
  | lock k => some k
  | _ => none

/-- The key with the given role and free text. -/
def ofParts (role : Text) : Option Text → Option KeyName
  | none =>
    [delayed, held, keys, all, paused, recover, lastscore].find? fun k => k.role = role
  | some t => [sig t, key t, msg t, lock t].find? fun k => k.role = role

/-- The keys of the operations: `push` replaces an empty message id. -/
def Accepted : KeyName → Prop
  | msg messageId => messageId ≠ []
  | _ => True

variable {k k' : KeyName}

theorem ofParts_role_arg (k : KeyName) : ofParts k.role k.arg = some k := by
  cases k <;> rfl

theorem suffix_of_arg_none (h : k.arg = none) : k.suffix = k.role := by
  cases k <;> first | rfl | cases h

theorem suffix_of_arg_some {t : Text} (h : k.arg = some t) : k.suffix = k.role ++ ':' :: t := by
  cases k <;> cases h <;> rfl

theorem role_mem_roles (k : KeyName) : k.role ∈ closedRoles ++ openRoles := by
  cases k <;> exact List.mem_of_elem_eq_true rfl

/-- A key with free text has one of the open roles. -/
theorem role_mem_openRoles {t : Text} (h : k.arg = some t) : k.role ∈ openRoles := by
  cases k <;> first | (cases h; done) | exact List.mem_of_elem_eq_true rfl

theorem not_mem_role (k : KeyName) : ':' ∉ k.role := by
  have plain : ∀ role ∈ closedRoles ++ openRoles, ':' ∉ role := by decide
  exact plain _ k.role_mem_roles

theorem suffix_ne_nil (k : KeyName) : k.suffix ≠ [] := by
  have some : ∀ role ∈ closedRoles ++ openRoles, role ≠ [] := by decide
  cases harg : k.arg with
  | none =>
    rw [suffix_of_arg_none harg]
    exact some _ k.role_mem_roles
  | some t =>
    rw [suffix_of_arg_some harg]
    simp

theorem eq_of_parts (role : k.role = k'.role) (arg : k.arg = k'.arg) : k = k' := by
  have h := ofParts_role_arg k
  rw [role, arg, ofParts_role_arg k'] at h
  exact (Option.some.inj h).symm

end KeyName

/-! ## The first separator -/

section Separator

variable {α : Type} {sep : α} {a b x y : List α}

/-- Texts with a separator are equal when they are up to the first one and after it. -/
theorem append_sep_inj (ha : sep ∉ a) (hb : sep ∉ b) (h : a ++ sep :: x = b ++ sep :: y) :
    a = b ∧ x = y := by
  induction a generalizing b with
  | nil =>
    cases b with
    | nil => exact ⟨rfl, (List.cons.inj h).2⟩
    | cons d b => exact absurd (List.mem_cons.2 (.inl (List.cons.inj h).1)) hb
  | cons c a ih =>
    cases b with
    | nil => exact absurd (List.mem_cons.2 (.inl (List.cons.inj h).1.symm)) ha
    | cons d b =>
      obtain ⟨rfl, rest⟩ := List.cons.inj h
      obtain ⟨rfl, hxy⟩ :=
        ih (fun hs => ha (List.mem_cons_of_mem _ hs)) (fun hs => hb (List.mem_cons_of_mem _ hs)) rest
      exact ⟨rfl, hxy⟩

/-- Where a text goes on from a separator, its part before the first one lies before that. -/
theorem append_sep_split (ha : sep ∉ a) (h : a ++ sep :: x = b ++ sep :: y) :
    a ++ [sep] <+: b ++ [sep] := by
  have whole : a ++ [sep] <+: b ++ sep :: y := ⟨x, by rw [← h, List.append_assoc]; rfl⟩
  have short : b ++ [sep] <+: b ++ sep :: y := ⟨y, by rw [List.append_assoc]; rfl⟩
  rcases List.prefix_or_prefix_of_prefix whole short with first | later
  · exact first
  · -- `b` ends in a separator before `a` does
    rcases List.prefix_concat_iff.1 later with eq | inside
    · rw [eq]
    · exact absurd (inside.subset (by simp)) ha

end Separator

namespace KeyName

/-- The keys of one queue are told apart by what follows the base. -/
theorem suffix_injective : Function.Injective suffix := by
  intro k k' h
  cases harg : k.arg with
  | none =>
    rw [suffix_of_arg_none harg] at h
    cases harg' : k'.arg with
    | none =>
      rw [suffix_of_arg_none harg'] at h
      exact eq_of_parts h (harg.trans harg'.symm)
    | some t' =>
      rw [suffix_of_arg_some harg'] at h
      exact absurd (h ▸ by simp) k.not_mem_role
  | some t =>
    rw [suffix_of_arg_some harg] at h
    cases harg' : k'.arg with
    | none =>
      rw [suffix_of_arg_none harg'] at h
      exact absurd (h ▸ by simp) k'.not_mem_role
    | some t' =>
      rw [suffix_of_arg_some harg'] at h
      obtain ⟨role, rfl⟩ := append_sep_inj k.not_mem_role k'.not_mem_role h
      exact eq_of_parts role (harg.trans harg'.symm)

theorem text_injective (keyedPrefix name : Text) : Function.Injective (text keyedPrefix name) := by
  intro k k' h
  have base : ':' :: k.suffix = ':' :: k'.suffix :=
    List.append_cancel_left (List.append_cancel_left h)
  exact suffix_injective (List.cons.inj base).2

end KeyName

/-! ## Two queues -/

/-- `inner` goes on from `outer` with a separator and an open role, and ends there or has another
separator next. -/
def Inside (outer inner : Text) : Prop :=
  ∃ role ∈ openRoles, outer ++ ':' :: (role ++ [':']) <+: inner ++ [':']

instance (outer inner : Text) : Decidable (Inside outer inner) :=
  inferInstanceAs (Decidable (∃ role ∈ openRoles, outer ++ ':' :: (role ++ [':']) <+: inner ++ [':']))

/-- No Redis key of one queue is one of the other, and within each queue the keys of different roles, keys
or message ids are different. -/
structure NamesApart (keyedPrefix name name' : Text) : Prop where
  between : ∀ k k' : KeyName, k.Accepted → k'.Accepted →
    k.text keyedPrefix name ≠ k'.text keyedPrefix name'
  within : Function.Injective (KeyName.text keyedPrefix name)
  within' : Function.Injective (KeyName.text keyedPrefix name')

variable {keyedPrefix name name' : Text}

/-- The longer of two names whose keys meet goes on from the shorter one. -/
theorem inside_of_text_eq {k k' : KeyName} {rest : Text} (longer : name' = name ++ rest)
    (distinct : name ≠ name') (h : k.text keyedPrefix name = k'.text keyedPrefix name') :
    Inside name name' := by
  subst longer
  have tail : ':' :: k.suffix = rest ++ ':' :: k'.suffix := by
    have whole := List.append_cancel_left h
    rw [List.append_assoc] at whole
    exact List.append_cancel_left whole
  cases rest with
  | nil => exact absurd (List.append_nil name).symm distinct
  | cons c rest =>
    obtain ⟨rfl, htail⟩ := List.cons.inj tail
    cases harg : k.arg with
    | none =>
      rw [KeyName.suffix_of_arg_none harg] at htail
      exact absurd (htail ▸ by simp) k.not_mem_role
    | some t =>
      rw [KeyName.suffix_of_arg_some harg] at htail
      refine ⟨k.role, KeyName.role_mem_openRoles harg, ?_⟩
      rw [List.append_assoc, List.prefix_append_right_inj, List.cons_append, List.cons_prefix_cons]
      exact ⟨rfl, append_sep_split k.not_mem_role htail⟩

/-- With a name inside another, every key of the inner queue is one of the outer. -/
theorem Inside.meets (h : Inside name name') (k' : KeyName) :
    ∃ k : KeyName, k.Accepted ∧ k.text keyedPrefix name = k'.text keyedPrefix name' := by
  obtain ⟨role, hrole, rest, hrest⟩ := h
  -- what follows the role and its separator
  have tail : name' ++ ':' :: k'.suffix = name ++ ':' :: (role ++ ':' :: (rest ++ k'.suffix)) := by
    calc name' ++ ':' :: k'.suffix = (name' ++ [':']) ++ k'.suffix := by simp
      _ = (name ++ ':' :: (role ++ [':']) ++ rest) ++ k'.suffix := by rw [hrest]
      _ = name ++ ':' :: (role ++ ':' :: (rest ++ k'.suffix)) := by simp
  have nonempty : rest ++ k'.suffix ≠ [] := List.append_ne_nil_of_right_ne_nil _ k'.suffix_ne_nil
  have found : ∃ k : KeyName, k.Accepted ∧ k.suffix = role ++ ':' :: (rest ++ k'.suffix) := by
    simp only [openRoles, List.mem_cons, List.not_mem_nil, or_false] at hrole
    rcases hrole with rfl | rfl | rfl | rfl
    · exact ⟨.sig (rest ++ k'.suffix), trivial, KeyName.suffix_of_arg_some rfl⟩
    · exact ⟨.key (rest ++ k'.suffix), trivial, KeyName.suffix_of_arg_some rfl⟩
    · exact ⟨.msg (rest ++ k'.suffix), nonempty, KeyName.suffix_of_arg_some rfl⟩
    · exact ⟨.lock (rest ++ k'.suffix), trivial, KeyName.suffix_of_arg_some rfl⟩
  obtain ⟨k, accepted, hk⟩ := found
  refine ⟨k, accepted, ?_⟩
  rw [KeyName.text, KeyName.text, hk, tail]

theorem names_apart_iff (keyedPrefix : Text) {name name' : Text} (distinct : name ≠ name') :
    NamesApart keyedPrefix name name' ↔ ¬ Inside name name' ∧ ¬ Inside name' name := by
  constructor
  · refine fun apart => ⟨fun inside => ?_, fun inside => ?_⟩
    · obtain ⟨k, accepted, h⟩ := @Inside.meets keyedPrefix _ _ inside .delayed
      exact apart.between k .delayed accepted trivial h
    · obtain ⟨k, accepted, h⟩ := @Inside.meets keyedPrefix _ _ inside .delayed
      exact apart.between .delayed k trivial accepted h.symm
  · rintro ⟨outside, outside'⟩
    refine ⟨fun k k' _ _ h => ?_, KeyName.text_injective _ _, KeyName.text_injective _ _⟩
    have whole : name ++ ':' :: k.suffix = name' ++ ':' :: k'.suffix := List.append_cancel_left h
    rcases List.append_eq_append_iff.1 whole with ⟨rest, longer, -⟩ | ⟨rest, longer, -⟩
    · exact outside (inside_of_text_eq longer distinct h)
    · exact outside' (inside_of_text_eq longer distinct.symm h.symm)

theorem names_apart_orders :
    NamesApart defaultKeyedPrefix "orders".toList "orders:archive".toList :=
  (names_apart_iff _ (by decide)).2 ⟨by decide, by decide⟩

/-- The due keys of the queue `orders:key` are the index of the key `delayed` of the queue `orders`. -/
theorem names_meet : ¬ ∀ keyedPrefix name name' : Text, name ≠ name' →
    NamesApart keyedPrefix name name' := by
  intro h
  have apart := h defaultKeyedPrefix "orders".toList "orders:key".toList (by decide)
  exact apart.between (.key "delayed".toList) .delayed trivial trivial rfl

end NavigatorEventbus
