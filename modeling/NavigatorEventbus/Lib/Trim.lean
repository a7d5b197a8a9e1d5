import Mathlib.Data.List.DropRight

/-!
# Trimming

A list without the elements of some kind at both of its ends, as `strip` leaves a text.  Trimming twice changes
nothing more, but trimming elements of one kind may leave elements of another kind at the ends.
-/

namespace Trim

variable {α : Type*} {P : α → Bool} {s : List α}

/-- The list without the elements with a property at its ends. -/
def trim (P : α → Bool) (s : List α) : List α := (s.dropWhile P).rdropWhile P

/-- The list does not end with an element of that kind. -/
def TrimmedEnd (P : α → Bool) (s : List α) : Prop := ∀ c, s.getLast? = some c → P c = false

theorem rdropWhile_eq_self_of_trimmedEnd (h : TrimmedEnd P s) : s.rdropWhile P = s := by
  rw [List.rdropWhile_eq_self_iff]
  intro ne all
  rw [h _ (List.getLast?_eq_some_getLast ne)] at all
  cases all

theorem trimmedEnd_rdropWhile (s : List α) : TrimmedEnd P (s.rdropWhile P) := by
  intro c last
  have ne : s.rdropWhile P ≠ [] := by
    rintro nil
    rw [nil] at last
    cases last
  rw [List.getLast?_eq_some_getLast ne, Option.some_inj] at last
  have kept := List.rdropWhile_last_not P s ne
  rw [last] at kept
  exact Bool.eq_false_iff.2 kept

theorem trimmedEnd_trim (s : List α) : TrimmedEnd P (trim P s) := trimmedEnd_rdropWhile _

theorem trim_sublist (s : List α) : (trim P s).Sublist s :=
  (List.rdropWhile_prefix P _).sublist.trans (List.dropWhile_suffix P).sublist

/-- A list that begins with a kept element is only trimmed at its end. -/
theorem trim_cons {c : α} (h : P c = false) (s : List α) : trim P (c :: s) = (c :: s).rdropWhile P := by
  rw [trim, List.dropWhile_cons_of_neg (by simp [h])]

/-- A trimmed list is trimmed. -/
theorem trim_trim (s : List α) : trim P (trim P s) = trim P s := by
  have first : (trim P s).dropWhile P = trim P s := by
    rw [List.dropWhile_eq_self_iff]
    intro pos all
    have before : (trim P s) <+: s.dropWhile P := List.rdropWhile_prefix P _
    have ne : 0 < (s.dropWhile P).length := pos.trans_le before.length_le
    have same : (trim P s)[0] = (s.dropWhile P)[0] := before.getElem pos
    rw [same] at all
    exact List.dropWhile_get_zero_not P s ne all
  rw [trim, first]
  exact rdropWhile_eq_self_of_trimmedEnd (trimmedEnd_trim s)

end Trim
