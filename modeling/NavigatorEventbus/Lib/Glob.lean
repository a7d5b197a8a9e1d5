import Mathlib.Data.List.Basic
import Mathlib.Data.List.Infix

/-!
# Glob patterns

Patterns of characters, `?`, `*`, classes such as `[a-z]` or `[^xy]`, and `\` before a character that is
meant as it is.  A class that is not closed ends with the pattern.
-/

namespace Glob

/-- One part of a pattern. -/
inductive Token where
  | lit (c : Char)
  | any
  | star
  | cls (negated : Bool) (ranges : List (Char × Char))
  deriving DecidableEq

mutual

/-- The parts of a pattern. -/
def tokens : List Char → List Token
  | [] => []
  | '*' :: rest => .star :: tokens rest
  | '?' :: rest => .any :: tokens rest
  | '[' :: '^' :: rest => inClass true [] rest
  | '[' :: rest => inClass false [] rest
  | '\\' :: c :: rest => .lit c :: tokens rest
  | c :: rest => .lit c :: tokens rest

/-- The parts of a pattern from within a class. -/
def inClass (negated : Bool) (ranges : List (Char × Char)) : List Char → List Token
  | [] => [.cls negated ranges]
  | '\\' :: c :: rest => inClass negated ((c, c) :: ranges) rest
  | ']' :: rest => .cls negated ranges :: tokens rest
  | a :: '-' :: b :: rest => inClass negated ((a, b) :: ranges) rest
  | a :: rest => inClass negated ((a, a) :: ranges) rest

end

/-- The part matches one character; a class may have its ranges the wrong way round. -/
def Token.accepts (c : Char) : Token → Bool
  | lit a => a = c
  | any => true
  | star => false
  | cls negated ranges =>
    negated != ranges.any fun r => (r.1 ≤ c && c ≤ r.2) || (r.2 ≤ c && c ≤ r.1)

/-- The parts match the text. -/
def matchTokens : List Token → List Char → Bool
  | [], s => s.isEmpty
  | .star :: ts, s => s.tails.any fun s' => matchTokens ts s'
  | _ :: _, [] => false
  | t :: ts, c :: s => t.accepts c && matchTokens ts s

/-- The pattern matches the text. -/
def Matches (pattern s : List Char) : Prop := matchTokens (tokens pattern) s = true

instance (pattern s : List Char) : Decidable (Matches pattern s) := inferInstanceAs (Decidable (_ = true))

/-- A character that stands for itself wherever it is in a pattern. -/
def Plain (c : Char) : Prop := c ≠ '*' ∧ c ≠ '?' ∧ c ≠ '[' ∧ c ≠ '\\'

instance (c : Char) : Decidable (Plain c) := inferInstanceAs (Decidable (_ ∧ _))

/-- The pattern still matches when the text goes on. -/
def Open (pattern : List Char) : Prop := ∃ ts, tokens pattern = ts ++ [.star]

theorem matchTokens_star (s : List Char) : matchTokens [.star] s = true := by
  simp only [matchTokens, List.any_eq_true]
  exact ⟨[], by simp, rfl⟩

theorem matchTokens_append {ts : List Token} {s : List Char} (h : matchTokens (ts ++ [.star]) s = true)
    (w : List Char) : matchTokens (ts ++ [.star]) (s ++ w) = true := by
  induction ts generalizing s with
  | nil => exact matchTokens_star _
  | cons t ts ih =>
    cases t with
    | star =>
      simp only [List.cons_append, matchTokens, List.any_eq_true, List.mem_tails] at h ⊢
      obtain ⟨s', ⟨u, hu⟩, h⟩ := h
      exact ⟨s' ++ w, ⟨u, by rw [← List.append_assoc, hu]⟩, ih h⟩
    | _ =>
      cases s with
      | nil => simp [matchTokens] at h
      | cons c s =>
        simp only [List.cons_append, matchTokens, Bool.and_eq_true] at h ⊢
        exact ⟨h.1, ih h.2⟩

/-- An open pattern matches every continuation of a text that it matches. -/
theorem Matches.append {pattern s : List Char} (hopen : Open pattern) (h : Matches pattern s)
    (w : List Char) : Matches pattern (s ++ w) := by
  obtain ⟨ts, hts⟩ := hopen
  unfold Matches at h ⊢
  rw [hts] at h ⊢
  exact matchTokens_append h w

theorem tokens_plain {s : List Char} (h : ∀ c ∈ s, Plain c) (rest : List Char) :
    tokens (s ++ rest) = s.map .lit ++ tokens rest := by
  induction s with
  | nil => rfl
  | cons c s ih =>
    obtain ⟨⟨star, any, cls, escape⟩, hs⟩ := List.forall_mem_cons.1 h
    rw [List.cons_append, tokens]
    · rw [ih hs, List.map_cons, List.cons_append]
    all_goals intros; contradiction

theorem tokens_plain_star {s : List Char} (h : ∀ c ∈ s, Plain c) :
    tokens (s ++ ['*']) = s.map .lit ++ [.star] := by
  rw [tokens_plain h, tokens, tokens]

theorem open_plain {s : List Char} (h : ∀ c ∈ s, Plain c) : Open (s ++ ['*']) :=
  ⟨_, tokens_plain_star h⟩

/-- A plain text before a `*` is a prefix. -/
theorem matches_plain_star {s t : List Char} (h : ∀ c ∈ s, Plain c) : Matches (s ++ ['*']) t ↔ s <+: t := by
  unfold Matches
  rw [tokens_plain_star h]
  clear h
  induction s generalizing t with
  | nil => simp [matchTokens_star]
  | cons c s ih =>
    cases t with
    | nil => simp [matchTokens]
    | cons d t =>
      simp only [List.map_cons, List.cons_append, matchTokens, Token.accepts, Bool.and_eq_true,
        decide_eq_true_eq, List.cons_prefix_cons, ih]

end Glob
