import NavigatorEventbus.Lib.Glob

/-!
# File name patterns

The patterns of `fnmatch` on a system whose file names are taken as they are: `?`, `*` and classes such as
`[a-z]` or `[!xy]`.  A `[` that no `]` closes stands for itself, and so does a `\` everywhere.
-/

namespace Fnmatch

open Glob

/-- The characters of a class: single ones, and ranges; a range the wrong way round is empty. -/
def ranges : List Char → List (Char × Char)
  | a :: '-' :: b :: rest => if a ≤ b then (a, b) :: ranges rest else ranges rest
  | a :: rest => (a, a) :: ranges rest
  | [] => []

/-- The class between `[` and the `]` that closes it, with what follows. A `]` does not close the class
when it is its first character. -/
def splitClass (s : List Char) : Option (List Char × List Char) :=
  let (start, s) :=
    match s with
    | '!' :: ']' :: s => (['!', ']'], s)
    | '!' :: s => (['!'], s)
    | ']' :: s => ([']'], s)
    | s => ([], s)
  match s.span (· ≠ ']') with
  | (_, []) => none
  | (cls, _ :: rest) => some (start ++ cls, rest)

/-- The part that a class stands for. -/
def classToken : List Char → Token
  | '!' :: cls => .cls true (ranges cls)
  | cls => .cls false (ranges cls)

/-- The parts of a pattern of at most `n` characters. -/
def tokens : ℕ → List Char → List Token
  | 0, _ => []
  | _, [] => []
  | n + 1, '*' :: rest => .star :: tokens n rest
  | n + 1, '?' :: rest => .any :: tokens n rest
  | n + 1, '[' :: rest =>
    match splitClass rest with
    | some (cls, rest) => classToken cls :: tokens n rest
    | none => .lit '[' :: tokens n rest
  | n + 1, c :: rest => .lit c :: tokens n rest

/-- `fnmatch.fnmatch`. -/
def fnmatch (name pattern : List Char) : Bool := matchTokens (tokens pattern.length pattern) name

example : fnmatch "order.created".toList "order.*".toList = true ∧
    fnmatch "a]".toList "[]!-a][!b-x]".toList = true ∧ fnmatch "[a".toList "[a".toList = true := by
  decide

/-- The pattern has a class. -/
def HasClass (pattern : List Char) : Prop :=
  ∃ negated ranges, .cls negated ranges ∈ tokens pattern.length pattern

theorem splitClass_close {start s cls rest : List Char}
    (h : (match s.span (· ≠ ']') with
      | (_, []) => none
      | (cls, _ :: rest) => some (start ++ cls, rest)) = some (cls, rest)) :
    start ++ s = cls ++ ']' :: rest := by
  rw [List.span_eq_takeWhile_dropWhile] at h
  have whole : s.takeWhile (· ≠ ']') ++ s.dropWhile (· ≠ ']') = s := List.takeWhile_append_dropWhile
  cases left : s.dropWhile (· ≠ ']') with
  | nil =>
    rw [left] at h
    cases h
  | cons c s' =>
    have closed : c = ']' := by
      have first := List.head_dropWhile_not (l := s) (fun c : Char => decide (c ≠ ']')) (by rw [left]; simp)
      simp only [left, List.head_cons] at first
      simpa using first
    subst closed
    rw [left] at h whole
    obtain ⟨rfl, rfl⟩ := Prod.mk.inj (Option.some.inj h)
    rw [List.append_assoc, whole]

/-- What a class and its end are cut from. -/
theorem splitClass_spec {s cls rest : List Char} (h : splitClass s = some (cls, rest)) :
    s = cls ++ ']' :: rest := by
  unfold splitClass at h
  split at h
  rename_i start s' parts
  have same : s = start ++ s' := by
    split at parts <;> cases parts <;> rfl
  rw [same]
  exact splitClass_close h

theorem matchTokens_lits (s name : List Char) : matchTokens (s.map .lit) name = true ↔ name = s := by
  induction s generalizing name with
  | nil => simp [matchTokens]
  | cons c s ih =>
    cases name with
    | nil => simp [matchTokens]
    | cons a name =>
      have step : matchTokens ((c :: s).map .lit) (a :: name) =
          (decide (c = a) && matchTokens (s.map .lit) name) := rfl
      rw [step, Bool.and_eq_true, ih, List.cons.injEq]
      exact and_congr_left' (decide_eq_true_iff.trans eq_comm)

/-- Without `*` each part matches one character. -/
theorem length_of_matchTokens {ts : List Token} {name : List Char} (h : matchTokens ts name = true)
    (plain : .star ∉ ts) : name.length = ts.length := by
  induction ts generalizing name with
  | nil =>
    rw [matchTokens, List.isEmpty_iff] at h
    rw [h]
    rfl
  | cons t ts ih =>
    rw [List.mem_cons, not_or] at plain
    cases name with
    | nil =>
      cases t <;> first | exact absurd rfl plain.1 | cases h
    | cons a name =>
      have rest : matchTokens ts name = true := by
        cases t <;> first | exact absurd rfl plain.1 | exact (Bool.and_eq_true_iff.1 h).2
      rw [List.length_cons, List.length_cons, ih rest plain.2]

/-- Parts that match one character each: the characters of a pattern if there is no class among them, otherwise
fewer than its characters. -/
structure Spells (ts : List Token) (pattern : List Char) : Prop where
  star : .star ∉ ts
  length_le : ts.length ≤ pattern.length
  shorter : (∃ negated ranges, .cls negated ranges ∈ ts) → ts.length < pattern.length
  lits : (∀ negated ranges, .cls negated ranges ∉ ts) → ts = pattern.map .lit

theorem Spells.lit {ts : List Token} {pattern : List Char} (h : Spells ts pattern) (c : Char) :
    Spells (.lit c :: ts) (c :: pattern) where
  star mem := by
    rcases List.mem_cons.1 mem with eq | mem
    · cases eq
    · exact h.star mem
  length_le := by
    have le := h.length_le
    simp only [List.length_cons]
    omega
  shorter := by
    rintro ⟨negated, ranges, mem⟩
    rcases List.mem_cons.1 mem with eq | mem
    · cases eq
    · have lt := h.shorter ⟨negated, ranges, mem⟩
      simp only [List.length_cons]
      omega
  lits none := by
    rw [h.lits fun negated ranges mem => none negated ranges (List.mem_cons_of_mem _ mem)]
    rfl

theorem Spells.cls {ts : List Token} {rest : List Char} (h : Spells ts rest) (cls : List Char) :
    Spells (classToken cls :: ts) ('[' :: (cls ++ ']' :: rest)) := by
  obtain ⟨negated, ranges, token⟩ : ∃ negated ranges, classToken cls = .cls negated ranges := by
    unfold classToken
    split
    · exact ⟨_, _, rfl⟩
    · exact ⟨_, _, rfl⟩
  have le := h.length_le
  rw [token]
  refine ⟨fun mem => ?_, ?_, fun _ => ?_, fun none => ?_⟩
  · rcases List.mem_cons.1 mem with eq | mem
    · cases eq
    · exact h.star mem
  · simp only [List.length_cons, List.length_append]
    omega
  · simp only [List.length_cons, List.length_append]
    omega
  · exact absurd (List.mem_cons_self ..) (none negated ranges)

theorem spells_tokens (n : ℕ) (pattern : List Char) (fuel : pattern.length ≤ n) (star : '*' ∉ pattern)
    (any : '?' ∉ pattern) : Spells (tokens n pattern) pattern := by
  induction n generalizing pattern with
  | zero =>
    rw [List.length_eq_zero_iff.1 (Nat.le_zero.1 fuel)]
    exact ⟨by simp [tokens], le_rfl, by simp [tokens], fun _ => rfl⟩
  | succ n ih =>
    cases pattern with
    | nil => exact ⟨by simp [tokens], le_rfl, by simp [tokens], fun _ => rfl⟩
    | cons c rest =>
      rw [List.mem_cons, not_or] at star any
      rw [List.length_cons] at fuel
      by_cases bracket : c = '['
      · subst bracket
        cases closed : splitClass rest with
        | none =>
          rw [tokens, closed]
          exact (ih rest (by omega) star.2 any.2).lit '['
        | some parts =>
          obtain ⟨cls, after⟩ := parts
          have cut := splitClass_spec closed
          have inside : ∀ a ∈ after, a ∈ rest := by
            intro a ha
            rw [cut]
            simp [ha]
          have length := congrArg List.length cut
          simp only [List.length_append, List.length_cons] at length
          rw [tokens, closed, cut]
          apply Spells.cls
          exact ih after (by omega) (fun mem => star.2 (inside _ mem)) fun mem => any.2 (inside _ mem)
      · have step : tokens (n + 1) (c :: rest) = .lit c :: tokens n rest := by
          rw [tokens]
          · rintro rfl
            exact star.1 rfl
          · rintro rfl
            exact any.1 rfl
          · exact bracket
        rw [step]
        exact (ih rest (by omega) star.2 any.2).lit c

/-- Without wild cards a pattern is the only text that it matches, unless it has a class. -/
theorem fnmatch_iff_eq {pattern : List Char} (star : '*' ∉ pattern) (any : '?' ∉ pattern)
    (plain : ¬HasClass pattern) (name : List Char) : fnmatch name pattern = true ↔ name = pattern := by
  have spells := spells_tokens pattern.length pattern le_rfl star any
  rw [fnmatch, spells.lits fun negated ranges mem => plain ⟨negated, ranges, mem⟩]
  exact matchTokens_lits pattern name

/-- With a class, but without wild cards, a pattern does not match itself. -/
theorem fnmatch_self {pattern : List Char} (star : '*' ∉ pattern) (any : '?' ∉ pattern)
    (cls : HasClass pattern) : fnmatch pattern pattern = false := by
  have spells := spells_tokens pattern.length pattern le_rfl star any
  by_contra found
  have length := length_of_matchTokens (eq_true_of_ne_false found) spells.star
  have shorter := spells.shorter cls
  omega

end Fnmatch
