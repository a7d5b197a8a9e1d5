import Mathlib.Data.Nat.Notation

/-!
# URL-safe base64

The unpadded encoding and the lenient decoder of `binascii.a2b_base64`: characters outside the alphabet
are skipped, decoding stops where the padding of a group is complete, and a group that ends without its
padding is an error.  The decoder inverts the encoder once the padding is restored.
-/

namespace Base64

/-- The character of a six-bit value. -/
def digit (n : ℕ) : Char :=
  if n < 26 then Char.ofNat ('A'.toNat + n)
  else if n < 52 then Char.ofNat ('a'.toNat + (n - 26))
  else if n < 62 then Char.ofNat ('0'.toNat + (n - 52))
  else if n = 62 then '-'
  else '_'

/-- The value of a character; both the URL-safe alphabet and the standard one are read. -/
def value (c : Char) : Option ℕ :=
  if 'A' ≤ c ∧ c ≤ 'Z' then some (c.toNat - 'A'.toNat)
  else if 'a' ≤ c ∧ c ≤ 'z' then some (c.toNat - 'a'.toNat + 26)
  else if '0' ≤ c ∧ c ≤ '9' then some (c.toNat - '0'.toNat + 52)
  else if c = '-' ∨ c = '+' then some 62
  else if c = '_' ∨ c = '/' then some 63
  else none

/-- The encoding, without padding. -/
def encode : List UInt8 → List Char
  | a :: b :: c :: rest =>
    digit (a.toNat / 4) :: digit (a.toNat % 4 * 16 + b.toNat / 16) ::
      digit (b.toNat % 16 * 4 + c.toNat / 64) :: digit (c.toNat % 64) :: encode rest
  | [a, b] =>
    [digit (a.toNat / 4), digit (a.toNat % 4 * 16 + b.toNat / 16), digit (b.toNat % 16 * 4)]
  | [a] => [digit (a.toNat / 4), digit (a.toNat % 4 * 16)]
  | [] => []

/-- The padding that completes `n` characters to groups of four. -/
def padding (n : ℕ) : List Char := List.replicate ((4 - n % 4) % 4) '='

/-- The decoder inside a group of which `quad` characters were read, the last `pads` of them padding,
with `left` the bits that wait for the next byte. -/
def decodeGroup (quad pads left : ℕ) : List Char → Option (List UInt8)
  | [] => if quad = 0 then some [] else none
  | c :: rest =>
    if c = '=' then
      if 2 ≤ quad then
        if 4 ≤ quad + (pads + 1) then some [] else decodeGroup quad (pads + 1) left rest
      else decodeGroup quad pads left rest
    else
      match value c with
      | none => decodeGroup quad pads left rest
      | some v =>
        match quad with
        | 0 => decodeGroup 1 0 v rest
        | 1 => (decodeGroup 2 0 (v % 16) rest).map (UInt8.ofNat (left * 4 + v / 16) :: ·)
        | 2 => (decodeGroup 3 0 (v % 4) rest).map (UInt8.ofNat (left * 16 + v / 4) :: ·)
        | _ => (decodeGroup 0 0 0 rest).map (UInt8.ofNat (left * 64 + v) :: ·)

/-- The decoder. -/
def decode (l : List Char) : Option (List UInt8) := decodeGroup 0 0 0 l

/-! ## Round trip -/

theorem value_digit {n : ℕ} (h : n < 64) : value (digit n) = some n ∧ digit n ≠ '=' := by
  have all : ∀ m : Fin 64, value (digit m) = some m.1 ∧ digit m ≠ '=' := by decide
  exact all ⟨n, h⟩

theorem digit_ascii {n : ℕ} (h : n < 64) : (digit n).toNat < 128 ∧ digit n ≠ '.' := by
  have all : ∀ m : Fin 64, (digit m).toNat < 128 ∧ digit m ≠ '.' := by decide
  exact all ⟨n, h⟩

section Digit

variable {n quad pads left : ℕ} {rest : List Char}

theorem decodeGroup_zero (h : n < 64) :
    decodeGroup 0 pads left (digit n :: rest) = decodeGroup 1 0 n rest := by
  obtain ⟨val, ne⟩ := value_digit h
  simp only [decodeGroup, if_neg ne, val]

theorem decodeGroup_one (h : n < 64) : decodeGroup 1 pads left (digit n :: rest) =
    (decodeGroup 2 0 (n % 16) rest).map (UInt8.ofNat (left * 4 + n / 16) :: ·) := by
  obtain ⟨val, ne⟩ := value_digit h
  simp only [decodeGroup, if_neg ne, val]

theorem decodeGroup_two (h : n < 64) : decodeGroup 2 pads left (digit n :: rest) =
    (decodeGroup 3 0 (n % 4) rest).map (UInt8.ofNat (left * 16 + n / 4) :: ·) := by
  obtain ⟨val, ne⟩ := value_digit h
  simp only [decodeGroup, if_neg ne, val]

theorem decodeGroup_three (h : n < 64) : decodeGroup 3 pads left (digit n :: rest) =
    (decodeGroup 0 0 0 rest).map (UInt8.ofNat (left * 64 + n) :: ·) := by
  obtain ⟨val, ne⟩ := value_digit h
  simp only [decodeGroup, if_neg ne, val]

end Digit

theorem ofNat_eq {a : UInt8} {n : ℕ} (h : n = a.toNat) : UInt8.ofNat n = a := by
  subst h
  exact UInt8.ofNat_toNat

theorem padding_succ (n : ℕ) : padding (n + 4) = padding n := by
  simp [padding]

/-- The encoding consists of digits. -/
theorem mem_encode {l : List UInt8} {c : Char} (h : c ∈ encode l) : c.toNat < 128 ∧ c ≠ '.' := by
  fun_induction encode l with
  | case1 a b d rest ih =>
    have ha := a.toNat_lt
    have hb := b.toNat_lt
    simp only [List.mem_cons] at h
    rcases h with rfl | rfl | rfl | rfl | h
    · exact digit_ascii (by omega)
    · exact digit_ascii (by omega)
    · have hd := d.toNat_lt
      exact digit_ascii (by omega)
    · exact digit_ascii (by omega)
    · exact ih h
  | case2 a b =>
    have ha := a.toNat_lt
    have hb := b.toNat_lt
    simp only [List.mem_cons, List.not_mem_nil, or_false] at h
    rcases h with rfl | rfl | rfl <;> exact digit_ascii (by omega)
  | case3 a =>
    have ha := a.toNat_lt
    simp only [List.mem_cons, List.not_mem_nil, or_false] at h
    rcases h with rfl | rfl <;> exact digit_ascii (by omega)
  | case4 => cases h

/-- The decoder inverts the encoder once the padding is restored. -/
theorem decode_encode (l : List UInt8) : decode (encode l ++ padding (encode l).length) = some l := by
  unfold decode
  fun_induction encode l with
  | case1 a b c rest ih =>
    have ha := a.toNat_lt
    have hb := b.toNat_lt
    have hc := c.toNat_lt
    simp only [List.length_cons, padding_succ, List.cons_append]
    rw [decodeGroup_zero (by omega), decodeGroup_one (by omega), decodeGroup_two (by omega),
      decodeGroup_three (by omega), ih]
    simp only [Option.map_some, Option.some.injEq, List.cons.injEq, and_true]
    refine ⟨ofNat_eq ?_, ofNat_eq ?_, ofNat_eq ?_⟩ <;> omega
  | case2 a b =>
    have ha := a.toNat_lt
    have hb := b.toNat_lt
    simp only [List.length_cons, List.length_nil, List.cons_append, List.nil_append]
    rw [decodeGroup_zero (by omega), decodeGroup_one (by omega), decodeGroup_two (by omega),
      show padding (0 + 1 + 1 + 1) = ['='] from rfl]
    have stop : ∀ left, decodeGroup 3 0 left ['='] = some [] := fun left => rfl
    simp only [stop, Option.map_some, Option.some.injEq, List.cons.injEq, and_true]
    refine ⟨ofNat_eq ?_, ofNat_eq ?_⟩ <;> omega
  | case3 a =>
    have ha := a.toNat_lt
    simp only [List.length_cons, List.length_nil, List.cons_append, List.nil_append]
    rw [decodeGroup_zero (by omega), decodeGroup_one (by omega),
      show padding (0 + 1 + 1) = ['=', '='] from rfl]
    have stop : ∀ left, decodeGroup 2 0 left ['=', '='] = some [] := fun left => rfl
    simp only [stop, Option.map_some, Option.some.injEq, List.cons.injEq, and_true]
    refine ofNat_eq ?_
    omega
  | case4 => rfl

end Base64
