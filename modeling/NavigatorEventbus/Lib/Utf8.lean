import NavigatorEventbus.Lib.Json

/-!
# UTF-8 and form encoding

The strict decoder of UTF-8, the one that replaces what is malformed, and texts in form encoding: pairs
joined by `&`, with `+` for a space and `%xx` for a byte.
-/

namespace Utf8

/-- The ranges of the bytes that follow a first byte. -/
def follow (b : ℕ) : Option (List (ℕ × ℕ)) :=
  if b < 0x80 then some []
  else if 0xc2 ≤ b ∧ b ≤ 0xdf then some [(0x80, 0xbf)]
  else if b = 0xe0 then some [(0xa0, 0xbf), (0x80, 0xbf)]
  else if b = 0xed then some [(0x80, 0x9f), (0x80, 0xbf)]
  else if 0xe1 ≤ b ∧ b ≤ 0xef then some [(0x80, 0xbf), (0x80, 0xbf)]
  else if b = 0xf0 then some [(0x90, 0xbf), (0x80, 0xbf), (0x80, 0xbf)]
  else if 0xf1 ≤ b ∧ b ≤ 0xf3 then some [(0x80, 0xbf), (0x80, 0xbf), (0x80, 0xbf)]
  else if b = 0xf4 then some [(0x80, 0x8f), (0x80, 0xbf), (0x80, 0xbf)]
  else none

/-- The bits that a first byte contributes, when `n` more follow. -/
def leadBits (b : ℕ) : ℕ → ℕ
  | 0 => b
  | 1 => b % 0x20
  | 2 => b % 0x10
  | _ => b % 0x08

/-- The value so far with the bytes that follow; `none` when one is missing or out of its range. -/
def gather (n : ℕ) : List (ℕ × ℕ) → List UInt8 → Option ℕ × List UInt8
  | [], l => (some n, l)
  | _ :: _, [] => (none, [])
  | (low, high) :: ranges, b :: l =>
    if low ≤ b.toNat ∧ b.toNat ≤ high then gather (n * 0x40 + b.toNat % 0x40) ranges l else (none, b :: l)

/-- The characters; `none` stands for bytes that are malformed. -/
def scan : ℕ → List UInt8 → List (Option Char)
  | 0, _ | _, [] => []
  | fuel + 1, b :: l =>
    match follow b.toNat with
    | none => none :: scan fuel l
    | some ranges =>
      match gather (leadBits b.toNat ranges.length) ranges l with
      | (some n, rest) => some (Char.ofNat n) :: scan fuel rest
      | (none, rest) => none :: scan fuel rest

/-- `bytes.decode("utf-8")`; `none` when that raises. -/
def decode (bytes : List UInt8) : Option (List Char) := (scan bytes.length bytes).mapM id

/-- `bytes.decode("utf-8", "replace")`. -/
def decodeReplace (bytes : List UInt8) : List Char :=
  (scan bytes.length bytes).map fun c => c.getD (Char.ofNat 0xfffd)

/-- The bytes of a character. -/
def encodeChar (c : Char) : List UInt8 :=
  let n := c.toNat
  if n < 0x80 then [.ofNat n]
  else if n < 0x800 then [.ofNat (0xc0 + n / 0x40), .ofNat (0x80 + n % 0x40)]
  else if n < 0x10000 then
    [.ofNat (0xe0 + n / 0x1000), .ofNat (0x80 + n / 0x40 % 0x40), .ofNat (0x80 + n % 0x40)]
  else
    [.ofNat (0xf0 + n / 0x40000), .ofNat (0x80 + n / 0x1000 % 0x40), .ofNat (0x80 + n / 0x40 % 0x40),
      .ofNat (0x80 + n % 0x40)]

/-- `urllib.parse.unquote_to_bytes`. -/
def unquoteBytes : List Char → List UInt8
  | '%' :: a :: b :: l =>
    match Json.hexValue a, Json.hexValue b with
    | some x, some y => .ofNat (x * 16 + y) :: unquoteBytes l
    | _, _ => .ofNat '%'.toNat :: unquoteBytes (a :: b :: l)
  | c :: l => encodeChar c ++ unquoteBytes l
  | [] => []

/-- A name or a value of a form. -/
def unquotePlus (s : List Char) : List Char :=
  decodeReplace (unquoteBytes (s.map fun c => if c = '+' then ' ' else c))

/-- `urllib.parse.parse_qsl` that keeps blank values. -/
def parseQsl (s : List Char) : List (List Char × List Char) :=
  ((s.splitOn '&').filter (· ≠ [])).map fun pair =>
    (unquotePlus (pair.takeWhile (· ≠ '=')), unquotePlus ((pair.dropWhile (· ≠ '=')).drop 1))

/-- `bytes.hex()`. -/
def hex (bytes : List UInt8) : List Char :=
  bytes.flatMap fun b => [Json.hexDigit (b.toNat / 16), Json.hexDigit (b.toNat % 16)]

/-! ## What is encoded is read again -/

theorem toNat_ofNat {n : ℕ} (h : n < 0x100) : (UInt8.ofNat n).toNat = n :=
  Nat.mod_eq_of_lt h

theorem gather_cons {n low high b : ℕ} {ranges : List (ℕ × ℕ)} {l : List UInt8} (hb : b < 0x100) (hlow : low ≤ b)
    (hhigh : b ≤ high) :
    gather n ((low, high) :: ranges) (.ofNat b :: l) = gather (n * 0x40 + b % 0x40) ranges l := by
  have value := toNat_ofNat hb
  rw [gather, value, if_pos ⟨hlow, hhigh⟩]

theorem scan_cons {b n fuel : ℕ} {ranges : List (ℕ × ℕ)} {l rest : List UInt8} (hb : b < 0x100)
    (hfollow : follow b = some ranges) (hgather : gather (leadBits b ranges.length) ranges l = (some n, rest)) :
    scan (fuel + 1) (.ofNat b :: l) = some (Char.ofNat n) :: scan fuel rest := by
  have value := toNat_ofNat hb
  simp only [scan, value, hfollow, hgather]

theorem follow_three {b second : ℕ} (low : 0xe0 ≤ b) (high : b ≤ 0xef) (hsecond : 0x80 ≤ second)
    (hsecond' : second ≤ 0xbf) (first : b = 0xe0 → 0xa0 ≤ second) (last : b = 0xed → second ≤ 0x9f) :
    ∃ range, follow b = some [range, (0x80, 0xbf)] ∧ range.1 ≤ second ∧ second ≤ range.2 := by
  by_cases he0 : b = 0xe0
  · subst he0
    exact ⟨(0xa0, 0xbf), rfl, first rfl, hsecond'⟩
  · by_cases hed : b = 0xed
    · subst hed
      exact ⟨(0x80, 0x9f), rfl, hsecond, last rfl⟩
    · refine ⟨(0x80, 0xbf), ?_, hsecond, hsecond'⟩
      rw [follow, if_neg (by omega), if_neg (by omega), if_neg he0, if_neg hed, if_pos (by omega)]

theorem follow_four {b second : ℕ} (low : 0xf0 ≤ b) (high : b ≤ 0xf4) (hsecond : 0x80 ≤ second)
    (hsecond' : second ≤ 0xbf) (first : b = 0xf0 → 0x90 ≤ second) (last : b = 0xf4 → second ≤ 0x8f) :
    ∃ range, follow b = some [range, (0x80, 0xbf), (0x80, 0xbf)] ∧ range.1 ≤ second ∧ second ≤ range.2 := by
  by_cases hf0 : b = 0xf0
  · subst hf0
    exact ⟨(0x90, 0xbf), rfl, first rfl, hsecond'⟩
  · by_cases hf4 : b = 0xf4
    · subst hf4
      exact ⟨(0x80, 0x8f), rfl, hsecond, last rfl⟩
    · refine ⟨(0x80, 0xbf), ?_, hsecond, hsecond'⟩
      rw [follow, if_neg (by omega), if_neg (by omega), if_neg (by omega), if_neg (by omega), if_neg (by omega),
        if_neg hf0, if_pos (by omega)]

/-- A character is read from the bytes that it is written as. -/
theorem scan_encodeChar (c : Char) (fuel : ℕ) (rest : List UInt8) :
    scan (fuel + 1) (encodeChar c ++ rest) = some c :: scan fuel rest := by
  have valid := Json.toNat_valid c
  have same : Char.ofNat c.toNat = c := Char.ofNat_toNat c
  rw [encodeChar]
  generalize c.toNat = n at valid same
  rw [← same]
  by_cases one : n < 0x80
  · rw [if_pos one]
    have hfollow : follow n = some [] := if_pos one
    apply scan_cons (by omega) hfollow
    rfl
  rw [if_neg one]
  by_cases two : n < 0x800
  · rw [if_pos two, List.cons_append, List.cons_append, List.nil_append]
    have hfollow : follow (0xc0 + n / 0x40) = some [(0x80, 0xbf)] := by
      rw [follow, if_neg (by omega), if_pos (by omega)]
    apply scan_cons (by omega) hfollow
    have value : (0xc0 + n / 0x40) % 0x20 * 0x40 + (0x80 + n % 0x40) % 0x40 = n := by omega
    rw [gather_cons (by omega) (by omega) (by omega), gather]
    exact congrArg (fun n => (some n, rest)) value
  rw [if_neg two]
  by_cases three : n < 0x10000
  · rw [if_pos three, List.cons_append, List.cons_append, List.cons_append, List.nil_append]
    obtain ⟨⟨low, high⟩, hfollow, hlow, hhigh⟩ :=
      @follow_three (0xe0 + n / 0x1000) (0x80 + n / 0x40 % 0x40) (by omega) (by omega) (by omega) (by omega)
        (by omega) (by omega)
    apply scan_cons (by omega) hfollow
    have value : ((0xe0 + n / 0x1000) % 0x10 * 0x40 + (0x80 + n / 0x40 % 0x40) % 0x40) * 0x40
        + (0x80 + n % 0x40) % 0x40 = n := by omega
    rw [gather_cons (by omega) hlow hhigh,
      gather_cons (by omega) (by omega) (by omega), gather]
    exact congrArg (fun n => (some n, rest)) value
  · rw [if_neg three, List.cons_append, List.cons_append, List.cons_append, List.cons_append, List.nil_append]
    obtain ⟨⟨low, high⟩, hfollow, hlow, hhigh⟩ :=
      @follow_four (0xf0 + n / 0x40000) (0x80 + n / 0x1000 % 0x40) (by omega) (by omega) (by omega) (by omega)
        (by omega) (by omega)
    apply scan_cons (by omega) hfollow
    have value : (((0xf0 + n / 0x40000) % 0x08 * 0x40 + (0x80 + n / 0x1000 % 0x40) % 0x40) * 0x40
        + (0x80 + n / 0x40 % 0x40) % 0x40) * 0x40 + (0x80 + n % 0x40) % 0x40 = n := by omega
    rw [gather_cons (by omega) hlow hhigh,
      gather_cons (by omega) (by omega) (by omega), gather_cons (by omega) (by omega) (by omega), gather]
    exact congrArg (fun n => (some n, rest)) value

theorem length_encodeChar_pos (c : Char) : 0 < (encodeChar c).length := by
  dsimp only [encodeChar]
  split_ifs <;> exact Nat.succ_pos _

theorem length_le_encode (s : List Char) : s.length ≤ (s.flatMap encodeChar).length := by
  induction s with
  | nil => rfl
  | cons c s ih =>
    have pos := length_encodeChar_pos c
    rw [List.flatMap_cons, List.length_append, List.length_cons]
    omega

theorem scan_encode (s : List Char) {fuel : ℕ} (h : s.length ≤ fuel) :
    scan fuel (s.flatMap encodeChar) = s.map some := by
  induction s generalizing fuel with
  | nil => cases fuel <;> rfl
  | cons c s ih =>
    obtain ⟨fuel, rfl⟩ : ∃ n, fuel = n + 1 := Nat.exists_eq_add_one.2 (by rw [List.length_cons] at h; omega)
    rw [List.flatMap_cons, scan_encodeChar, ih (Nat.le_of_succ_le_succ h), List.map_cons]

/-- A text is read again from its bytes. -/
theorem decode_encode (s : List Char) : decode (s.flatMap encodeChar) = some s := by
  rw [decode, scan_encode s (length_le_encode s)]
  induction s with
  | nil => rfl
  | cons c s ih => simp only [List.map_cons, List.mapM_cons, ih]; rfl

end Utf8
