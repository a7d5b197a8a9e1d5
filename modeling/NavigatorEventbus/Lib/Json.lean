import Mathlib.Data.Nat.Digits.Lemmas

/-!
# JSON text

JSON values with the writer and the reader of a common implementation: the writer escapes every
character outside printable ASCII (`\uXXXX`, surrogate pairs beyond the basic plane), the reader accepts
white space between tokens.  Text is a list of Unicode scalar values, so an escaped lone surrogate is not
read.  The reader inverts the writer (`parse_print`).
-/

/-- A JSON value. `real` is a number with a fraction or an exponent, kept as its token. -/
inductive Json where
  | null
  | bool (b : Bool)
  | int (n : ℤ)
  | real (token : String)
  | str (s : String)
  | arr (items : List Json)
  | obj (members : List (String × Json))

namespace Json

/-! ## Characters of a string -/

/-- The character of a hexadecimal digit. -/
def hexDigit (n : ℕ) : Char :=
  if n < 10 then Char.ofNat ('0'.toNat + n) else Char.ofNat ('a'.toNat + (n - 10))

/-- The value of a hexadecimal digit. -/
def hexValue (c : Char) : Option ℕ :=
  if '0' ≤ c ∧ c ≤ '9' then some (c.toNat - '0'.toNat)
  else if 'a' ≤ c ∧ c ≤ 'f' then some (c.toNat - 'a'.toNat + 10)
  else if 'A' ≤ c ∧ c ≤ 'F' then some (c.toNat - 'A'.toNat + 10)
  else none

/-- The four hexadecimal digits of a number below `2 ^ 16`. -/
def hex4 (n : ℕ) : List Char :=
  [hexDigit (n / 4096), hexDigit (n / 256 % 16), hexDigit (n / 16 % 16), hexDigit (n % 16)]

/-- The number that four hexadecimal digits write. -/
def ofHex4 : List Char → Option (ℕ × List Char)
  | a :: b :: c :: d :: rest => do
    let a ← hexValue a
    let b ← hexValue b
    let c ← hexValue c
    let d ← hexValue d
    return (a * 4096 + b * 256 + c * 16 + d, rest)
  | _ => none

/-- The escape of a number below `2 ^ 16`. -/
def unicodeEscape (n : ℕ) : List Char := '\\' :: 'u' :: hex4 n

/-- A character of a string, as it is written. -/
def escape (c : Char) : List Char :=
  if c = '"' then ['\\', '"']
  else if c = '\\' then ['\\', '\\']
  else if c = '\n' then ['\\', 'n']
  else if c = '\r' then ['\\', 'r']
  else if c = '\t' then ['\\', 't']
  else if c = '\x0c' then ['\\', 'f']
  else if c = '\x08' then ['\\', 'b']
  else if ' ' ≤ c ∧ c ≤ '~' then [c]
  else if c.toNat < 0x10000 then unicodeEscape c.toNat
  else unicodeEscape (0xd800 + (c.toNat - 0x10000) / 0x400) ++
    unicodeEscape (0xdc00 + (c.toNat - 0x10000) % 0x400)

/-- The character that a short escape writes. -/
def unescape (c : Char) : Option Char :=
  if c = '"' ∨ c = '\\' ∨ c = '/' then some c
  else if c = 'b' then some '\x08'
  else if c = 'f' then some '\x0c'
  else if c = 'n' then some '\n'
  else if c = 'r' then some '\r'
  else if c = 't' then some '\t'
  else none

/-- The scalar value `n` as a character. -/
def scalar (n : ℕ) (rest : List Char) : Option (Char × List Char) :=
  if n.isValidChar then some (Char.ofNat n, rest) else none

/-- A high surrogate. -/
def isHigh (n : ℕ) : Bool := 0xd800 ≤ n && n < 0xdc00

/-- A low surrogate. -/
def isLow (n : ℕ) : Bool := 0xdc00 ≤ n && n < 0xe000

/-- What follows `\u`. -/
def scanUnicode (s : List Char) : Option (Char × List Char) :=
  match ofHex4 s with
  | none => none
  | some (high, rest) =>
    if isHigh high then
      match rest with
      | '\\' :: 'u' :: rest =>
        match ofHex4 rest with
        | some (low, rest) =>
          if isLow low then
            scalar (0x10000 + (high - 0xd800) * 0x400 + (low - 0xdc00)) rest
          else none
        | none => none
      | _ => none
    else scalar high rest

/-- One character of a string, escaped or not. -/
def scanChar : List Char → Option (Char × List Char)
  | [] => none
  | c :: rest =>
    if c = '\\' then
      match rest with
      | [] => none
      | e :: rest =>
        if e = 'u' then scanUnicode rest else (unescape e).map fun c => (c, rest)
    else if c.toNat < 32 then none
    else some (c, rest)

/-- The rest of a string, after its opening quote. -/
def scanString : ℕ → List Char → Option (List Char × List Char)
  | 0, _ => none
  | _, [] => none
  | fuel + 1, c :: rest =>
    if c = '"' then some ([], rest)
    else do
      let (a, rest) ← scanChar (c :: rest)
      let (l, rest) ← scanString fuel rest
      return (a :: l, rest)

/-- A string, as it is written. -/
def quote (s : List Char) : List Char := '"' :: s.flatMap escape ++ ['"']

theorem hexValue_hexDigit {n : ℕ} (h : n < 16) : hexValue (hexDigit n) = some n := by
  have all : ∀ m : Fin 16, hexValue (hexDigit m) = some m.1 := by decide
  exact all ⟨n, h⟩

theorem ofHex4_hex4 {n : ℕ} (h : n < 0x10000) (rest : List Char) :
    ofHex4 (hex4 n ++ rest) = some (n, rest) := by
  simp only [hex4, List.cons_append, List.nil_append, ofHex4]
  rw [hexValue_hexDigit (by omega), hexValue_hexDigit (by omega), hexValue_hexDigit (by omega),
    hexValue_hexDigit (by omega)]
  simp only [Option.pure_def, Option.bind_eq_bind, Option.bind_some, Option.some.injEq,
    Prod.mk.injEq, and_true]
  omega

theorem scalar_toNat (c : Char) (rest : List Char) : scalar c.toNat rest = some (c, rest) := by
  have valid : c.toNat.isValidChar := c.valid
  simp [scalar, valid]

theorem scanUnicode_hex4 {n : ℕ} (h : n < 0x10000) (basic : isHigh n = false) (rest : List Char) :
    scanUnicode (hex4 n ++ rest) = scalar n rest := by
  unfold scanUnicode
  rw [ofHex4_hex4 h]
  simp only [basic, Bool.false_eq_true, if_false]

theorem scanUnicode_pair {n m : ℕ} (h : n < 0x10000) (h' : m < 0x10000) (high : isHigh n = true)
    (low : isLow m = true) (rest : List Char) :
    scanUnicode (hex4 n ++ (unicodeEscape m ++ rest)) =
      scalar (0x10000 + (n - 0xd800) * 0x400 + (m - 0xdc00)) rest := by
  unfold scanUnicode
  rw [ofHex4_hex4 h]
  simp only [high, if_true, unicodeEscape, List.cons_append, ofHex4_hex4 h', low]

theorem toNat_valid (c : Char) : c.toNat < 0xd800 ∨ 0xdfff < c.toNat ∧ c.toNat < 0x110000 := c.valid

theorem isHigh_eq_false {n : ℕ} (h : n < 0xd800 ∨ 0xdfff < n) : isHigh n = false := by
  simp only [isHigh, Bool.and_eq_false_iff, decide_eq_false_iff_not]
  omega

theorem scanUnicode_basic {c : Char} (h : c.toNat < 0x10000) (rest : List Char) :
    scanUnicode (hex4 c.toNat ++ rest) = some (c, rest) := by
  have valid := toNat_valid c
  rw [scanUnicode_hex4 h (isHigh_eq_false (by omega)), scalar_toNat]

theorem isHigh_add {n : ℕ} (h : n < 0x400) : isHigh (0xd800 + n) = true := by
  simp only [isHigh, Bool.and_eq_true, decide_eq_true_eq]
  omega

theorem isLow_add {n : ℕ} (h : n < 0x400) : isLow (0xdc00 + n) = true := by
  simp only [isLow, Bool.and_eq_true, decide_eq_true_eq]
  omega

/-- A character beyond the basic plane is the sum of its surrogates. -/
theorem join_surrogates {n a b : ℕ} (h : ¬ n < 0x10000) (ha : a = (n - 0x10000) / 0x400)
    (hb : b = (n - 0x10000) % 0x400) :
    0x10000 + (0xd800 + a - 0xd800) * 0x400 + (0xdc00 + b - 0xdc00) = n := by
  rw [Nat.add_sub_cancel_left, Nat.add_sub_cancel_left]
  omega

theorem scanUnicode_beyond {c : Char} (h : ¬ c.toNat < 0x10000) {a b : ℕ}
    (ha : a = (c.toNat - 0x10000) / 0x400) (hb : b = (c.toNat - 0x10000) % 0x400)
    (rest : List Char) :
    scanUnicode (hex4 (0xd800 + a) ++ (unicodeEscape (0xdc00 + b) ++ rest)) = some (c, rest) := by
  have valid := toNat_valid c
  have small : a < 0x400 ∧ b < 0x400 := by omega
  rw [scanUnicode_pair (by omega) (by omega) (isHigh_add small.1) (isLow_add small.2),
    join_surrogates h ha hb, scalar_toNat]

theorem scanChar_unicodeEscape (n : ℕ) (rest : List Char) :
    scanChar (unicodeEscape n ++ rest) = scanUnicode (hex4 n ++ rest) := by
  simp [unicodeEscape, scanChar]

/-- Reading a character inverts writing it. -/
theorem scanChar_escape (c : Char) (rest : List Char) :
    scanChar (escape c ++ rest) = some (c, rest) := by
  unfold escape
  split_ifs with h1 h2 h3 h4 h5 h6 h7 hplain hbasic
  · subst h1
    rfl
  · subst h2
    rfl
  · subst h3
    rfl
  · subst h4
    rfl
  · subst h5
    rfl
  · subst h6
    rfl
  · subst h7
    rfl
  · have printable : ¬ c.toNat < 32 := by
      have : ' '.toNat ≤ c.toNat := hplain.1
      exact Nat.not_lt.2 this
    simp [scanChar, h2, printable]
  · rw [scanChar_unicodeEscape, scanUnicode_basic hbasic]
  · rw [List.append_assoc, scanChar_unicodeEscape, scanUnicode_beyond hbasic rfl rfl]

theorem escape_head (c : Char) : ∃ a l, escape c = a :: l ∧ a ≠ '"' := by
  unfold escape
  split_ifs with h1 <;> first | exact ⟨_, _, rfl, by decide⟩ | exact ⟨c, [], rfl, h1⟩

/-- Reading a string inverts writing it. -/
theorem scanString_quote (l : List Char) (rest : List Char) {fuel : ℕ}
    (h : (l.flatMap escape).length < fuel) :
    scanString fuel (l.flatMap escape ++ '"' :: rest) = some (l, rest) := by
  induction l generalizing fuel with
  | nil =>
    cases fuel with
    | zero => cases h
    | succ fuel => rfl
  | cons c l ih =>
    obtain ⟨a, t, ht, ha⟩ := escape_head c
    cases fuel with
    | zero => cases h
    | succ fuel =>
      have shape : (c :: l).flatMap escape ++ '"' :: rest =
          escape c ++ (l.flatMap escape ++ '"' :: rest) := by
        simp [List.append_assoc]
      have fits : (l.flatMap escape).length < fuel := by
        rw [List.flatMap_cons, List.length_append, ht, List.length_cons] at h
        omega
      have scan := scanChar_escape c (l.flatMap escape ++ '"' :: rest)
      rw [shape]
      rw [ht] at scan ⊢
      simp only [List.cons_append] at scan ⊢
      simp only [scanString, if_neg ha, scan, Option.bind_eq_bind, Option.bind_some, ih fits]
      rfl

/-! ## Numbers -/

/-- The character of a decimal digit. -/
def decimalDigit (n : ℕ) : Char := Char.ofNat ('0'.toNat + n)

/-- The value of a decimal digit. -/
def decimalValue (c : Char) : ℕ := c.toNat - '0'.toNat

/-- A natural number, as it is written. -/
def natural (n : ℕ) : List Char :=
  if n = 0 then ['0'] else (Nat.digits 10 n).reverse.map decimalDigit

/-- An integer, as it is written. -/
def integer (n : ℤ) : List Char :=
  if n < 0 then '-' :: natural n.natAbs else natural n.natAbs

/-- The number that decimal digits write. -/
def ofDecimal (l : List Char) : ℕ := Nat.ofDigits 10 (l.reverse.map decimalValue)

/-- The whole part of a number: `0`, or digits that begin with another one. -/
def scanWhole : List Char → Option (List Char × List Char)
  | [] => none
  | c :: rest =>
    if c = '0' then some (['0'], rest)
    else if c.isDigit then some (c :: rest.takeWhile Char.isDigit, rest.dropWhile Char.isDigit)
    else none

/-- A fraction, if there is one. -/
def scanFraction : List Char → List Char × List Char
  | '.' :: c :: rest =>
    if c.isDigit then
      ('.' :: c :: rest.takeWhile Char.isDigit, rest.dropWhile Char.isDigit)
    else ([], '.' :: c :: rest)
  | s => ([], s)

/-- An exponent, if there is one. -/
def scanExponent : List Char → List Char × List Char
  | e :: rest =>
    if e = 'e' ∨ e = 'E' then
      match rest with
      | sign :: c :: rest' =>
        if (sign = '+' ∨ sign = '-') ∧ c.isDigit then
          (e :: sign :: c :: rest'.takeWhile Char.isDigit, rest'.dropWhile Char.isDigit)
        else if sign.isDigit then
          (e :: rest.takeWhile Char.isDigit, rest.dropWhile Char.isDigit)
        else ([], e :: rest)
      | [c] => if c.isDigit then ([e, c], []) else ([], [e, c])
      | [] => ([], [e])
    else ([], e :: rest)
  | [] => ([], [])

/-- The number after its sign: an integer, unless it has a fraction or an exponent. -/
def scanUnsigned (negative : Bool) (s : List Char) : Option (Json × List Char) :=
  match scanWhole s with
  | none => none
  | some (whole, rest) =>
    let fraction := scanFraction rest
    let exponent := scanExponent fraction.2
    if fraction.1 = [] ∧ exponent.1 = [] then
      some (.int (if negative then -(ofDecimal whole : ℤ) else ofDecimal whole), exponent.2)
    else
      some (.real (String.ofList
        ((if negative then ['-'] else []) ++ whole ++ fraction.1 ++ exponent.1)), exponent.2)

/-- A number. -/
def scanNumber (s : List Char) : Option (Json × List Char) :=
  if s.head? = some '-' then scanUnsigned true s.tail else scanUnsigned false s

/-- A number may end here. -/
def Ends (rest : List Char) : Prop :=
  ∀ c ∈ rest.head?, c.isDigit = false ∧ c ≠ '.' ∧ c ≠ 'e' ∧ c ≠ 'E'

theorem decimal_digit {d : ℕ} (h : d < 10) : decimalValue (decimalDigit d) = d ∧
    (decimalDigit d).isDigit = true ∧ (decimalDigit d = '0' → d = 0) := by
  have all : ∀ m : Fin 10, decimalValue (decimalDigit m) = m ∧
      (decimalDigit m).isDigit = true ∧ (decimalDigit m = '0' → m.1 = 0) := by decide
  exact all ⟨d, h⟩

theorem mem_natural {n : ℕ} {c : Char} (h : c ∈ natural n) : c.isDigit = true := by
  unfold natural at h
  split_ifs at h
  · rw [List.mem_singleton.1 h]
    rfl
  · obtain ⟨d, hd, rfl⟩ := List.mem_map.1 h
    exact (decimal_digit (Nat.digits_lt_base (by decide) (List.mem_reverse.1 hd))).2.1

theorem ofDecimal_natural (n : ℕ) : ofDecimal (natural n) = n := by
  unfold natural ofDecimal
  split_ifs with h
  · rw [h]
    rfl
  · have same : ∀ d ∈ Nat.digits 10 n, (decimalValue ∘ decimalDigit) d = d := fun d hd =>
      (decimal_digit (Nat.digits_lt_base (by decide) hd)).1
    rw [← List.map_reverse, List.reverse_reverse, List.map_map, List.map_congr_left same, List.map_id',
      Nat.ofDigits_digits]

theorem natural_eq_cons {n : ℕ} (h : n ≠ 0) : ∃ c l, natural n = c :: l ∧ c ≠ '0' := by
  have ne : Nat.digits 10 n ≠ [] := Nat.digits_ne_nil_iff_ne_zero.2 h
  obtain ⟨l, d, hl⟩ := (List.eq_nil_or_concat (Nat.digits 10 n)).resolve_left ne
  rw [List.concat_eq_append] at hl
  have last : d ≠ 0 := by
    have := Nat.getLast_digit_ne_zero 10 h
    simpa [hl] using this
  have small : d < 10 := Nat.digits_lt_base (by decide) (by rw [hl]; simp)
  refine ⟨decimalDigit d, (l.reverse.map decimalDigit), ?_, fun hd => last ((decimal_digit small).2.2 hd)⟩
  simp [natural, h, hl]

theorem takeWhile_digits {l rest : List Char} (h : ∀ c ∈ l, c.isDigit = true) (ends : Ends rest) :
    (l ++ rest).takeWhile Char.isDigit = l ∧ (l ++ rest).dropWhile Char.isDigit = rest := by
  have stop : rest.takeWhile Char.isDigit = [] ∧ rest.dropWhile Char.isDigit = rest := by
    cases rest with
    | nil => exact ⟨rfl, rfl⟩
    | cons c rest => simp [(ends c rfl).1]
  rw [List.takeWhile_append_of_pos h, List.dropWhile_append_of_pos h, stop.1, stop.2, List.append_nil]
  exact ⟨rfl, rfl⟩

theorem scanWhole_natural (n : ℕ) {rest : List Char} (ends : Ends rest) :
    scanWhole (natural n ++ rest) = some (natural n, rest) := by
  by_cases h : n = 0
  · simp [natural, h, scanWhole]
  · obtain ⟨c, l, hcl, hc⟩ := natural_eq_cons h
    have digits : ∀ a ∈ c :: l, a.isDigit = true := fun a ha => mem_natural (hcl ▸ ha)
    have tail := takeWhile_digits (fun a ha => digits a (List.mem_cons_of_mem c ha)) ends
    rw [hcl]
    simp only [List.cons_append, scanWhole, if_neg hc, digits c List.mem_cons_self, if_true, tail.1,
      tail.2]

theorem scanFraction_ends {rest : List Char} (ends : Ends rest) : scanFraction rest = ([], rest) := by
  unfold scanFraction
  split
  · exact absurd rfl (ends '.' rfl).2.1
  · rfl

theorem scanExponent_ends {rest : List Char} (ends : Ends rest) : scanExponent rest = ([], rest) := by
  cases rest with
  | nil => rfl
  | cons c rest =>
    obtain ⟨-, -, he, hE⟩ := ends c rfl
    simp only [scanExponent, he, hE, or_self, if_false]

theorem natural_ne_nil (n : ℕ) : natural n ≠ [] := by
  unfold natural
  split_ifs with h
  · simp
  · simp [Nat.digits_ne_nil_iff_ne_zero.2 h]

theorem head_natural (n : ℕ) (rest : List Char) : (natural n ++ rest).head? ≠ some '-' := by
  intro h
  obtain ⟨c, l, hcl⟩ := List.exists_cons_of_ne_nil (natural_ne_nil n)
  have digit : c.isDigit = true := mem_natural (hcl ▸ List.mem_cons_self)
  rw [hcl] at h
  obtain rfl : c = '-' := by simpa using h
  exact absurd digit (by decide)

theorem scanUnsigned_natural (negative : Bool) (n : ℕ) {rest : List Char} (ends : Ends rest) :
    scanUnsigned negative (natural n ++ rest) =
      some (.int (if negative then -(n : ℤ) else n), rest) := by
  simp only [scanUnsigned, scanWhole_natural n ends, scanFraction_ends ends, scanExponent_ends ends,
    and_self, if_true, ofDecimal_natural]

/-- Reading an integer inverts writing it. -/
theorem scanNumber_integer (n : ℤ) {rest : List Char} (ends : Ends rest) :
    scanNumber (integer n ++ rest) = some (.int n, rest) := by
  unfold integer scanNumber
  split_ifs with h hhead hhead
  · rw [List.cons_append, List.tail_cons, scanUnsigned_natural true _ ends]
    simp only [if_true, Option.some.injEq, Prod.mk.injEq, Json.int.injEq, and_true]
    omega
  · exact absurd rfl hhead
  · exact absurd hhead (head_natural _ _)
  · rw [scanUnsigned_natural false _ ends]
    simp only [Bool.false_eq_true, if_false, Option.some.injEq, Prod.mk.injEq, Json.int.injEq, and_true]
    omega

/-! ## Values -/

mutual

/-- A value, as it is written, with `pad` after every comma and colon. -/
def print (pad : List Char) : Json → List Char
  | null => ['n', 'u', 'l', 'l']
  | bool true => ['t', 'r', 'u', 'e']
  | bool false => ['f', 'a', 'l', 's', 'e']
  | int n => integer n
  | real token => token.toList
  | str s => quote s.toList
  | arr items => '[' :: (printItems pad items ++ [']'])
  | obj members => '{' :: (printMembers pad members ++ ['}'])

/-- The items of an array. -/
def printItems (pad : List Char) : List Json → List Char
  | [] => []
  | [v] => print pad v
  | v :: w :: rest => print pad v ++ ',' :: (pad ++ printItems pad (w :: rest))

/-- The members of an object. -/
def printMembers (pad : List Char) : List (String × Json) → List Char
  | [] => []
  | [(k, v)] => quote k.toList ++ ':' :: (pad ++ print pad v)
  | (k, v) :: m :: rest =>
    quote k.toList ++ ':' :: (pad ++ (print pad v ++ ',' :: (pad ++ printMembers pad (m :: rest))))

end

/-- White space between tokens. -/
def isSpace (c : Char) : Bool := c = ' ' || c = '\t' || c = '\n' || c = '\r'

/-- The text after its white space. -/
def skip (s : List Char) : List Char := s.dropWhile isSpace

/-- The rest of a literal after its first character. -/
def scanLiteral (tail : List Char) (v : Json) (rest : List Char) : Option (Json × List Char) :=
  if tail.isPrefixOf rest then some (v, rest.drop tail.length) else none

/-- The constants beyond JSON that are read as numbers. -/
def scanConstant (s : List Char) : Option (Json × List Char) :=
  (scanLiteral "NaN".toList (.real "NaN") s).or <|
    (scanLiteral "Infinity".toList (.real "Infinity") s).or <|
      scanLiteral "-Infinity".toList (.real "-Infinity") s

mutual

/-- A value. The fuel bounds the depth of the recursion; the length of the text is enough. -/
def scanValue : ℕ → List Char → Option (Json × List Char)
  | 0, _ => none
  | _, [] => none
  | fuel + 1, c :: rest =>
    if c = '"' then (scanString fuel rest).map fun r => (.str (String.ofList r.1), r.2)
    else if c = '[' then
      if (skip rest).head? = some ']' then some (.arr [], (skip rest).tail)
      else (scanItems fuel (skip rest)).map fun r => (.arr r.1, r.2)
    else if c = '{' then
      if (skip rest).head? = some '}' then some (.obj [], (skip rest).tail)
      else (scanMembers fuel (skip rest)).map fun r => (.obj r.1, r.2)
    else if c = 'n' then scanLiteral ['u', 'l', 'l'] .null rest
    else if c = 't' then scanLiteral ['r', 'u', 'e'] (.bool true) rest
    else if c = 'f' then scanLiteral ['a', 'l', 's', 'e'] (.bool false) rest
    else (scanNumber (c :: rest)).or (scanConstant (c :: rest))

/-- The items of an array, up to its closing bracket. -/
def scanItems : ℕ → List Char → Option (List Json × List Char)
  | 0, _ => none
  | fuel + 1, s =>
    (scanValue fuel s).bind fun r =>
      match skip r.2 with
      | [] => none
      | c :: rest =>
        if c = ',' then (scanItems fuel (skip rest)).map fun t => (r.1 :: t.1, t.2)
        else if c = ']' then some ([r.1], rest)
        else none

/-- The members of an object, up to its closing brace. -/
def scanMembers : ℕ → List Char → Option (List (String × Json) × List Char)
  | 0, _ => none
  | _, [] => none
  | fuel + 1, q :: s =>
    if q = '"' then
      (scanString fuel s).bind fun k =>
        match skip k.2 with
        | [] => none
        | colon :: s =>
          if colon = ':' then
            (scanValue fuel (skip s)).bind fun r =>
              match skip r.2 with
              | [] => none
              | c :: rest =>
                if c = ',' then
                  (scanMembers fuel (skip rest)).map fun t =>
                    ((String.ofList k.1, r.1) :: t.1, t.2)
                else if c = '}' then some ([(String.ofList k.1, r.1)], rest)
                else none
          else none
    else none

end

/-- The value that a text writes. -/
def parse (s : List Char) : Option Json :=
  (scanValue s.length (skip s)).bind fun r => if skip r.2 = [] then some r.1 else none

/-- The value of the member `key`: the last one of that name. -/
def member (key : String) : Json → Option Json
  | obj members => (members.reverse.find? fun m => m.1 = key).map Prod.snd
  | _ => none

/-! ## Round trip -/

/-- A printable ASCII character. -/
def Printable (c : Char) : Prop := ' ' ≤ c ∧ c ≤ '~'

/-- The token of a number with a fraction or an exponent. -/
def IsReal (token : String) : Prop :=
  (∃ c l, token.toList = c :: l ∧ (c = '-' ∨ c.isDigit)) ∧
    (∀ rest, Ends rest → scanNumber (token.toList ++ rest) = some (.real token, rest)) ∧
    ∀ c ∈ token.toList, Printable c

mutual

/-- The numbers of a value with a fraction or an exponent are tokens of such. -/
def Readable : Json → Prop
  | real token => IsReal token
  | arr items => ReadableItems items
  | obj members => ReadableMembers members
  | _ => True

def ReadableItems : List Json → Prop
  | [] => True
  | v :: rest => Readable v ∧ ReadableItems rest

def ReadableMembers : List (String × Json) → Prop
  | [] => True
  | (_, v) :: rest => Readable v ∧ ReadableMembers rest

end

section RoundTrip

variable {pad rest : List Char}

/-- The first character of a value: it is no white space, and closes nothing. -/
def Begins (s : List Char) : Prop := ∃ c l, s = c :: l ∧ isSpace c = false ∧ c ≠ ']' ∧ c ≠ '}'

theorem begins_number {c : Char} {l : List Char} (h : c = '-' ∨ c.isDigit) : Begins (c :: l) := by
  refine ⟨c, l, rfl, ?_⟩
  rcases h with rfl | h
  · decide
  · refine ⟨?_, ?_, ?_⟩
    · simp only [isSpace, Bool.or_eq_false_iff, decide_eq_false_iff_not]
      refine ⟨⟨⟨?_, ?_⟩, ?_⟩, ?_⟩ <;> rintro rfl <;> exact absurd h (by decide)
    all_goals rintro rfl; exact absurd h (by decide)

theorem integer_begins (n : ℤ) : ∃ c l, integer n = c :: l ∧ (c = '-' ∨ c.isDigit) := by
  unfold integer
  split_ifs
  · exact ⟨_, _, rfl, .inl rfl⟩
  · obtain ⟨c, l, hcl⟩ := List.exists_cons_of_ne_nil (natural_ne_nil n.natAbs)
    exact ⟨c, l, hcl, .inr (mem_natural (hcl ▸ List.mem_cons_self))⟩

theorem print_begins (pad : List Char) {v : Json} (h : v.Readable) : Begins (print pad v) := by
  cases v with
  | null => exact ⟨_, _, rfl, by decide⟩
  | bool b => cases b <;> exact ⟨_, _, rfl, by decide⟩
  | int n =>
    obtain ⟨c, l, hcl, hc⟩ := integer_begins n
    rw [print, hcl]
    exact begins_number hc
  | real token =>
    obtain ⟨c, l, hcl, hc⟩ := h.1
    rw [print, hcl]
    exact begins_number hc
  | str s => exact ⟨_, _, rfl, by decide⟩
  | arr items => exact ⟨_, _, rfl, by decide⟩
  | obj members => exact ⟨_, _, rfl, by decide⟩

theorem skip_begins {s : List Char} (h : Begins s) : skip s = s := by
  obtain ⟨c, l, rfl, hc, -⟩ := h
  simp [skip, hc]

theorem skip_pad (hpad : ∀ c ∈ pad, isSpace c = true) (s : List Char) : skip (pad ++ s) = skip s :=
  List.dropWhile_append_of_pos hpad

theorem ends_cons {c : Char} (h : c.isDigit = false ∧ c ≠ '.' ∧ c ≠ 'e' ∧ c ≠ 'E') (s : List Char) :
    Ends (c :: s) := by
  rintro a ha
  obtain rfl : c = a := by simpa using ha
  exact h

theorem scanValue_number {s : List Char} {r : Json × List Char} {fuel : ℕ}
    (head : ∃ c l, s = c :: l ∧ (c = '-' ∨ c.isDigit)) (h : scanNumber s = some r) :
    scanValue (fuel + 1) s = some r := by
  obtain ⟨c, l, rfl, hc⟩ := head
  have other : ∀ d : Char, d ≠ '-' → d.isDigit = false → c ≠ d := by
    rintro d hd hdigit rfl
    rcases hc with rfl | hc
    · exact hd rfl
    · rw [hdigit] at hc
      cases hc
  simp only [scanValue, other '"' (by decide) (by decide), other '[' (by decide) (by decide),
    other '{' (by decide) (by decide), other 'n' (by decide) (by decide),
    other 't' (by decide) (by decide), other 'f' (by decide) (by decide), if_false, h, Option.some_or]

theorem scanValue_string {t : String} {fuel : ℕ} (h : (quote t.toList).length ≤ fuel + 1) :
    scanValue (fuel + 1) (quote t.toList ++ rest) = some (.str t, rest) := by
  have fits : (t.toList.flatMap escape).length < fuel := by
    simp only [quote, List.length_append, List.length_cons, List.length_nil] at h
    omega
  simp only [quote, List.cons_append, List.append_assoc, List.nil_append, scanValue, if_true,
    scanString_quote _ _ fits, Option.map_some, String.ofList_toList]

theorem Begins.append {s : List Char} (h : Begins s) (t : List Char) : Begins (s ++ t) := by
  obtain ⟨c, l, rfl, hc⟩ := h
  exact ⟨c, l ++ t, rfl, hc⟩

theorem Begins.head_ne {s : List Char} (h : Begins s) :
    s.head? ≠ some ']' ∧ s.head? ≠ some '}' := by
  obtain ⟨c, l, rfl, -, hc⟩ := h
  simpa using hc

theorem printItems_begins (pad : List Char) {v : Json} (items : List Json) (h : v.Readable) :
    Begins (printItems pad (v :: items)) := by
  cases items with
  | nil => exact print_begins pad h
  | cons w items => exact (print_begins pad h).append _

theorem printMembers_begins (pad : List Char) (m : String × Json) (members : List (String × Json)) :
    Begins (printMembers pad (m :: members)) := by
  cases members with
  | nil => exact ⟨_, _, rfl, by decide⟩
  | cons n members => exact ⟨_, _, rfl, by decide⟩

theorem print_length_pos (pad : List Char) {v : Json} (h : v.Readable) : 0 < (print pad v).length := by
  obtain ⟨c, l, hcl, -⟩ := print_begins pad h
  rw [hcl]
  exact Nat.succ_pos _

mutual

theorem scanValue_print (hpad : ∀ c ∈ pad, isSpace c = true) : ∀ (v : Json) (fuel : ℕ)
    (rest : List Char), v.Readable → (print pad v).length ≤ fuel → Ends rest →
      scanValue fuel (print pad v ++ rest) = some (v, rest)
  | v, 0, rest, hv, h, ends => by
    obtain ⟨c, l, hcl, -⟩ := print_begins pad hv
    rw [hcl] at h
    cases h
  | .null, fuel + 1, rest, _, _, _ => by simp [print, scanValue, scanLiteral]
  | .bool true, fuel + 1, rest, _, _, _ => by simp [print, scanValue, scanLiteral]
  | .bool false, fuel + 1, rest, _, _, _ => by simp [print, scanValue, scanLiteral]
  | .int n, fuel + 1, rest, _, _, ends => by
    obtain ⟨c, l, hcl, hc⟩ := integer_begins n
    exact scanValue_number ⟨c, l ++ rest, by rw [print, hcl]; rfl, hc⟩ (scanNumber_integer n ends)
  | .real token, fuel + 1, rest, hv, _, ends => by
    obtain ⟨⟨c, l, hcl, hc⟩, reads, -⟩ := hv
    exact scanValue_number ⟨c, l ++ rest, by rw [print, hcl]; rfl, hc⟩ (reads rest ends)
  | .str t, fuel + 1, rest, _, h, _ => scanValue_string h
  | .arr [], fuel + 1, rest, _, _, _ => by
    simp [print, printItems, scanValue, skip, isSpace]
  | .arr (v :: items), fuel + 1, rest, hv, h, _ => by
    have begins := (printItems_begins pad items hv.1).append (']' :: rest)
    have fits : (printItems pad (v :: items)).length < fuel := by
      simp only [print, List.length_cons, List.length_append, List.length_nil] at h
      omega
    have items := scanItems_print hpad v items fuel rest hv fits
    simp only [print, List.cons_append, List.append_assoc, List.nil_append, scanValue,
      show ¬ ('[' = '"') by decide, if_false, if_true, skip_begins begins, begins.head_ne.1, items,
      Option.map_some]
  | .obj [], fuel + 1, rest, _, _, _ => by
    simp [print, printMembers, scanValue, skip, isSpace]
  | .obj (m :: members), fuel + 1, rest, hv, h, _ => by
    have begins := (printMembers_begins pad m members).append ('}' :: rest)
    have fits : (printMembers pad (m :: members)).length < fuel := by
      simp only [print, List.length_cons, List.length_append, List.length_nil] at h
      omega
    have members := scanMembers_print hpad m members fuel rest hv fits
    simp only [print, List.cons_append, List.append_assoc, List.nil_append, scanValue,
      show ¬ ('{' = '"') by decide, show ¬ ('{' = '[') by decide, if_false, if_true,
      skip_begins begins, begins.head_ne.2, members, Option.map_some]

theorem scanItems_print (hpad : ∀ c ∈ pad, isSpace c = true) : ∀ (v : Json) (items : List Json)
    (fuel : ℕ) (rest : List Char), ReadableItems (v :: items) →
      (printItems pad (v :: items)).length < fuel →
        scanItems fuel (printItems pad (v :: items) ++ ']' :: rest) = some (v :: items, rest)
  | _, _, 0, _, _, h => by cases h
  | v, [], fuel + 1, rest, hv, h => by
    have value := scanValue_print hpad v fuel (']' :: rest) hv.1 (Nat.lt_succ_iff.1 h)
      (ends_cons (by decide) rest)
    simp [printItems, scanItems, value, skip, isSpace]
  | v, w :: items, fuel + 1, rest, hv, h => by
    have begins := (printItems_begins pad items hv.2.1).append (']' :: rest)
    have fits : (print pad v).length ≤ fuel ∧ (printItems pad (w :: items)).length < fuel := by
      have pos := print_length_pos pad hv.1
      simp only [printItems, List.length_cons, List.length_append] at h ⊢
      omega
    have value := scanValue_print hpad v fuel
      (',' :: (pad ++ (printItems pad (w :: items) ++ ']' :: rest))) hv.1 fits.1
      (ends_cons (by decide) _)
    have items := scanItems_print hpad w items fuel rest hv.2 fits.2
    simp only [printItems, List.cons_append, List.append_assoc, scanItems, value, Option.bind_some]
    rw [show ∀ s, skip (',' :: s) = ',' :: s from fun _ => rfl]
    simp only [if_true, skip_pad hpad, skip_begins begins, items, Option.map_some]

theorem scanMembers_print (hpad : ∀ c ∈ pad, isSpace c = true) : ∀ (m : String × Json)
    (members : List (String × Json)) (fuel : ℕ) (rest : List Char), ReadableMembers (m :: members) →
      (printMembers pad (m :: members)).length < fuel →
        scanMembers fuel (printMembers pad (m :: members) ++ '}' :: rest) = some (m :: members, rest)
  | _, _, 0, _, _, h => by cases h
  | (k, v), [], fuel + 1, rest, hv, h => by
    have begins := (print_begins pad hv.1).append ('}' :: rest)
    have fits : (k.toList.flatMap escape).length < fuel ∧ (print pad v).length ≤ fuel := by
      simp only [printMembers, quote, List.length_cons, List.length_append] at h
      omega
    have key := scanString_quote k.toList (':' :: (pad ++ (print pad v ++ '}' :: rest))) fits.1
    have value := scanValue_print hpad v fuel ('}' :: rest) hv.1 fits.2 (ends_cons (by decide) rest)
    simp only [printMembers, quote, List.cons_append, List.append_assoc, List.nil_append, scanMembers,
      if_true, key, Option.bind_some]
    rw [show ∀ s, skip (':' :: s) = ':' :: s from fun _ => rfl]
    simp only [if_true, skip_pad hpad, skip_begins begins, value, Option.bind_some]
    simp [skip, isSpace]
  | (k, v), m :: members, fuel + 1, rest, hv, h => by
    have begins := (print_begins pad hv.1).append
      (',' :: (pad ++ (printMembers pad (m :: members) ++ '}' :: rest)))
    have begins' := (printMembers_begins pad m members).append ('}' :: rest)
    have fits : (k.toList.flatMap escape).length < fuel ∧ (print pad v).length ≤ fuel ∧
        (printMembers pad (m :: members)).length < fuel := by
      simp only [printMembers, quote, List.length_cons, List.length_append] at h ⊢
      omega
    have key := scanString_quote k.toList (':' :: (pad ++ (print pad v ++
      ',' :: (pad ++ (printMembers pad (m :: members) ++ '}' :: rest))))) fits.1
    have value := scanValue_print hpad v fuel
      (',' :: (pad ++ (printMembers pad (m :: members) ++ '}' :: rest))) hv.1 fits.2.1
      (ends_cons (by decide) _)
    have members := scanMembers_print hpad m members fuel rest hv.2 fits.2.2
    simp only [printMembers, quote, List.cons_append, List.append_assoc, List.nil_append, scanMembers,
      if_true, key, Option.bind_some]
    rw [show ∀ s, skip (':' :: s) = ':' :: s from fun _ => rfl]
    simp only [if_true, skip_pad hpad, skip_begins begins, value, Option.bind_some]
    rw [show ∀ s, skip (',' :: s) = ',' :: s from fun _ => rfl]
    simp only [if_true, skip_pad hpad, skip_begins begins', members, Option.map_some,
      String.ofList_toList]

end

/-- Reading a value inverts writing it. -/
theorem parse_print (hpad : ∀ c ∈ pad, isSpace c = true) {v : Json} (hv : v.Readable) :
    parse (print pad v) = some v := by
  have whole := scanValue_print hpad v (print pad v).length [] hv (Nat.le_refl _) fun c h => by cases h
  rw [List.append_nil] at whole
  simp only [parse, skip_begins (print_begins _ hv), whole, Option.bind_some]
  rfl

end RoundTrip

/-! ## The text is ASCII -/

theorem printable_hexDigit {n : ℕ} (h : n < 16) : Printable (hexDigit n) := by
  have all : ∀ m : Fin 16, ' ' ≤ hexDigit m ∧ hexDigit m ≤ '~' := by decide
  exact all ⟨n, h⟩

theorem printable_unicodeEscape {n : ℕ} (h : n < 0x10000) {c : Char} (hc : c ∈ unicodeEscape n) :
    Printable c := by
  simp only [unicodeEscape, hex4, List.mem_cons, List.not_mem_nil, or_false] at hc
  rcases hc with rfl | rfl | rfl | rfl | rfl | rfl
  · exact ⟨by decide, by decide⟩
  · exact ⟨by decide, by decide⟩
  all_goals exact printable_hexDigit (by omega)

theorem printable_escape {a c : Char} (hc : c ∈ escape a) : Printable c := by
  have short : ∀ e : Char, Printable e → c ∈ ['\\', e] → Printable c := by
    intro e he h
    simp only [List.mem_cons, List.not_mem_nil, or_false] at h
    rcases h with rfl | rfl
    · exact ⟨by decide, by decide⟩
    · exact he
  have valid := toNat_valid a
  unfold escape at hc
  split_ifs at hc with h1 h2 h3 h4 h5 h6 h7 hplain hbasic
  iterate 7 exact short _ ⟨by decide, by decide⟩ hc
  · rw [List.mem_singleton.1 hc]
    exact hplain
  · exact printable_unicodeEscape hbasic hc
  · rcases List.mem_append.1 hc with hc | hc <;> exact printable_unicodeEscape (by omega) hc

theorem printable_quote {s : List Char} {c : Char} (hc : c ∈ quote s) : Printable c := by
  simp only [quote, List.cons_append, List.mem_cons, List.mem_append, List.mem_flatMap,
    List.not_mem_nil, or_false] at hc
  rcases hc with rfl | ⟨a, -, ha⟩ | rfl
  · exact ⟨by decide, by decide⟩
  · exact printable_escape ha
  · exact ⟨by decide, by decide⟩

theorem printable_digit {c : Char} (h : c.isDigit = true) : Printable c := by
  simp only [Char.isDigit, Bool.and_eq_true, decide_eq_true_eq] at h
  have low : '0' ≤ c := h.1
  have high : c ≤ '9' := h.2
  exact ⟨Char.le_trans (show ' ' ≤ '0' by decide) low, Char.le_trans high (show '9' ≤ '~' by decide)⟩

theorem printable_integer {n : ℤ} {c : Char} (hc : c ∈ integer n) : Printable c := by
  unfold integer at hc
  split_ifs at hc
  · rcases List.mem_cons.1 hc with rfl | hc
    · exact ⟨by decide, by decide⟩
    · exact printable_digit (mem_natural hc)
  · exact printable_digit (mem_natural hc)

section Printable

variable {pad : List Char}

mutual

/-- What is written is printable ASCII. -/
theorem printable_print (hpad : ∀ c ∈ pad, Printable c) : ∀ (v : Json), v.Readable →
    ∀ c ∈ print pad v, Printable c
  | .null, _, c, hc => by
    simp only [print, List.mem_cons, List.not_mem_nil, or_false] at hc
    rcases hc with rfl | rfl | rfl | rfl <;> exact ⟨by decide, by decide⟩
  | .bool true, _, c, hc => by
    simp only [print, List.mem_cons, List.not_mem_nil, or_false] at hc
    rcases hc with rfl | rfl | rfl | rfl <;> exact ⟨by decide, by decide⟩
  | .bool false, _, c, hc => by
    simp only [print, List.mem_cons, List.not_mem_nil, or_false] at hc
    rcases hc with rfl | rfl | rfl | rfl | rfl <;> exact ⟨by decide, by decide⟩
  | .int n, _, c, hc => printable_integer hc
  | .real token, hv, c, hc => hv.2.2 c hc
  | .str s, _, c, hc => printable_quote hc
  | .arr items, hv, c, hc => by
    simp only [print, List.mem_cons, List.mem_append, List.not_mem_nil, or_false] at hc
    rcases hc with rfl | hc | rfl
    · exact ⟨by decide, by decide⟩
    · exact printable_items hpad items hv c hc
    · exact ⟨by decide, by decide⟩
  | .obj members, hv, c, hc => by
    simp only [print, List.mem_cons, List.mem_append, List.not_mem_nil, or_false] at hc
    rcases hc with rfl | hc | rfl
    · exact ⟨by decide, by decide⟩
    · exact printable_members hpad members hv c hc
    · exact ⟨by decide, by decide⟩

theorem printable_items (hpad : ∀ c ∈ pad, Printable c) : ∀ (items : List Json),
    ReadableItems items → ∀ c ∈ printItems pad items, Printable c
  | [], _, c, hc => by cases hc
  | [v], hv, c, hc => printable_print hpad v hv.1 c hc
  | v :: w :: items, hv, c, hc => by
    simp only [printItems, List.mem_cons, List.mem_append] at hc
    rcases hc with hc | rfl | hc | hc
    · exact printable_print hpad v hv.1 c hc
    · exact ⟨by decide, by decide⟩
    · exact hpad c hc
    · exact printable_items hpad (w :: items) hv.2 c hc

theorem printable_members (hpad : ∀ c ∈ pad, Printable c) : ∀ (members : List (String × Json)),
    ReadableMembers members → ∀ c ∈ printMembers pad members, Printable c
  | [], _, c, hc => by cases hc
  | [(k, v)], hv, c, hc => by
    simp only [printMembers, List.mem_cons, List.mem_append] at hc
    rcases hc with hc | rfl | hc | hc
    · exact printable_quote hc
    · exact ⟨by decide, by decide⟩
    · exact hpad c hc
    · exact printable_print hpad v hv.1 c hc
  | (k, v) :: m :: members, hv, c, hc => by
    simp only [printMembers, List.mem_cons, List.mem_append] at hc
    rcases hc with hc | rfl | hc | hc | rfl | hc | hc
    · exact printable_quote hc
    · exact ⟨by decide, by decide⟩
    · exact hpad c hc
    · exact printable_print hpad v hv.1 c hc
    · exact ⟨by decide, by decide⟩
    · exact hpad c hc
    · exact printable_members hpad (m :: members) hv.2 c hc

end

end Printable

end Json
