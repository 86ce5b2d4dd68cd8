import Mathlib.Data.Int.Notation
import Mathlib.Data.Nat.Notation
import Mathlib.Tactic.Common

/-!
# Integers in texts

How a C++ stream without a number base (`std::ios::dec` unset) extracts an integer: white
space, a sign, then digits whose base is told by a leading `0` or `0x`. `readInteger` takes
the whole text, with white space after the number; it does not know a range. `readsFloat`
tells whether a text is a number of type `float`, without its value.

`readInteger_toString`: the decimal text of a number is read back.
-/

namespace NumGet

/-- `isspace` in the C locale. -/
def isSpace (c : Char) : Bool :=
  c = ' ' || c = '\t' || c = '\n' || c.toNat = 11 || c.toNat = 12 || c = '\r'

/-- The value of a digit in the given base. -/
def digitValue (base : ℕ) (c : Char) : Option ℕ :=
  let value :=
    if c.isDigit then c.toNat - 48
    else if 'a' ≤ c ∧ c ≤ 'f' then c.toNat - 87
    else if 'A' ≤ c ∧ c ≤ 'F' then c.toNat - 55
    else base
  if value < base then some value else none

/-- All the digits at the beginning, as a number, and what is after them. -/
def readDigits (base : ℕ) : ℕ → List Char → ℕ × List Char
  | acc, [] => (acc, [])
  | acc, c :: cs =>
    match digitValue base c with
    | some d => readDigits base (base * acc + d) cs
    | none => (acc, c :: cs)

/-- At least one digit. -/
def readNumber (base : ℕ) (cs : List Char) : Option (ℕ × List Char) :=
  match cs with
  | [] => none
  | c :: _ => if (digitValue base c).isSome then some (readDigits base 0 cs) else none

/-- A number with its base detected. -/
def readUnsigned : List Char → Option (ℕ × List Char)
  | '0' :: 'x' :: cs => readNumber 16 cs
  | '0' :: 'X' :: cs => readNumber 16 cs
  -- the zero is a number already, whatever octal digits come after it
  | '0' :: cs => some (readDigits 8 0 cs)
  | cs => readNumber 10 cs

/-- A sign, if there is one, and what is after it. -/
def readSign : List Char → Bool × List Char
  | '-' :: cs => (true, cs)
  | '+' :: cs => (false, cs)
  | cs => (false, cs)

/-- The integer that a text is, white space around it apart. -/
def readInteger (s : String) : Option ℤ :=
  let (negative, cs) := readSign (s.toList.dropWhile isSpace)
  match readUnsigned cs with
  | none => none
  | some (n, rest) =>
    if rest.all isSpace then some (if negative then -(n : ℤ) else n) else none

/-! ## Floating-point texts -/

/-- The exponent of a decimal, zero if there is none, and what is after it. -/
def readExponent (cs : List Char) : Option (ℤ × List Char) :=
  match cs with
  | [] => some (0, [])
  | c :: rest =>
    if c = 'e' || c = 'E' then
      let (negative, digits) := readSign rest
      (readNumber 10 digits).map fun (n, rest) => (if negative then -(n : ℤ) else n, rest)
    else some (0, cs)

/-- Digits with a point in them or not, as `mantissa * 10 ^ exponent`. -/
def readDecimal (cs : List Char) : Option (ℕ × ℤ × List Char) :=
  let (whole, rest) := readDigits 10 0 cs
  let (mantissa, places, rest') :=
    match rest with
    | '.' :: fraction =>
      let (mantissa, rest') := readDigits 10 whole fraction
      (mantissa, fraction.length - rest'.length, rest')
    | _ => (whole, 0, rest)
  -- a point alone is no number
  if rest.length = cs.length && places = 0 then none
  else (readExponent rest').map fun (e, rest) => (mantissa, e - (places : ℤ), rest)

/-- Half way between the largest `float` and the power of two after it: from here on a
number is out of range. -/
def floatLimit : ℕ := 340282356779733661637539395458142568448

def inFloatRange (mantissa : ℕ) : ℤ → Bool
  | .ofNat e => Nat.blt (mantissa * Nat.pow 10 e) floatLimit
  | .negSucc e => Nat.blt mantissa (floatLimit * Nat.pow 10 (e + 1))

/-- Whether a text is a decimal number in the range of `float`. -/
def readsFloat (s : String) : Bool :=
  match readDecimal (readSign (s.toList.dropWhile isSpace)).2 with
  | none => false
  | some (mantissa, e, rest) => rest.all isSpace && inFloatRange mantissa e

/-! ## Decimal texts -/

theorem digitValue_ten {c : Char} (h : c.isDigit = true) :
    digitValue 10 c = some (c.toNat - 48) := by
  have hrange : 48 ≤ c.toNat ∧ c.toNat ≤ 57 := Char.isDigit_iff_toNat.mp h
  rw [digitValue, if_pos h]
  exact if_pos (by omega)

/-- Decimal digits are read to the end. -/
theorem readDigits_ten (acc : ℕ) {cs : List Char} (h : ∀ c ∈ cs, c.isDigit = true) :
    readDigits 10 acc cs = (Nat.ofDigitChars 10 cs acc, []) := by
  induction cs generalizing acc with
  | nil => rfl
  | cons c cs ih =>
    have hc : digitValue 10 c = some (c.toNat - 48) := digitValue_ten (h c List.mem_cons_self)
    rw [readDigits, hc, Nat.ofDigitChars_cons]
    exact ih _ fun d hd => h d (List.mem_cons_of_mem _ hd)

/-- A number is written with digits. -/
theorem isDigit_toDigits (n : ℕ) : ∀ c ∈ Nat.toDigits 10 n, c.isDigit = true :=
  fun _ hc => Nat.isDigit_of_mem_toDigits (by decide) (by decide) hc

/-- Only zero begins with a zero. -/
theorem head_toDigits {n : ℕ} (h : 0 < n) : ∃ c cs, Nat.toDigits 10 n = c :: cs ∧ c ≠ '0' := by
  induction n using Nat.strongRecOn with
  | ind n ih =>
    by_cases hlt : n < 10
    · refine ⟨n.digitChar, [], Nat.toDigits_of_lt_base hlt, ?_⟩
      rw [Ne, Nat.digitChar_eq_zero]
      omega
    · obtain ⟨c, cs, hdigits, hc⟩ := ih (n / 10) (by omega) (by omega)
      refine ⟨c, cs ++ [(n % 10).digitChar], ?_, hc⟩
      rw [Nat.toDigits_of_base_le (by decide) (by omega), hdigits]
      rfl

/-- A number that was written is read back, and nothing is left. -/
theorem readUnsigned_toDigits (n : ℕ) : readUnsigned (Nat.toDigits 10 n) = some (n, []) := by
  by_cases hzero : n = 0
  · rw [hzero, Nat.toDigits_zero]
    rfl
  · obtain ⟨c, cs, hdigits, hc⟩ := head_toDigits (Nat.pos_of_ne_zero hzero)
    have hdigit : c.isDigit = true :=
      isDigit_toDigits n c (hdigits ▸ List.mem_cons_self)
    have hnumber : readUnsigned (c :: cs) = readNumber 10 (c :: cs) := by
      rw [readUnsigned]
      · exact fun _ h => absurd (List.cons.inj h).1 hc
      · exact fun _ h => absurd (List.cons.inj h).1 hc
      · exact fun _ h => absurd (List.cons.inj h).1 hc
    rw [hdigits, hnumber, readNumber, digitValue_ten hdigit, ← hdigits]
    show some (readDigits 10 0 (Nat.toDigits 10 n)) = _
    rw [readDigits_ten 0 (isDigit_toDigits n), Nat.ofDigitChars_ten_toDigits]

/-- Whatever is below the digits is none. -/
theorem ne_of_isDigit {c d : Char} (h : c.isDigit = true) (hd : d.toNat < 48) : c ≠ d := by
  rintro rfl
  have hrange : 48 ≤ c.toNat ∧ c.toNat ≤ 57 := Char.isDigit_iff_toNat.mp h
  omega

/-- A digit is no white space. -/
theorem isSpace_eq_false {c : Char} (h : c.isDigit = true) : isSpace c = false := by
  have hrange : 48 ≤ c.toNat ∧ c.toNat ≤ 57 := Char.isDigit_iff_toNat.mp h
  have h11 : c.toNat ≠ 11 := by omega
  have h12 : c.toNat ≠ 12 := by omega
  simp [isSpace, ne_of_isDigit h (show ' '.toNat < 48 by decide),
    ne_of_isDigit h (show '\t'.toNat < 48 by decide),
    ne_of_isDigit h (show '\n'.toNat < 48 by decide),
    ne_of_isDigit h (show '\r'.toNat < 48 by decide), h11, h12]

/-- Without a sign before them, digits are left as they are. -/
theorem readSign_of_isDigit {c : Char} {cs : List Char} (h : c.isDigit = true) :
    readSign (c :: cs) = (false, c :: cs) := by
  rw [readSign]
  · rintro cs' hcs
    exact ne_of_isDigit h (by decide) (List.cons.inj hcs).1
  · rintro cs' hcs
    exact ne_of_isDigit h (by decide) (List.cons.inj hcs).1

/-- White space and signs are no digits. -/
theorem readSign_dropWhile {cs : List Char} (h : ∀ c ∈ cs, c.isDigit = true) :
    readSign (cs.dropWhile isSpace) = (false, cs) := by
  cases cs with
  | nil => rfl
  | cons c cs =>
    have hc := h c List.mem_cons_self
    rw [List.dropWhile_cons_of_neg (by rw [isSpace_eq_false hc]; exact Bool.false_ne_true),
      readSign_of_isDigit hc]

/-- The decimal text of a natural number is read back. -/
theorem readInteger_repr (n : ℕ) : readInteger n.repr = some (n : ℤ) := by
  rw [readInteger, Nat.toList_repr, readSign_dropWhile (isDigit_toDigits n)]
  show (match readUnsigned (Nat.toDigits 10 n) with
    | none => none
    | some (n, rest) =>
      if rest.all isSpace then some (if false then -(n : ℤ) else n) else none : Option ℤ) = _
  rw [readUnsigned_toDigits]
  rfl

/-- The decimal text of a negative number is read back. -/
theorem readInteger_neg_repr (n : ℕ) : readInteger ("-" ++ n.repr) = some (-(n : ℤ)) := by
  have hlist : ("-" ++ n.repr).toList = '-' :: Nat.toDigits 10 n := by
    rw [String.toList_append, Nat.toList_repr]
    rfl
  rw [readInteger, hlist]
  show (match readUnsigned (Nat.toDigits 10 n) with
    | none => none
    | some (n, rest) =>
      if rest.all isSpace then some (if true then -(n : ℤ) else n) else none : Option ℤ) = _
  rw [readUnsigned_toDigits]
  rfl

/-- An integer that was written is read back. -/
theorem readInteger_toString (z : ℤ) : readInteger (toString z) = some z := by
  rw [Int.toString_eq_repr, Int.repr_eq_if]
  by_cases hz : 0 ≤ z
  · rw [if_pos hz, readInteger_repr, Int.toNat_of_nonneg hz]
  · rw [if_neg hz, readInteger_neg_repr, Int.toNat_of_nonneg (by omega), Int.neg_neg]

end NumGet
