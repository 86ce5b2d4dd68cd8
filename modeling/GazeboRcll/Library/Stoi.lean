import GazeboRcll.Library.NumGet
import Mathlib.Algebra.Ring.Int.Defs
import Mathlib.Data.List.TakeWhile

/-!
# `std::stoi`

A text is read as a number of type `int` of 32 bits: white space, a sign or none, and digits as
far as they go. Without a digit, or outside of the range, an exception is thrown.
`stoi_isOk_iff` says which texts are read.
-/

namespace NumGet

/-- The exceptions of `std::stoi`. -/
inductive StoiError where
  | invalidArgument | outOfRange
deriving DecidableEq, Repr

/-- The values of type `int`. -/
def InInt (z : ℤ) : Prop := -2 ^ 31 ≤ z ∧ z < 2 ^ 31

instance (z : ℤ) : Decidable (InInt z) := inferInstanceAs (Decidable (_ ∧ _))

/-- `std::stoi`. -/
def stoi (cs : List Char) : Except StoiError ℤ :=
  let (negative, cs) := readSign (cs.dropWhile isSpace)
  match readNumber 10 cs with
  | none => .error .invalidArgument
  | some (n, _) =>
    let z : ℤ := if negative then -n else n
    if InInt z then .ok z else .error .outOfRange

/-- The value of a sign and decimal digits. -/
def signedValue (sign digits : List Char) : ℤ :=
  if sign = ['-'] then -(Nat.ofDigitChars 10 digits 0 : ℤ) else Nat.ofDigitChars 10 digits 0

/-- White space, a sign or none, and decimal digits of a value in the range. -/
def ReadsInt (cs : List Char) : Prop :=
  ∃ space sign digits rest, cs = space ++ (sign ++ (digits ++ rest)) ∧
    (∀ c ∈ space, isSpace c = true) ∧ sign ∈ [[], ['-'], ['+']] ∧
    digits ≠ [] ∧ (∀ c ∈ digits, c.isDigit = true) ∧ (∀ c ∈ rest.head?, c.isDigit = false) ∧
    InInt (signedValue sign digits)

/-- What is no decimal digit has no value. -/
theorem digitValue_ten_eq_none {c : Char} (h : c.isDigit = false) : digitValue 10 c = none := by
  have hle : ∀ d : Char, d ≤ c → d.toNat ≤ c.toNat := fun _ hd => UInt32.le_iff_toNat_le.mp hd
  rw [digitValue, h]
  apply if_neg
  show ¬ (if 'a' ≤ c ∧ c ≤ 'f' then c.toNat - 87 else
    if 'A' ≤ c ∧ c ≤ 'F' then c.toNat - 55 else 10) < 10
  split_ifs with hlower hupper
  · have hc : 97 ≤ c.toNat := hle 'a' hlower.1
    omega
  · have hc : 65 ≤ c.toNat := hle 'A' hupper.1
    omega
  · omega

/-- The digits are read up to the first character that is none. -/
theorem readDigits_ten_append (acc : ℕ) {digits rest : List Char}
    (hdigits : ∀ c ∈ digits, c.isDigit = true) (hrest : ∀ c ∈ rest.head?, c.isDigit = false) :
    readDigits 10 acc (digits ++ rest) = (Nat.ofDigitChars 10 digits acc, rest) := by
  induction digits generalizing acc with
  | nil =>
    cases rest with
    | nil => rfl
    | cons c rest =>
      rw [List.nil_append, readDigits, digitValue_ten_eq_none (hrest c rfl)]
      rfl
  | cons c digits ih =>
    rw [List.cons_append, readDigits, digitValue_ten (hdigits c List.mem_cons_self),
      Nat.ofDigitChars_cons]
    exact ih _ fun d hd => hdigits d (List.mem_cons_of_mem _ hd)

/-- The digits are read up to the first other character. -/
theorem readNumber_ten_append {digits rest : List Char} (hne : digits ≠ [])
    (hdigits : ∀ c ∈ digits, c.isDigit = true) (hrest : ∀ c ∈ rest.head?, c.isDigit = false) :
    readNumber 10 (digits ++ rest) = some (Nat.ofDigitChars 10 digits 0, rest) := by
  cases digits with
  | nil => exact absurd rfl hne
  | cons c digits =>
    rw [List.cons_append, readNumber, digitValue_ten (hdigits c List.mem_cons_self),
      ← List.cons_append, readDigits_ten_append 0 hdigits hrest]
    rfl

/-- A sign, or none before a digit. -/
theorem readSign_append {sign cs : List Char} (hsign : sign ∈ [[], ['-'], ['+']])
    (hcs : ∃ c ∈ cs.head?, c.isDigit = true) :
    readSign (sign ++ cs) = (decide (sign = ['-']), cs) := by
  simp only [List.mem_cons, List.not_mem_nil, or_false] at hsign
  rcases hsign with rfl | rfl | rfl
  · obtain ⟨c, hc, hdigit⟩ := hcs
    cases cs with
    | nil => cases hc
    | cons d cs =>
      cases hc
      exact readSign_of_isDigit hdigit
  · rfl
  · rfl

/-- What the sign leaves. -/
theorem exists_sign (cs : List Char) :
    ∃ sign ∈ [[], ['-'], ['+']], cs = sign ++ (readSign cs).2 := by
  unfold readSign
  split
  · exact ⟨['-'], by simp, rfl⟩
  · exact ⟨['+'], by simp, rfl⟩
  · exact ⟨[], by simp, rfl⟩

/-- White space ends before a sign or a digit. -/
theorem dropWhile_isSpace_append {space sign cs : List Char}
    (hspace : ∀ c ∈ space, isSpace c = true) (hsign : sign ∈ [[], ['-'], ['+']])
    (hcs : ∃ c ∈ cs.head?, c.isDigit = true) :
    (space ++ (sign ++ cs)).dropWhile isSpace = sign ++ cs := by
  rw [List.dropWhile_append_of_pos hspace]
  simp only [List.mem_cons, List.not_mem_nil, or_false] at hsign
  rcases hsign with rfl | rfl | rfl
  · obtain ⟨c, hc, hdigit⟩ := hcs
    cases cs with
    | nil => cases hc
    | cons d cs =>
      cases hc
      exact List.dropWhile_cons_of_neg (by rw [isSpace_eq_false hdigit]; exact Bool.false_ne_true)
  · rfl
  · rfl

/-- White space, a sign and digits are converted, whatever follows. -/
theorem stoi_append {space sign digits rest : List Char} (hspace : ∀ c ∈ space, isSpace c = true)
    (hsign : sign ∈ [[], ['-'], ['+']]) (hne : digits ≠ [])
    (hdigits : ∀ c ∈ digits, c.isDigit = true) (hrest : ∀ c ∈ rest.head?, c.isDigit = false) :
    stoi (space ++ (sign ++ (digits ++ rest))) =
      if InInt (signedValue sign digits) then .ok (signedValue sign digits)
      else .error .outOfRange := by
  have hhead : ∃ c ∈ (digits ++ rest).head?, c.isDigit = true := by
    cases digits with
    | nil => exact absurd rfl hne
    | cons c digits => exact ⟨c, rfl, hdigits c List.mem_cons_self⟩
  rw [stoi, dropWhile_isSpace_append hspace hsign hhead, readSign_append hsign hhead]
  dsimp only
  rw [readNumber_ten_append hne hdigits hrest]
  by_cases hneg : sign = ['-'] <;> simp [signedValue, hneg]

/-- Without a digit no number is read. -/
theorem readNumber_ten_eq_none {cs : List Char} (h : cs.takeWhile Char.isDigit = []) :
    readNumber 10 cs = none := by
  cases cs with
  | nil => rfl
  | cons c cs =>
    have hc : c.isDigit = false := by
      rw [← Bool.not_eq_true]
      intro hdigit
      rw [List.takeWhile_cons_of_pos hdigit] at h
      cases h
    rw [readNumber, digitValue_ten_eq_none hc]
    rfl

/-- Without a digit an exception is thrown. -/
theorem stoi_eq_error {cs : List Char}
    (h : ((readSign (cs.dropWhile isSpace)).2.takeWhile Char.isDigit) = []) :
    stoi cs = .error .invalidArgument := by
  unfold stoi
  cases hsign : readSign (cs.dropWhile isSpace) with
  | mk negative rest =>
    rw [hsign] at h
    dsimp only
    rw [readNumber_ten_eq_none h]

/-- A text is read exactly if it is white space, a sign or none, and digits in the range. -/
theorem stoi_isOk_iff (cs : List Char) : (∃ z, stoi cs = .ok z) ↔ ReadsInt cs := by
  constructor
  · rintro ⟨z, hz⟩
    obtain ⟨sign, hsign, hcs⟩ := exists_sign (cs.dropWhile isSpace)
    set number := (readSign (cs.dropWhile isSpace)).2
    have hsplit : cs = cs.takeWhile isSpace ++ (sign ++
        (number.takeWhile Char.isDigit ++ number.dropWhile Char.isDigit)) := by
      rw [List.takeWhile_append_dropWhile, ← hcs, List.takeWhile_append_dropWhile]
    have hspace : ∀ c ∈ cs.takeWhile isSpace, isSpace c = true :=
      fun c hc => List.mem_takeWhile_imp hc
    have hdigits : ∀ c ∈ number.takeWhile Char.isDigit, c.isDigit = true :=
      fun c hc => List.mem_takeWhile_imp hc
    have hrest : ∀ c ∈ (number.dropWhile Char.isDigit).head?, c.isDigit = false := by
      intro c hc
      have hnot := List.head?_dropWhile_not Char.isDigit number
      rw [hc] at hnot
      exact hnot
    have hne : number.takeWhile Char.isDigit ≠ [] := by
      intro hnil
      rw [stoi_eq_error hnil] at hz
      cases hz
    rw [hsplit, stoi_append hspace hsign hne hdigits hrest] at hz
    refine ⟨_, sign, _, _, hsplit, hspace, hsign, hne, hdigits, hrest, ?_⟩
    by_contra hrange
    rw [if_neg hrange] at hz
    cases hz
  · rintro ⟨space, sign, digits, rest, rfl, hspace, hsign, hne, hdigits, hrest, hrange⟩
    exact ⟨_, by rw [stoi_append hspace hsign hne hdigits hrest, if_pos hrange]⟩

end NumGet
