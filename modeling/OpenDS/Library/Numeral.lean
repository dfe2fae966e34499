import Mathlib

/-!
# Numbers in strings

`strtol` and `strtoull` read a number off the front of a string: blanks, a sign and digits. They
say where they have stopped, and bring a number that is too large into their range.

A string that is read to its end is a numeral of one number (`readNumber_eq_iff`). The digits of
a number are read as that number, in every base up to 16 (`digitsValue_toDigits`).
-/

set_option autoImplicit false

namespace OpenDS.Library

/-- `isspace` -/
def isSpace (c : Char) : Bool := c.toNat == 32 || (9 ≤ c.toNat && c.toNat ≤ 13)

/-- What a character counts for as a digit. It is no digit where that is not below the base. -/
def digitValue (c : Char) : Nat :=
  if 48 ≤ c.toNat ∧ c.toNat ≤ 57 then c.toNat - 48
  else if 97 ≤ c.toNat ∧ c.toNat ≤ 122 then c.toNat - 87
  else if 65 ≤ c.toNat ∧ c.toNat ≤ 90 then c.toNat - 55
  else 36

/-- The character is a digit of the base. -/
def isDigitOf (base : Nat) (c : Char) : Bool := digitValue c < base

/-- The number that the digits denote, the most significant one first. -/
def digitsValue (base : Nat) (digits : List Char) : Nat :=
  digits.foldl (fun n c => n * base + digitValue c) 0

/-- Whether there is a minus sign, and what follows the sign. -/
def takeSign : List Char → Bool × List Char
  | '-' :: rest => (true, rest)
  | '+' :: rest => (false, rest)
  | s => (false, s)

/-- The number at the front of a string and what follows it, if there is a number. -/
def readNumber (base : Nat) (s : List Char) : Option (Int × List Char) :=
  let signed := takeSign (s.dropWhile isSpace)
  let digits := signed.2.takeWhile (isDigitOf base)
  if digits = [] then none
  else
    let n : Int := digitsValue base digits
    some (if signed.1 then -n else n, signed.2.dropWhile (isDigitOf base))

/-- `strtol(s, &end, 10)`: the number and the string from `end` on. -/
def strtol (s : List Char) : Int × List Char :=
  match readNumber 10 s with
  | none => (0, s)
  | some (n, rest) => (max (-2 ^ 63) (min (2 ^ 63 - 1) n), rest)

/-- The base that a prefix asks for, and what follows the prefix. -/
def takeBase : List Char → Nat × List Char
  | '0' :: x :: d :: rest =>
    if (x = 'x' ∨ x = 'X') ∧ isDigitOf 16 d then (16, d :: rest) else (8, '0' :: x :: d :: rest)
  | '0' :: rest => (8, '0' :: rest)
  | s => (10, s)

/-- `strtoull(s, NULL, 0)` -/
def strtoull (s : List Char) : UInt64 :=
  let signed := takeSign (s.dropWhile isSpace)
  let based := takeBase signed.2
  let n := digitsValue based.1 (based.2.takeWhile (isDigitOf based.1))
  if 2 ^ 64 ≤ n then UInt64.ofNat (2 ^ 64 - 1)
  else if signed.1 then -UInt64.ofNat n
  else UInt64.ofNat n

/-! ## Numerals -/

/-- A sign, and what it multiplies by. -/
inductive Sign : List Char → Int → Prop where
  | none : Sign [] 1
  | plus : Sign ['+'] 1
  | minus : Sign ['-'] (-1)

/-- The string denotes the number: it is blanks, a sign and at least one digit. -/
def Numeral (base : Nat) (s : List Char) (n : Int) : Prop :=
  ∃ blanks sign digits unit, s = blanks ++ (sign ++ digits) ∧ (∀ c ∈ blanks, isSpace c = true) ∧
    Sign sign unit ∧ digits ≠ [] ∧ (∀ c ∈ digits, isDigitOf base c = true) ∧
    n = unit * digitsValue base digits

variable {base : Nat} {c : Char} {s digits : List Char}

/-- A digit is neither a blank nor a sign. -/
theorem isSpace_of_digit (small : base ≤ 36) (digit : isDigitOf base c = true) :
    isSpace c = false := by
  rw [isDigitOf, decide_eq_true_eq, digitValue] at digit
  simp only [isSpace, Bool.or_eq_false_iff, beq_eq_false_iff_ne, Bool.and_eq_false_iff,
    decide_eq_false_iff_not]
  split_ifs at digit <;> omega

theorem takeSign_of_digit (small : base ≤ 36) (digit : isDigitOf base c = true) :
    takeSign (c :: s) = (false, c :: s) := by
  have other : ∀ d, digitValue d = 36 → c ≠ d := by
    rintro d none rfl
    simp only [isDigitOf, none, decide_eq_true_eq] at digit
    omega
  unfold takeSign
  split
  · rename_i same
    cases same
    exact absurd rfl (other '-' (by decide))
  · rename_i same
    cases same
    exact absurd rfl (other '+' (by decide))
  · rfl

/-- A sign is taken off, with its effect. -/
theorem takeSign_append {sign : List Char} {unit : Int} (signed : Sign sign unit)
    (small : base ≤ 36) (some' : digits ≠ []) (all : ∀ c ∈ digits, isDigitOf base c = true) :
    ∃ minus, takeSign (sign ++ digits) = (minus, digits) ∧ unit = if minus then -1 else 1 := by
  cases signed with
  | none =>
      cases digits with
      | nil => exact absurd rfl some'
      | cons d rest => exact ⟨false, takeSign_of_digit small (all d (List.mem_cons_self ..)), rfl⟩
  | plus => exact ⟨false, rfl, rfl⟩
  | minus => exact ⟨true, rfl, rfl⟩

theorem exists_sign (s : List Char) :
    ∃ sign unit, Sign sign unit ∧ s = sign ++ (takeSign s).2 ∧
      unit = if (takeSign s).1 then -1 else 1 := by
  unfold takeSign
  split
  · exact ⟨_, _, .minus, rfl, rfl⟩
  · exact ⟨_, _, .plus, rfl, rfl⟩
  · exact ⟨_, _, .none, rfl, rfl⟩

/-- **A string is read to its end as a number exactly if it is a numeral of it.** -/
theorem readNumber_eq_iff (small : base ≤ 36) (s : List Char) (n : Int) :
    readNumber base s = some (n, []) ↔ Numeral base s n := by
  constructor
  · intro read
    unfold readNumber at read
    dsimp only at read
    obtain ⟨sign, unit, signed, parted, effect⟩ := exists_sign (s.dropWhile isSpace)
    generalize takeSign (s.dropWhile isSpace) = taken at read parted effect
    by_cases none : taken.2.takeWhile (isDigitOf base) = []
    · rw [if_pos none] at read
      cases read
    · rw [if_neg none, Option.some.injEq, Prod.mk.injEq] at read
      obtain ⟨value, ended⟩ := read
      have whole : taken.2.takeWhile (isDigitOf base) = taken.2 := by
        have parts := List.takeWhile_append_dropWhile (p := isDigitOf base) (l := taken.2)
        rwa [ended, List.append_nil] at parts
      rw [whole] at none value
      refine ⟨s.takeWhile isSpace, sign, taken.2, unit, ?_, ?_, signed, none, ?_, ?_⟩
      · rw [← parted, List.takeWhile_append_dropWhile]
      · exact fun c mem => List.mem_takeWhile_imp mem
      · exact List.takeWhile_eq_self_iff.mp whole
      · rw [effect, ← value]
        split <;> simp
  · rintro ⟨blanks, sign, digits, unit, rfl, blank, signed, some', all, rfl⟩
    obtain ⟨minus, taken, effect⟩ := takeSign_append signed small some' all
    have head : (sign ++ digits).dropWhile isSpace = sign ++ digits := by
      cases signed with
      | none =>
          cases digits with
          | nil => exact absurd rfl some'
          | cons d rest =>
              have plain := isSpace_of_digit small (all d (List.mem_cons_self ..))
              simp [plain]
      | plus => rfl
      | minus => rfl
    have digitsOnly : digits.takeWhile (isDigitOf base) = digits := List.takeWhile_eq_self_iff.mpr all
    have nothing : digits.dropWhile (isDigitOf base) = [] := List.dropWhile_eq_nil_iff.mpr all
    rw [readNumber, List.dropWhile_append_of_pos blank, head, taken, digitsOnly, nothing]
    simp only [some', if_false, effect]
    cases minus <;> simp

/-! ## The digits of a number -/

theorem digitValue_digitChar : ∀ d, d < 16 → digitValue (Nat.digitChar d) = d := by
  decide

theorem digitsValue_append (front : List Char) (c : Char) :
    digitsValue base (front ++ [c]) = digitsValue base front * base + digitValue c := by
  simp [digitsValue]

/-- **The digits of a number are read as that number.** -/
theorem digitsValue_toDigits (two : 1 < base) (small : base ≤ 16) (n : Nat) :
    digitsValue base (Nat.toDigits base n) = n := by
  induction n using Nat.strong_induction_on with
  | _ n ih =>
      by_cases low : n < base
      · rw [Nat.toDigits_of_lt_base low]
        simpa [digitsValue] using digitValue_digitChar n (by omega)
      · have shorter : n / base < n := Nat.div_lt_self (by omega) two
        have last : n % base < base := Nat.mod_lt n (by omega)
        rw [Nat.toDigits_of_base_le two (by omega), digitsValue_append, ih _ shorter,
          digitValue_digitChar _ (by omega), Nat.div_add_mod']

theorem isDigitOf_toDigits (two : 1 < base) (small : base ≤ 16) (n : Nat) :
    ∀ c ∈ Nat.toDigits base n, isDigitOf base c = true := by
  induction n using Nat.strong_induction_on with
  | _ n ih =>
      have digit : ∀ d, d < base → isDigitOf base (Nat.digitChar d) = true := by
        intro d low
        rw [isDigitOf, digitValue_digitChar d (by omega)]
        exact decide_eq_true low
      by_cases low : n < base
      · rw [Nat.toDigits_of_lt_base low]
        simpa using digit n low
      · have shorter : n / base < n := Nat.div_lt_self (by omega) two
        rw [Nat.toDigits_of_base_le two (by omega)]
        intro c mem
        rcases List.mem_append.mp mem with mem | mem
        · exact ih _ shorter c mem
        · rw [List.mem_singleton.mp mem]
          exact digit _ (Nat.mod_lt n (by omega))

/-- **A hexadecimal number that fits is read back.** -/
theorem strtoull_hex {n : Nat} (fits : n < 2 ^ 64) :
    strtoull ('0' :: 'x' :: Nat.toDigits 16 n) = UInt64.ofNat n := by
  have all : ∀ c ∈ Nat.toDigits 16 n, isDigitOf 16 c = true :=
    isDigitOf_toDigits (by decide) (by decide) n
  have value : digitsValue 16 (Nat.toDigits 16 n) = n :=
    digitsValue_toDigits (by decide) (by decide) n
  cases digits : Nat.toDigits 16 n with
  | nil => exact absurd digits Nat.toDigits_ne_nil
  | cons d rest =>
      rw [digits] at all value
      have first : isDigitOf 16 d = true := all d (List.mem_cons_self ..)
      have plain : ('0' :: 'x' :: d :: rest).dropWhile isSpace = '0' :: 'x' :: d :: rest := rfl
      have unsigned : takeSign ('0' :: 'x' :: d :: rest) = (false, '0' :: 'x' :: d :: rest) := rfl
      have based : takeBase ('0' :: 'x' :: d :: rest) = (16, d :: rest) := by
        simp [takeBase, first]
      have whole : (d :: rest).takeWhile (isDigitOf 16) = d :: rest :=
        List.takeWhile_eq_self_iff.mpr all
      rw [strtoull, plain, unsigned]
      simp only [based, whole, value]
      rw [if_neg (by omega), if_neg (by simp)]

end OpenDS.Library
