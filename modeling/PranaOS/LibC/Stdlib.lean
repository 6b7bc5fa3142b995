import PranaOS.LibC.Ctype
import PranaOS.ToMathlib.Digits

/-!
# `LibC/stdlib.cpp`: `strtol`, `strtoll` and `strtoull`

A string is the list of its bytes before the NUL, and a pointer into a string is what follows it there.

The functions are compared with the conversion that the C standard asks for (`standardConversion`). They differ from
it in how they treat the prefix `0x` and a sign, and in the values next to the limits of the type, because
the last digit is compared with `<` and, for negative numbers, with a negative digit.
-/

namespace LibC

open Digits

/-! ## `NumParser` -/

/-- `Sign`. -/
inductive Sign where
  | Negative
  | Positive
deriving DecidableEq

/-- `DigitConsumeDecision`. -/
inductive DigitConsumeDecision where
  | Consumed
  | PosOverflow
  | NegOverflow
  | Invalid
deriving DecidableEq

/-- `NumParser`. The limits of the type are arguments of the constructor. -/
structure NumParser where
  base : ℤ
  num : ℤ
  cutoff : ℤ
  maxDigitAfterCutoff : ℤ
  sign : Sign
deriving DecidableEq

namespace NumParser

/-- `NumParser(sign, base)`. -/
def create (minValue maxValue : ℤ) (sign : Sign) (base : ℤ) : NumParser where
  base := base
  num := 0
  sign := sign
  cutoff := if sign ≠ .Negative then maxValue.tdiv base else minValue.tdiv base
  maxDigitAfterCutoff := if sign ≠ .Negative then maxValue.tmod base else minValue.tmod base

variable (self : NumParser)

/-- `positive`. -/
def positive : Bool := self.sign ≠ .Negative

/-- `parse_digit`. -/
def parseDigit (ch : UInt8) : ℤ :=
  let check (digit : ℤ) : ℤ := if digit ≥ self.base then -1 else digit
  if isdigit ch then check ((ch.toNat : ℤ) - 48)
  else if islower ch then check ((ch.toNat : ℤ) - (97 - 10))
  else if isupper ch then check ((ch.toNat : ℤ) - (65 - 10))
  else -1

/-- `can_append_digit`. -/
def canAppendDigit (digit : ℤ) : Bool :=
  let isBelowCutoff := if self.positive then self.num < self.cutoff else self.num > self.cutoff
  if isBelowCutoff then true
  else self.num = self.cutoff ∧ digit < self.maxDigitAfterCutoff

/-- `consume`. -/
def consume (ch : UInt8) : DigitConsumeDecision × NumParser :=
  let digit := self.parseDigit ch
  if digit = -1 then (.Invalid, self)
  else if !self.canAppendDigit digit then
    if self.sign ≠ .Negative then (.PosOverflow, self) else (.NegOverflow, self)
  else
    (.Consumed, { self with num := self.num * self.base + if self.positive then digit else -digit })

end NumParser

/-! ## The functions -/

/-- `strtons`. -/
def strtons : CString → CString
  | [] => []
  | ch :: rest => if isspace ch then strtons rest else ch :: rest

/-- `strtosign`. -/
def strtosign : CString → Sign × CString
  | ch :: rest =>
    if ch = 43 then (.Positive, rest) else if ch = 45 then (.Negative, rest)
    else (.Positive, ch :: rest)
  | [] => (.Positive, [])

/-- The string starts with `0x`. -/
def startsWithHex : CString → Bool
  | zero :: x :: _ => zero = 48 ∧ tolower x = 120
  | _ => false

/-- The base and the digits, for the base 0. -/
def parseBase (parsePtr : CString) : ℤ × CString :=
  if startsWithHex parsePtr then (16, parsePtr.drop 2)
  else if parsePtr.head? = some 48 then (8, parsePtr)
  else (10, parsePtr)

/-- What is known while the digits are parsed. -/
structure ParseState where
  digits : NumParser
  digitsUsable : Bool
  overflow : Bool
  parsePtr : CString

/-- The loop over the digits. The NUL at the end is not a digit. -/
def parseDigits (digits : NumParser) (digitsUsable overflow : Bool) : CString → ParseState
  | [] => ⟨digits, digitsUsable, overflow, []⟩
  | ch :: rest =>
    if overflow then
      if digits.parseDigit ch ≥ 0 then parseDigits digits digitsUsable overflow rest
      else ⟨digits, digitsUsable, overflow, ch :: rest⟩
    else
      match digits.consume ch with
      | (.Consumed, digits) => parseDigits digits true overflow rest
      | (.PosOverflow, digits) | (.NegOverflow, digits) => parseDigits digits digitsUsable true rest
      | (.Invalid, digits) => ⟨digits, digitsUsable, overflow, ch :: rest⟩

/-- The result of a conversion: the value, `endptr`, and whether `errno` is set to `ERANGE`. -/
structure Conversion where
  value : ℤ
  endptr : CString
  erange : Bool
deriving DecidableEq

/-- `LONG_LONG_MIN`. -/
def longLongMin : ℤ := -9223372036854775808

/-- `LONG_LONG_MAX`. -/
def longLongMax : ℤ := 9223372036854775807

/-- `ULONG_LONG_MAX`. -/
def ulongLongMax : ℤ := 18446744073709551615

/-- `LONG_MIN`. -/
def longMin : ℤ := -2147483648

/-- `LONG_MAX`. -/
def longMax : ℤ := 2147483647

variable (str : CString)

/-- The end of `strtoll` and `strtoull`, where they differ in the values for an overflow. -/
def finish (state : ParseState) (overflowValue : ℤ) : Conversion :=
  if !state.digitsUsable then ⟨0, str, false⟩
  else if state.overflow then ⟨overflowValue, state.parsePtr, true⟩
  else ⟨state.digits.num, state.parsePtr, false⟩

/-- `strtoll`. -/
def strtoll (base : ℤ) : Conversion :=
  let parsePtr := strtons str
  let (sign, parsePtr) := strtosign parsePtr
  let (base, parsePtr) := if base = 0 then parseBase parsePtr else (base, parsePtr)
  let state := parseDigits (.create longLongMin longLongMax sign base) false false parsePtr
  finish str state (if sign ≠ .Negative then longLongMax else longLongMin)

/-- `strtol`. -/
def strtol (base : ℤ) : Conversion :=
  let result := strtoll str base
  if result.value < longMin then { result with value := longMin, erange := true }
  else if result.value > longMax then { result with value := longMax, erange := true }
  else result

/-- `strtoull`. -/
def strtoull (base : ℤ) : Conversion :=
  let parsePtr := strtons str
  let parsePtr := if base = 16 ∧ startsWithHex parsePtr then parsePtr.drop 2 else parsePtr
  let (base, parsePtr) := if base = 0 then parseBase parsePtr else (base, parsePtr)
  let state := parseDigits (.create 0 ulongLongMax .Positive base) false false parsePtr
  finish str state longLongMax

/-! ## What the standard asks for -/

/-- The string starts with `0x` and a hexadecimal digit. -/
def hasHexPrefix : Bool :=
  startsWithHex str && (str.drop 2).head?.any (isDigitOf 16)

/-- The parts of a string that the conversion is about. -/
structure Subject where
  negative : Bool
  base : ℕ
  digits : CString
  rest : CString

/-- What follows the spaces and the sign. -/
def unsigned : CString := (strtosign (strtons str)).2

/-- The base and the digits with what follows them. A prefix `0x` belongs to a number only if a digit
follows. -/
def withoutPrefix (base : ℕ) (str : CString) : ℕ × CString :=
  if (base = 0 ∨ base = 16) ∧ hasHexPrefix str then (16, str.drop 2)
  else if base = 0 then (if str.head? = some 48 then 8 else 10, str)
  else (base, str)

/-- The subject of a conversion. -/
def subject (base : ℕ) (str : CString) : Subject :=
  let (radix, digits) := withoutPrefix base (unsigned str)
  { negative := (strtosign (strtons str)).1 = .Negative
    base := radix
    digits := digits.takeWhile (isDigitOf radix)
    rest := digits.dropWhile (isDigitOf radix) }

/-- The number without its sign. -/
def Subject.magnitude (self : Subject) : ℕ := valueFrom self.base 0 self.digits

/-- The number. -/
def Subject.value (self : Subject) : ℤ := if self.negative then -self.magnitude else self.magnitude

/-- The conversion to a type with the limits. -/
def standardConversion (minValue maxValue : ℤ) (base : ℕ) (str : CString) : Conversion :=
  let self := subject base str
  if self.digits = [] then ⟨0, str, false⟩
  else if self.value < minValue then ⟨minValue, self.rest, true⟩
  else if maxValue < self.value then ⟨maxValue, self.rest, true⟩
  else ⟨self.value, self.rest, false⟩

/-! ## Digits -/

section Digits

variable {base bound n : ℕ} {self : NumParser} {ch : UInt8}

theorem NumParser.parseDigit_eq (h : self.base = base) (ch : UInt8) :
    self.parseDigit ch = if isDigitOf base ch then ((digitValue ch).getD 0 : ℤ) else -1 := by
  simp only [parseDigit, isDigitOf, digitValue, h, isdigit, islower, isupper, Bool.and_eq_true,
    decide_eq_true_eq, UInt8.le_iff_toNat_le, UInt8.reduceToNat]
  split
  next hdigit =>
    simp only [Option.any_some, decide_eq_true_eq, Option.getD_some]
    split <;> split <;> omega
  next =>
    split
    next hlower =>
      simp only [Option.any_some, decide_eq_true_eq, Option.getD_some]
      split <;> split <;> omega
    next =>
      split
      next hupper =>
        simp only [Option.any_some, decide_eq_true_eq, Option.getD_some]
        split <;> split <;> omega
      next => rfl

/-- The parser has parsed the number `n`, and accepts digits as long as the number stays below `bound`. -/
structure NumParser.Tracks (parser : NumParser) (base bound n : ℕ) : Prop where
  base_eq : parser.base = base
  num_eq : parser.num = if parser.positive then (n : ℤ) else -n
  accepts : ∀ n digit : ℕ, digit < base →
    (canAppendDigit { parser with num := if parser.positive then (n : ℤ) else -n } digit = true ↔
      n * base + digit < bound)

/-- The parser after a digit. -/
def NumParser.append (self : NumParser) (digit : ℤ) : NumParser :=
  { self with num := self.num * self.base + if self.positive then digit else -digit }

variable (h : self.Tracks base bound n)

include h

theorem NumParser.Tracks.append (digit : ℕ) :
    (self.append digit).Tracks base bound (n * base + digit) := by
  refine ⟨h.base_eq, ?_, h.accepts⟩
  have hnum := h.num_eq
  change self.num * self.base + (if self.positive then (digit : ℤ) else -digit) =
    if self.positive then ((n * base + digit : ℕ) : ℤ) else -((n * base + digit : ℕ) : ℤ)
  rw [hnum, h.base_eq]
  push_cast
  split
  · rfl
  · ring

/-- What `consume` does with a digit. -/
theorem NumParser.Tracks.consume_digit (hdigit : isDigitOf base ch) :
    self.consume ch =
      if n * base + (digitValue ch).getD 0 < bound then (.Consumed, self.append ((digitValue ch).getD 0))
      else if self.sign ≠ .Negative then (.PosOverflow, self) else (.NegOverflow, self) := by
  have hparse := self.parseDigit_eq h.base_eq ch
  rw [if_pos hdigit] at hparse
  have hiff := h.accepts n _ (digitValue_lt hdigit)
  rw [← h.num_eq] at hiff
  simp only [consume, hparse, show ¬ ((digitValue ch).getD 0 : ℤ) = -1 by omega, if_false]
  by_cases hlt : n * base + (digitValue ch).getD 0 < bound
  · rw [if_pos hlt, hiff.mpr hlt]
    rfl
  · rw [if_neg hlt, Bool.eq_false_iff.mpr fun happend => hlt (hiff.mp happend)]
    rfl

theorem NumParser.Tracks.consume_of_not (hdigit : ¬ isDigitOf base ch) :
    self.consume ch = (.Invalid, self) := by
  have hparse := self.parseDigit_eq h.base_eq ch
  rw [if_neg hdigit] at hparse
  simp [consume, hparse]

/-- After an overflow, the digits are skipped. -/
theorem parseDigits_overflow (digitsUsable : Bool) (str : CString) :
    parseDigits self digitsUsable true str =
      ⟨self, digitsUsable, true, str.dropWhile (isDigitOf base)⟩ := by
  induction str with
  | nil => rfl
  | cons ch rest ih =>
    have hparse := self.parseDigit_eq h.base_eq ch
    unfold parseDigits
    by_cases hdigit : isDigitOf base ch
    · rw [if_pos hdigit] at hparse
      simp [hparse, hdigit, ih]
    · rw [if_neg hdigit] at hparse
      simp [hparse, hdigit]

omit h

/-- The loop, once a digit has been parsed: it ends behind the digits, and overflows if the number is not
below the bound. -/
theorem parseDigits_usable (hbase : 0 < base) (h : self.Tracks base bound n) (hn : n < bound)
    (str : CString) :
    ∃ parser, parseDigits self true false str = ⟨parser, true,
        decide (bound ≤ valueFrom base n (str.takeWhile (isDigitOf base))),
        str.dropWhile (isDigitOf base)⟩ ∧
      (valueFrom base n (str.takeWhile (isDigitOf base)) < bound →
        parser.num = if self.positive then (valueFrom base n (str.takeWhile (isDigitOf base)) : ℤ)
          else -(valueFrom base n (str.takeWhile (isDigitOf base)) : ℤ)) := by
  induction str generalizing self n with
  | nil =>
    refine ⟨self, ?_, fun _ => h.num_eq⟩
    simp [parseDigits, valueFrom, Nat.not_le.mpr hn]
  | cons ch rest ih =>
    by_cases hdigit : isDigitOf base ch
    · obtain ⟨next, hnext⟩ : ∃ next, next = n * base + (digitValue ch).getD 0 := ⟨_, rfl⟩
      have hvalue : valueFrom base n ((ch :: rest).takeWhile (isDigitOf base)) =
          valueFrom base next (rest.takeWhile (isDigitOf base)) := by
        rw [List.takeWhile_cons_of_pos hdigit, hnext]
        rfl
      rw [hvalue, List.dropWhile_cons_of_pos hdigit]
      have hconsume := h.consume_digit hdigit
      rw [← hnext] at hconsume
      by_cases hlt : next < bound
      · rw [if_pos hlt] at hconsume
        obtain ⟨parser, hparse, hnum⟩ := ih (hnext ▸ h.append _) hlt
        exact ⟨parser, by simp [parseDigits, hconsume, hparse], hnum⟩
      · -- The number only gets bigger.
        have hle := (not_lt.mp hlt).trans
          (le_valueFrom hbase next (rest.takeWhile (isDigitOf base)))
        rw [if_neg hlt] at hconsume
        refine ⟨self, ?_, fun hnot => absurd hnot (not_lt.mpr hle)⟩
        split at hconsume <;>
          simp [parseDigits, hconsume, parseDigits_overflow h, hle]
    · refine ⟨self, ?_, fun _ => ?_⟩
      · simp [parseDigits, h.consume_of_not hdigit, hdigit, valueFrom, hn]
      · simp [hdigit, valueFrom, h.num_eq]

/-- A conversion of the digits, with a bound and the value for an overflow. -/
def conversionOf (str : CString) (base bound : ℕ) (positive : Bool) (overflowValue : ℤ)
    (digits : CString) : Conversion :=
  let number := valueFrom base 0 (digits.takeWhile (isDigitOf base))
  if digits.takeWhile (isDigitOf base) = [] then ⟨0, str, false⟩
  else if bound ≤ number then ⟨overflowValue, digits.dropWhile (isDigitOf base), true⟩
  else ⟨if positive then number else -number, digits.dropWhile (isDigitOf base), false⟩

/-- The loop and what follows it. -/
theorem finish_parseDigits (hbase : 0 < base) (h : self.Tracks base bound 0) (hbound : base ≤ bound)
    (str digits : CString) (overflowValue : ℤ) :
    finish str (parseDigits self false false digits) overflowValue =
      conversionOf str base bound self.positive overflowValue digits := by
  cases digits with
  | nil => rfl
  | cons ch rest =>
    by_cases hdigit : isDigitOf base ch
    · -- The first digit is always accepted.
      have hlt : 0 * base + (digitValue ch).getD 0 < bound := by
        have := digitValue_lt hdigit
        omega
      have hconsume := h.consume_digit hdigit
      rw [if_pos hlt] at hconsume
      obtain ⟨parser, hparse, hnum⟩ := parseDigits_usable hbase (h.append _) hlt rest
      have hvalue : valueFrom base 0 ((ch :: rest).takeWhile (isDigitOf base)) =
          valueFrom base (0 * base + (digitValue ch).getD 0) (rest.takeWhile (isDigitOf base)) := by
        rw [List.takeWhile_cons_of_pos hdigit]
        rfl
      have hloop : parseDigits self false false (ch :: rest) =
          parseDigits (self.append ((digitValue ch).getD 0)) true false rest := by
        simp [parseDigits, hconsume]
      rw [hloop, hparse, conversionOf, hvalue, List.takeWhile_cons_of_pos hdigit,
        List.dropWhile_cons_of_pos hdigit, if_neg (List.cons_ne_nil _ _), finish]
      simp only [Bool.not_true, Bool.false_eq_true, if_false, decide_eq_true_eq]
      split
      next => rfl
      next hle =>
        rw [hnum (not_le.mp hle)]
        rfl
    · simp [parseDigits, h.consume_of_not hdigit, finish, conversionOf, hdigit]

/-- A parser for numbers without a minus sign. -/
theorem tracks_create_positive (hbase : 0 < base) (minValue : ℤ) (maxValue : ℕ) :
    (NumParser.create minValue maxValue .Positive base).Tracks base maxValue 0 := by
  refine ⟨rfl, rfl, fun n digit hdigit => ?_⟩
  have hdiv : (maxValue : ℤ).tdiv base = (maxValue / base : ℕ) := by
    simp [Int.tdiv_eq_ediv_of_nonneg]
  have hmod : (maxValue : ℤ).tmod base = (maxValue % base : ℕ) := by
    simp [Int.tmod_eq_emod_of_nonneg]
  have hmax := Nat.div_add_mod' maxValue base
  have hlt := Nat.mod_lt maxValue hbase
  simp only [NumParser.canAppendDigit, NumParser.create, NumParser.positive, hdiv, hmod, ne_eq,
    reduceCtorEq, not_false_eq_true, decide_true, if_true, Nat.cast_lt, Nat.cast_inj]
  rcases lt_trichotomy n (maxValue / base) with hn | hn | hn
  · have := Nat.mul_le_mul_right base (show n + 1 ≤ maxValue / base from hn)
    rw [Nat.succ_mul] at this
    simp only [hn, if_true, true_iff]
    omega
  · rw [← hn] at hmax
    simp only [← hn, lt_irrefl, if_false, true_and, decide_eq_true_eq]
    omega
  · have := Nat.mul_le_mul_right base (show maxValue / base + 1 ≤ n from hn)
    rw [Nat.succ_mul] at this
    simp only [hn.not_gt, hn.ne', if_false, false_and, decide_false, Bool.false_eq_true, false_iff]
    omega

/-- A parser for numbers with a minus sign. Its bound is the beginning of the last row of `base` numbers
before the limit. -/
theorem tracks_create_negative (hbase : 0 < base) (maxValue : ℤ) (minMagnitude : ℕ) :
    (NumParser.create (-minMagnitude) maxValue .Negative base).Tracks base
      (minMagnitude / base * base) 0 := by
  refine ⟨rfl, rfl, fun n digit hdigit => ?_⟩
  have hdiv : (-(minMagnitude : ℤ)).tdiv base = -(minMagnitude / base : ℕ) := by
    simp [Int.tdiv_eq_ediv_of_nonneg]
  -- The last digit is compared with a number that is not positive.
  have hmod : (-(minMagnitude : ℤ)).tmod base ≤ 0 := by
    rw [Int.neg_tmod, Int.tmod_eq_emod_of_nonneg (Int.natCast_nonneg minMagnitude)]
    have := Int.emod_nonneg (minMagnitude : ℤ) (show (base : ℤ) ≠ 0 by omega)
    omega
  have hdigits : (n * base + digit) / base = n := by
    rw [Nat.mul_comm, Nat.mul_add_div hbase, Nat.div_eq_of_lt hdigit, Nat.add_zero]
  rw [← Nat.div_lt_iff_lt_mul hbase, hdigits]
  simp only [NumParser.canAppendDigit, NumParser.create, NumParser.positive, hdiv, ne_eq, not_true,
    decide_false, Bool.false_eq_true, if_false]
  split <;> simp only [eq_self, true_iff, decide_eq_true_eq] <;> omega

end Digits

/-! ## Prefixes -/

section Prefixes

variable {base : ℕ} {str : CString}

/-- The base and the digits as `strtoll` takes them. -/
def codePrefix (base : ℕ) (str : CString) : ℕ × CString :=
  if base = 0 then
    if startsWithHex str then (16, str.drop 2)
    else if str.head? = some 48 then (8, str)
    else (10, str)
  else (base, str)

/-- `strtoll` recognises `0x` only for the base 0, and then also without a digit behind it. -/
def PrefixOk (base : ℕ) (str : CString) : Prop :=
  ¬ (base = 16 ∧ hasHexPrefix (unsigned str)) ∧
  ¬ (base = 0 ∧ startsWithHex (unsigned str) ∧ ¬ hasHexPrefix (unsigned str))
deriving Decidable

theorem startsWithHex_of_hasHexPrefix (h : hasHexPrefix str = true) : startsWithHex str = true := by
  simp only [hasHexPrefix, Bool.and_eq_true] at h
  exact h.1

/-- The `x` of a prefix is not a hexadecimal digit. -/
theorem isDigitOf_of_tolower {x : UInt8} (h : tolower x = 120) : isDigitOf 16 x = false := by
  have hall : ∀ n : Fin 256, tolower (UInt8.ofNat n) = 120 → isDigitOf 16 (UInt8.ofNat n) = false := by
    decide +kernel
  have hx := hall ⟨x.toNat, x.toNat_lt⟩
  rw [UInt8.ofNat_toNat] at hx
  exact hx h

/-- What starts with `0x`. -/
theorem exists_of_startsWithHex (h : startsWithHex str = true) :
    ∃ x rest, str = 48 :: x :: rest ∧ isDigitOf 16 x = false := by
  match str with
  | [] | [_] => cases h
  | zero :: x :: rest =>
    simp only [startsWithHex, decide_eq_true_eq] at h
    obtain ⟨rfl, hx⟩ := h
    exact ⟨x, rest, rfl, isDigitOf_of_tolower hx⟩

theorem parseBase_eq (base : ℕ) (str : CString) :
    (if (base : ℤ) = 0 then parseBase str else ((base : ℤ), str)) =
      (((codePrefix base str).1 : ℤ), (codePrefix base str).2) := by
  unfold codePrefix parseBase
  by_cases hbase : base = 0
  · simp only [hbase, Nat.cast_zero, if_true]
    split
    · rfl
    · split <;> rfl
  · simp [hbase]

/-- The base of the digits. -/
theorem codePrefix_range (hbase : base = 0 ∨ 2 ≤ base ∧ base ≤ 36) (str : CString) :
    2 ≤ (codePrefix base str).1 ∧ (codePrefix base str).1 ≤ 36 := by
  unfold codePrefix
  split_ifs with hzero <;> first | exact hbase.resolve_left hzero | norm_num

/-- If the prefix is treated as it should, the digits are the right ones. -/
theorem codePrefix_of_prefixOk (h : PrefixOk base str) :
    codePrefix base (unsigned str) = withoutPrefix base (unsigned str) := by
  obtain ⟨hsixteen, hzero⟩ := h
  unfold codePrefix withoutPrefix
  by_cases hbase : base = 0
  · by_cases hhex : hasHexPrefix (unsigned str) = true
    · simp [hbase, hhex, startsWithHex_of_hasHexPrefix hhex]
    · have hstarts : ¬ startsWithHex (unsigned str) = true := fun hstarts =>
        hzero ⟨hbase, hstarts, hhex⟩
      simp only [hbase, hhex, hstarts, Bool.false_eq_true, if_true, true_or, true_and, if_false]
      split <;> rfl
  · have hhex : ¬ (base = 16 ∧ hasHexPrefix (unsigned str) = true) := hsixteen
    simp [hbase, hhex]

/-- If no digit follows `0x`, there is none. -/
theorem takeWhile_drop_eq_nil (hstarts : startsWithHex str) (hhex : ¬ hasHexPrefix str) :
    (str.drop 2).takeWhile (isDigitOf 16) = [] := by
  cases hdrop : str.drop 2 with
  | nil => rfl
  | cons d rest =>
    have hd : isDigitOf 16 d = false := by simpa [hasHexPrefix, hstarts, hdrop] using hhex
    simp [hd]

/-- The part of a string behind its digits is shorter. -/
theorem length_dropWhile_lt {digits : CString} (h : digits.takeWhile (isDigitOf base) ≠ []) :
    (digits.dropWhile (isDigitOf base)).length < digits.length := by
  have hlen := congrArg List.length (List.takeWhile_append_dropWhile (p := isDigitOf base) (l := digits))
  rw [List.length_append] at hlen
  have := List.length_pos_iff.mpr h
  omega

theorem strtons_suffix (str : CString) : strtons str <:+ str := by
  induction str with
  | nil => exact List.suffix_rfl
  | cons ch rest ih =>
    unfold strtons
    split
    · exact ih.trans (List.suffix_cons ch rest)
    · exact List.suffix_rfl

theorem strtosign_suffix (str : CString) : (strtosign str).2 <:+ str := by
  unfold strtosign
  split
  next ch rest =>
    split
    · exact List.suffix_cons ch rest
    · split
      · exact List.suffix_cons ch rest
      · exact List.suffix_rfl
  next => exact List.suffix_rfl

theorem length_unsigned_le (str : CString) : (unsigned str).length ≤ str.length :=
  ((strtosign_suffix _).trans (strtons_suffix str)).length_le

/-- Where the standard says that a conversion ends. -/
theorem endptr_standardConversion (minValue maxValue : ℤ) (base : ℕ) (str : CString) :
    (standardConversion minValue maxValue base str).endptr =
      if (subject base str).digits = [] then str else (subject base str).rest := by
  simp only [standardConversion, apply_ite Conversion.endptr, ite_self]

/-- A number ends before the end of the string. -/
theorem length_rest_lt (h : (subject base str).digits ≠ []) :
    (subject base str).rest.length < str.length := by
  have hlt : (subject base str).rest.length < (withoutPrefix base (unsigned str)).2.length :=
    length_dropWhile_lt h
  have hle : (withoutPrefix base (unsigned str)).2.length ≤ (unsigned str).length := by
    unfold withoutPrefix
    split
    · simp
    · split <;> exact le_rfl
  exact (hlt.trans_le hle).trans_le (length_unsigned_le str)

/-- If no digit follows `0x`, the zero is the number. -/
theorem digits_ne_nil_of_startsWithHex (hbase : base = 0 ∨ base = 16)
    (hstarts : startsWithHex (unsigned str)) (hhex : ¬ hasHexPrefix (unsigned str)) :
    (subject base str).digits ≠ [] := by
  obtain ⟨x, rest, hstr, -⟩ := exists_of_startsWithHex hstarts
  rw [hstr] at hhex
  obtain ⟨radix, hspec, hzero⟩ : ∃ radix,
      withoutPrefix base (48 :: x :: rest) = (radix, 48 :: x :: rest) ∧ isDigitOf radix 48 = true := by
    rcases hbase with rfl | rfl
    · exact ⟨8, by simp [withoutPrefix, hhex], by decide⟩
    · exact ⟨16, by simp [withoutPrefix, hhex], by decide⟩
  simp only [subject, hstr, hspec, List.takeWhile_cons_of_pos hzero]
  exact List.cons_ne_nil _ _

/-- A conversion that finds no number ends at the wrong place if there is one. -/
theorem ne_endptr_standardConversion {minValue maxValue : ℤ} (h : (subject base str).digits ≠ []) :
    str ≠ (standardConversion minValue maxValue base str).endptr := by
  rw [endptr_standardConversion, if_neg h]
  intro heq
  have hlt := length_rest_lt h
  rw [← heq] at hlt
  exact lt_irrefl _ hlt

/-- A conversion that overflows at a bound. -/
def Subject.convert (self : Subject) (str : CString) (bound : ℕ) (overflowValue : ℤ) : Conversion :=
  if self.digits = [] then ⟨0, str, false⟩
  else if bound ≤ self.magnitude then ⟨overflowValue, self.rest, true⟩
  else ⟨self.value, self.rest, false⟩

/-- The conversion to a type overflows behind the limits. -/
theorem standardConversion_eq {minValue maxValue : ℤ} {minMagnitude maxMagnitude : ℕ}
    (hmin : minValue = -minMagnitude) (hmax : maxValue = maxMagnitude) (base : ℕ) (str : CString) :
    standardConversion minValue maxValue base str = (subject base str).convert str
      (if (subject base str).negative then minMagnitude + 1 else maxMagnitude + 1)
      (if (subject base str).negative then minValue else maxValue) := by
  simp only [standardConversion, Subject.convert, Subject.value]
  generalize subject base str = self
  rcases Bool.eq_false_or_eq_true self.negative with hnegative | hnegative <;>
    simp only [hnegative, Bool.false_eq_true, if_false, if_true] <;> split_ifs <;> first | rfl | omega

theorem Subject.convert_eq_iff (self : Subject) (str : CString) (a b : ℕ) (v w : ℤ) :
    self.convert str a v = self.convert str b w ↔ (self.digits ≠ [] →
      (a ≤ self.magnitude ↔ b ≤ self.magnitude) ∧ (a ≤ self.magnitude → v = w)) := by
  unfold convert
  split_ifs <;> simp [*]

theorem Subject.magnitude_of_nil {self : Subject} (h : self.digits = []) : self.magnitude = 0 := by
  rw [magnitude, h]
  rfl

end Prefixes

/-! ## `strtoll` and `strtol` -/

section Signed

variable {base : ℕ} {str : CString}

/-- The first number at which the parser of `strtoll` overflows. -/
def signedBound (negative : Bool) (radix : ℕ) : ℕ :=
  if negative then 2 ^ 63 / radix * radix else 2 ^ 63 - 1

/-- Where `strtoll` and `strtoull` end. -/
theorem endptr_conversionOf (str : CString) (base bound : ℕ) (positive : Bool) (overflowValue : ℤ)
    (digits : CString) : (conversionOf str base bound positive overflowValue digits).endptr =
      if digits.takeWhile (isDigitOf base) = [] then str else digits.dropWhile (isDigitOf base) := by
  simp only [conversionOf, apply_ite Conversion.endptr, ite_self]

/-- `strtol` ends where `strtoll` does. -/
theorem endptr_strtol (str : CString) (base : ℤ) : (strtol str base).endptr = (strtoll str base).endptr := by
  simp only [strtol, apply_ite Conversion.endptr, ite_self]

variable (hbase : base = 0 ∨ 2 ≤ base ∧ base ≤ 36)

include hbase

/-- `strtoll` converts the digits that it takes. -/
theorem strtoll_eq (str : CString) :
    strtoll str base =
      conversionOf str (codePrefix base (unsigned str)).1
        (signedBound (subject base str).negative (codePrefix base (unsigned str)).1)
        (!(subject base str).negative)
        (if (subject base str).negative then longLongMin else longLongMax)
        (codePrefix base (unsigned str)).2 := by
  obtain ⟨hlow, hhigh⟩ := codePrefix_range hbase (unsigned str)
  obtain ⟨radix, hradix⟩ : ∃ radix, radix = (codePrefix base (unsigned str)).1 := ⟨_, rfl⟩
  have hstrtoll : strtoll str base = finish str (parseDigits
      (.create longLongMin longLongMax (strtosign (strtons str)).1 (codePrefix base (unsigned str)).1)
      false false (codePrefix base (unsigned str)).2)
      (if (strtosign (strtons str)).1 ≠ .Negative then longLongMax else longLongMin) := by
    simp only [strtoll, parseBase_eq]
    rfl
  rw [hstrtoll, ← hradix]
  cases hsign : (strtosign (strtons str)).1 with
  | Negative =>
    have htracks := tracks_create_negative (show 0 < radix by omega) longLongMax (2 ^ 63)
    have hbound : radix ≤ 2 ^ 63 / radix * radix :=
      Nat.le_mul_of_pos_left _ (Nat.div_pos (by omega) (by omega))
    have hnegative : (subject base str).negative = true := decide_eq_true hsign
    rw [hnegative]
    exact finish_parseDigits (by omega) htracks hbound str _ longLongMin
  | Positive =>
    have htracks := tracks_create_positive (show 0 < radix by omega) longLongMin (2 ^ 63 - 1)
    have hnegative : (subject base str).negative = false :=
      decide_eq_false (by rw [hsign]; exact Sign.noConfusion)
    rw [hnegative]
    exact finish_parseDigits (by omega) htracks (by omega) str _ longLongMax

/-- A conversion of the right digits, by the bound at which the parser overflows. -/
theorem strtoll_of_prefixOk (h : PrefixOk base str) :
    strtoll str base = (subject base str).convert str
      (signedBound (subject base str).negative (subject base str).base)
      (if (subject base str).negative then longLongMin else longLongMax) := by
  rw [strtoll_eq hbase, codePrefix_of_prefixOk h]
  unfold Subject.convert Subject.value conversionOf
  cases (subject base str).negative <;> rfl

/-- If the prefix is not treated as it should, the conversion ends at the wrong place. -/
theorem endptr_strtoll_ne (h : ¬ PrefixOk base str)
    (minValue maxValue : ℤ) :
    (strtoll str base).endptr ≠ (standardConversion minValue maxValue base str).endptr := by
  rw [strtoll_eq hbase, endptr_conversionOf]
  rw [PrefixOk, not_and_or, not_not, not_not] at h
  rcases h with ⟨rfl, hhex⟩ | ⟨rfl, hstarts, hhex⟩
  · -- `strtoll` takes the zero for the number, and the standard what follows the `x`.
    obtain ⟨x, rest, hstr, hx⟩ := exists_of_startsWithHex (startsWithHex_of_hasHexPrefix hhex)
    rw [hstr] at hhex
    have hcode : codePrefix 16 (48 :: x :: rest) = (16, 48 :: x :: rest) := rfl
    have hspec : withoutPrefix 16 (48 :: x :: rest) = (16, rest) := by
      simp [withoutPrefix, hhex]
    have hdigits : rest.takeWhile (isDigitOf 16) ≠ [] := by
      cases rest with
      | nil => simp [hasHexPrefix] at hhex
      | cons d rest =>
        have hd : isDigitOf 16 d = true := by
          simp only [hasHexPrefix, Bool.and_eq_true] at hhex
          exact hhex.2
        simp [hd]
    have hlt := length_dropWhile_lt hdigits
    simp only [endptr_standardConversion, subject, hstr, hcode, hspec, if_neg hdigits,
      List.takeWhile_cons_of_pos (show isDigitOf 16 48 = true by decide),
      List.dropWhile_cons_of_pos (show isDigitOf 16 48 = true by decide),
      List.dropWhile_cons_of_neg (show ¬ isDigitOf 16 x = true by simp [hx]), List.cons_ne_nil, if_false]
    intro heq
    rw [← heq] at hlt
    simp at hlt
  · -- `strtoll` finds no number, and the standard the zero.
    have hcode : codePrefix 0 (unsigned str) = (16, (unsigned str).drop 2) := by
      simp [codePrefix, hstarts]
    rw [hcode, if_pos (takeWhile_drop_eq_nil hstarts hhex)]
    exact ne_endptr_standardConversion (digits_ne_nil_of_startsWithHex (Or.inl rfl) hstarts hhex)

/-- The number is not one next to the limits for which `strtoll` reports an overflow though it fits: the
biggest one, and the negative ones in the last row of `base` numbers before the smallest. -/
def LimitsOk (base : ℕ) (str : CString) : Prop :=
  ((subject base str).negative = true →
    ¬ (2 ^ 63 / (subject base str).base * (subject base str).base ≤ (subject base str).magnitude ∧
      (subject base str).magnitude ≤ 2 ^ 63)) ∧
  ((subject base str).negative = false → (subject base str).magnitude ≠ 2 ^ 63 - 1)
deriving Decidable

/-- The base of the digits. -/
theorem subject_base_range (str : CString) :
    2 ≤ (subject base str).base ∧ (subject base str).base ≤ 36 := by
  change 2 ≤ (withoutPrefix base (unsigned str)).1 ∧ (withoutPrefix base (unsigned str)).1 ≤ 36
  unfold withoutPrefix
  split_ifs with hhex hzero hoctal <;> first | exact hbase.resolve_left hzero | norm_num

/-- The bounds of the parser of `strtoll` are next to the limits. -/
theorem signedBound_spec (str : CString) :
    2 ^ 32 < signedBound (subject base str).negative (subject base str).base ∧
      signedBound (subject base str).negative (subject base str).base ≤ 2 ^ 63 := by
  obtain ⟨hlow, hhigh⟩ := subject_base_range hbase str
  unfold signedBound
  split
  · have hdiv := Nat.div_add_mod (2 ^ 63) (subject base str).base
    have hmod := Nat.mod_lt (2 ^ 63) (show 0 < (subject base str).base by omega)
    rw [Nat.mul_comm] at hdiv
    omega
  · norm_num

/-- When `strtoll` is right. -/
theorem strtoll_eq_standard_iff (str : CString) :
    strtoll str base = standardConversion longLongMin longLongMax base str ↔
      PrefixOk base str ∧ LimitsOk base str := by
  by_cases hstart : PrefixOk base str
  · have hbound := signedBound_spec hbase str
    have hzero := (subject base str).magnitude_of_nil
    rw [strtoll_of_prefixOk hbase hstart, standardConversion_eq (show longLongMin = -(2 ^ 63 : ℕ) from rfl)
      (show longLongMax = (2 ^ 63 - 1 : ℕ) from rfl),
      Subject.convert_eq_iff, LimitsOk, signedBound]
    rw [signedBound] at hbound
    generalize subject base str = self at hbound hzero ⊢
    simp only [hstart, true_and, implies_true, and_true]
    cases hnegative : self.negative with
    | false =>
      simp only [hnegative, Bool.false_eq_true, if_false, false_implies, true_and, true_implies] at hbound ⊢
      by_cases hdigits : self.digits = []
      · simp [hdigits, hzero hdigits]
      · simp only [ne_eq, hdigits, not_false_iff, true_implies]
        omega
    | true =>
      simp only [hnegative, if_true, true_implies, Bool.true_eq_false, false_implies, and_true] at hbound ⊢
      by_cases hdigits : self.digits = []
      · simp only [ne_eq, hdigits, not_true, false_implies, true_iff, hzero hdigits]
        omega
      · simp only [ne_eq, hdigits, not_false_iff, true_implies]
        omega
  · exact iff_of_false (fun heq => endptr_strtoll_ne hbase hstart _ _ (congrArg Conversion.endptr heq))
      fun h => hstart h.1

/-- When `strtol` is right: what `strtoll` gets wrong next to its limits is beyond those of `long`. -/
theorem strtol_eq_standard_iff (str : CString) :
    strtol str base = standardConversion longMin longMax base str ↔ PrefixOk base str := by
  constructor
  · intro heq
    by_contra hstart
    refine endptr_strtoll_ne hbase hstart longMin longMax ?_
    rw [← endptr_strtol, heq]
  · intro hstart
    have hbound := signedBound_spec hbase str
    rw [strtol, strtoll_of_prefixOk hbase hstart,
      standardConversion_eq (show longMin = -(2 ^ 31 : ℕ) from rfl)
        (show longMax = (2 ^ 31 - 1 : ℕ) from rfl)]
    generalize subject base str = self at hbound ⊢
    unfold Subject.convert Subject.value longMin longMax longLongMin longLongMax
    by_cases hdigits : self.digits = []
    · simp [hdigits]
    · simp only [hdigits, if_false, apply_ite Conversion.value]
      rcases Bool.eq_false_or_eq_true self.negative with hnegative | hnegative <;>
        split_ifs <;> first | rfl | omega

end Signed

/-! ## `strtoull` -/

section Unsigned

variable {base : ℕ} {str : CString}

/-- The number has a sign. -/
def hasSign (str : CString) : Bool := (strtons str).head?.any fun ch => ch == 43 || ch == 45

/-- `strtoull` does not take a sign, takes `0x` also without a digit behind it, and is wrong from the
biggest number on. -/
def UnsignedOk (base : ℕ) (str : CString) : Prop :=
  (hasSign str → (subject base str).digits = []) ∧
  ¬ ((base = 0 ∨ base = 16) ∧ startsWithHex (unsigned str) ∧ ¬ hasHexPrefix (unsigned str)) ∧
  (subject base str).magnitude < 2 ^ 64 - 1
deriving Decidable

/-- Without a sign, `unsigned` skips the spaces. -/
theorem strtosign_of_not_hasSign (h : ¬ hasSign str) :
    strtosign (strtons str) = (.Positive, strtons str) := by
  unfold hasSign at h
  cases hstr : strtons str with
  | nil => rfl
  | cons ch rest =>
    simp only [hstr, List.head?_cons, Option.any_some, Bool.or_eq_true, beq_iff_eq, not_or] at h
    simp [strtosign, h.1, h.2]

/-- The base and the digits as `strtoull` takes them. -/
def unsignedPrefix (base : ℕ) (str : CString) : ℕ × CString :=
  codePrefix base (if base = 16 ∧ startsWithHex str then str.drop 2 else str)

/-- `strtoull` converts the digits that it takes. -/
theorem strtoull_eq (hbase : base = 0 ∨ 2 ≤ base ∧ base ≤ 36) (str : CString) :
    strtoull str base = conversionOf str (unsignedPrefix base (strtons str)).1 (2 ^ 64 - 1) true
      longLongMax (unsignedPrefix base (strtons str)).2 := by
  obtain ⟨hlow, hhigh⟩ := codePrefix_range hbase
    (if base = 16 ∧ startsWithHex (strtons str) then (strtons str).drop 2 else strtons str)
  have htracks := tracks_create_positive (show 0 < (unsignedPrefix base (strtons str)).1 by
    unfold unsignedPrefix; omega) 0 (2 ^ 64 - 1)
  refine Eq.trans ?_ (finish_parseDigits (by unfold unsignedPrefix; omega) htracks
    (by unfold unsignedPrefix; omega) str _ longLongMax)
  have hsixteen : ((base : ℤ) = 16) ↔ base = 16 := by omega
  simp only [strtoull, hsixteen, parseBase_eq]
  rfl

/-- If there is a sign, `strtoull` finds no number. -/
theorem strtoull_of_hasSign (hbase : base = 0 ∨ 2 ≤ base ∧ base ≤ 36) (h : hasSign str) :
    strtoull str base = ⟨0, str, false⟩ := by
  rw [strtoull_eq hbase]
  unfold hasSign at h
  cases hstr : strtons str with
  | nil => simp [hstr] at h
  | cons ch rest =>
    simp only [hstr, List.head?_cons, Option.any_some, Bool.or_eq_true, beq_iff_eq] at h
    -- The sign is neither a zero nor a digit of any base.
    have hzero : ch ≠ 48 := by rcases h with rfl | rfl <;> decide
    have hdigit : ∀ radix, isDigitOf radix ch = false := by
      rcases h with rfl | rfl <;> exact fun _ => rfl
    have hstarts : startsWithHex (ch :: rest) = false := by
      cases rest <;> simp [startsWithHex, hzero]
    have hstart : (unsignedPrefix base (ch :: rest)).2 = ch :: rest := by
      unfold unsignedPrefix codePrefix
      simp only [hstarts, Bool.false_eq_true, and_false, if_false, List.head?_cons, Option.some.injEq,
        hzero]
      split <;> rfl
    simp [conversionOf, hstart, hdigit]

/-- Without a sign, and if a digit follows `0x`, the digits are the right ones. -/
theorem unsignedPrefix_eq (hsign : ¬ hasSign str)
    (hstart : ¬ ((base = 0 ∨ base = 16) ∧ startsWithHex (unsigned str) ∧
      ¬ hasHexPrefix (unsigned str))) :
    unsignedPrefix base (strtons str) = withoutPrefix base (unsigned str) := by
  have hstr : unsigned str = strtons str := by rw [unsigned, strtosign_of_not_hasSign hsign]
  rw [hstr] at hstart ⊢
  by_cases hbase : base = 16
  · subst hbase
    by_cases hhex : hasHexPrefix (strtons str) = true
    · simp [unsignedPrefix, codePrefix, withoutPrefix, hhex, startsWithHex_of_hasHexPrefix hhex]
    · have hstarts : ¬ startsWithHex (strtons str) = true := fun hstarts =>
        hstart ⟨Or.inr rfl, hstarts, hhex⟩
      simp [unsignedPrefix, codePrefix, withoutPrefix, hhex, hstarts]
  · have hok : PrefixOk base str := by
      rw [PrefixOk, hstr]
      exact ⟨fun h => hbase h.1, fun h => hstart ⟨Or.inl h.1, h.2⟩⟩
    have hcode := codePrefix_of_prefixOk hok
    rw [hstr] at hcode
    rw [unsignedPrefix, if_neg fun h => hbase h.1, hcode]

/-- When `strtoull` is right. -/
theorem strtoull_eq_standard_iff (hbase : base = 0 ∨ 2 ≤ base ∧ base ≤ 36) (str : CString) :
    strtoull str base = standardConversion 0 ulongLongMax base str ↔ UnsignedOk base str := by
  by_cases hsign : hasSign str
  · rw [strtoull_of_hasSign hbase hsign]
    by_cases hdigits : (subject base str).digits = []
    · refine iff_of_true ?_ ⟨fun _ => hdigits, fun hhex => ?_, by
        rw [Subject.magnitude_of_nil hdigits]; norm_num⟩
      · simp [standardConversion, hdigits]
      · exact digits_ne_nil_of_startsWithHex hhex.1 hhex.2.1 hhex.2.2 hdigits
    · exact iff_of_false (fun heq => ne_endptr_standardConversion hdigits (congrArg Conversion.endptr heq))
        fun hok => hdigits (hok.1 hsign)
  · rw [strtoull_eq hbase]
    have hstr : unsigned str = strtons str := by rw [unsigned, strtosign_of_not_hasSign hsign]
    by_cases hstart : (base = 0 ∨ base = 16) ∧ startsWithHex (unsigned str) ∧
        ¬ hasHexPrefix (unsigned str)
    · -- `strtoull` finds no number, and the standard the zero.
      refine iff_of_false (fun heq => ?_) fun hok => hok.2.1 hstart
      obtain ⟨hzero, hstarts, hhex⟩ := hstart
      have hdigits := digits_ne_nil_of_startsWithHex hzero hstarts hhex
      rw [hstr] at hstarts hhex
      have hcode : unsignedPrefix base (strtons str) = (16, (strtons str).drop 2) := by
        rcases hzero with rfl | rfl <;> simp [unsignedPrefix, codePrefix, hstarts]
      have hend := congrArg Conversion.endptr heq
      rw [endptr_conversionOf, hcode, if_pos (takeWhile_drop_eq_nil hstarts hhex)] at hend
      exact ne_endptr_standardConversion hdigits hend
    · rw [unsignedPrefix_eq hsign hstart]
      have hpositive : (subject base str).negative = false := by
        simp only [subject, strtosign_of_not_hasSign hsign, reduceCtorEq, decide_false]
      have hzero := (subject base str).magnitude_of_nil
      have hconversion : conversionOf str (withoutPrefix base (unsigned str)).1 (2 ^ 64 - 1) true
          longLongMax (withoutPrefix base (unsigned str)).2 =
            (subject base str).convert str (2 ^ 64 - 1) longLongMax := by
        rw [Subject.convert, Subject.value, hpositive]
        rfl
      rw [hconversion, standardConversion_eq (show (0 : ℤ) = -(0 : ℕ) from rfl)
        (show ulongLongMax = (2 ^ 64 - 1 : ℕ) from rfl), hpositive, Subject.convert_eq_iff, UnsignedOk]
      simp only [hsign, hstart, false_implies, not_false_iff, true_and, Bool.false_eq_true, if_false]
      have hne : ¬longLongMax = ulongLongMax := by decide
      by_cases hdigits : (subject base str).digits = []
      · simp [hdigits, hzero hdigits]
      · simp only [ne_eq, hdigits, hne, not_false_iff, true_implies, imp_false]
        omega

end Unsigned

/-- **The conversions.** For every string and every base, `strtoll`, `strtol` and `strtoull` convert it as
the standard asks exactly if it is not one of those that they treat differently. -/
theorem strto_eq_standard_iff (str : CString) (base : ℕ) (hbase : base = 0 ∨ 2 ≤ base ∧ base ≤ 36) :
    (strtoll str base = standardConversion longLongMin longLongMax base str ↔
      PrefixOk base str ∧ LimitsOk base str) ∧
    (strtol str base = standardConversion longMin longMax base str ↔ PrefixOk base str) ∧
    (strtoull str base = standardConversion 0 ulongLongMax base str ↔ UnsignedOk base str) :=
  ⟨strtoll_eq_standard_iff hbase str, strtol_eq_standard_iff hbase str,
    strtoull_eq_standard_iff hbase str⟩

/-- `" 0x1f."` in the base 0. -/
theorem strto_eq_standard_iff_hexadecimal :
    strtoll [32, 48, 120, 49, 102, 46] 0 = ⟨31, [46], false⟩ ∧
    strtol [32, 48, 120, 49, 102, 46] 0 = ⟨31, [46], false⟩ ∧
    strtoull [32, 48, 120, 49, 102, 46] 0 = ⟨31, [46], false⟩ := by
  obtain ⟨hll, hl, hull⟩ := strto_eq_standard_iff [32, 48, 120, 49, 102, 46] 0 (Or.inl rfl)
  exact ⟨(hll.mpr (by decide)).trans (by decide), (hl.mpr (by decide)).trans (by decide),
    (hull.mpr (by decide)).trans (by decide)⟩

/-- `"-9223372036854775800"` is taken for an overflow; `"0x1"` in the base 16 ends behind the zero;
`"0x"` in the base 0 ends at its beginning; and `strtoull` does not take the sign of `"+1"`, and returns
a limit of the wrong type for 18446744073709551615. -/
theorem strto_differ :
    strtoll [45, 57, 50, 50, 51, 51, 55, 50, 48, 51, 54, 56, 53, 52, 55, 55, 53, 56, 48, 48] 10 =
      ⟨longLongMin, [], true⟩ ∧
    strtol [48, 120, 49] 16 = ⟨0, [120, 49], false⟩ ∧
    strtol [48, 120] 0 = ⟨0, [48, 120], false⟩ ∧
    strtoull [43, 49] 10 = ⟨0, [43, 49], false⟩ ∧
    strtoull [49, 56, 52, 52, 54, 55, 52, 52, 48, 55, 51, 55, 48, 57, 53, 53, 49, 54, 49, 53] 10 =
      ⟨longLongMax, [], true⟩ := by
  refine ⟨?_, ?_, ?_, ?_, ?_⟩ <;> decide +kernel

end LibC
