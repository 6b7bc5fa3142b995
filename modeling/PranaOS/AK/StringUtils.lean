import PranaOS.AK.Assertions
import PranaOS.LibC.Ctype
import PranaOS.ToMathlib.Digits
import Mathlib.Data.List.DropRight

/-!
# `AK/StringUtils`

`trim_whitespace` with its two loops over indices, and the conversions of strings to integers. A conversion
returns a value if and only if the string without the whitespace around it denotes the value, and the value is
one of the type (`convert_eq_some_iff`).
-/

namespace AK

open Digits LibC List
open Option hiding or_self

/-- The string without the whitespace around it. -/
def trimWhitespace (str : List UInt8) : List UInt8 :=
  ((str.dropWhile isspace).reverse.dropWhile isspace).reverse

namespace StringUtils

/-! ## `trim_whitespace` -/

/-- `TrimMode`. -/
inductive TrimMode where
  | left
  | right
  | both
deriving DecidableEq

/-- The loop from the left: `substring_start` and `substring_length`, or `none` if it returns an empty view. -/
def trimLeftLoop : List UInt8 → ℕ → ℕ → Option (ℕ × ℕ)
  | [], substringStart, substringLength => some (substringStart, substringLength)
  | ch :: rest, substringStart, substringLength =>
    if substringLength = 0 then none
    else if !isspace ch then some (substringStart, substringLength)
    else trimLeftLoop rest (substringStart + 1) (substringLength - 1)

/-- The loop from the right, at the index `i`: `substring_length`, or `none` again. -/
def trimRightLoop (str : List UInt8) : ℕ → ℕ → Option ℕ
  | 0, substringLength => some substringLength
  | i + 1, substringLength =>
    if substringLength = 0 then none
    else if !isspace (str.getD (i + 1) 0) then some substringLength
    else trimRightLoop str i (substringLength - 1)

variable (str : List UInt8)

/-- `StringView::substring_view`. -/
def substringView (start length : ℕ) : Option (List UInt8) := do
  verify (start + length ≤ str.length)
  some ((str.drop start).take length)

/-- `trim_whitespace`. The index before the end of an empty string is the greatest `size_t`. -/
def trimWhitespace (mode : TrimMode) : Option (List UInt8) :=
  let last := if str = [] then 2 ^ 32 - 1 else str.length - 1
  match if mode ≠ .right then trimLeftLoop str 0 str.length else some (0, str.length) with
  | none => some []
  | some (substringStart, substringLength) =>
    match if mode ≠ .left then trimRightLoop str last substringLength else some substringLength with
    | none => some []
    | some substringLength => substringView str substringStart substringLength

theorem trimLeftLoop_eq (rest : List UInt8) (start : ℕ) :
    trimLeftLoop rest start rest.length =
      some (start + (rest.takeWhile isspace).length, (rest.dropWhile isspace).length) := by
  induction rest generalizing start with
  | nil => rfl
  | cons ch rest ih =>
    rw [trimLeftLoop, if_neg (by simp)]
    cases hspace : isspace ch
    · simp [hspace]
    · simp [hspace, ih, Nat.add_assoc, Nat.add_comm 1]

/-- The loop from the right stops behind the last character that is not whitespace. -/
theorem trimRightLoop_eq (front back : List UInt8) {core : List UInt8} (hcore : core ≠ [])
    (hhead : isspace (core.head hcore) = false) :
    trimRightLoop (front ++ core ++ back) (front.length + core.length - 1) core.length =
      some (core.rdropWhile isspace).length := by
  induction core using List.reverseRecOn generalizing back with
  | nil => exact absurd rfl hcore
  | append_singleton core ch ih =>
    have hlast : (front ++ (core ++ [ch]) ++ back).getD (front.length + core.length) 0 = ch := by simp
    have hi : front.length + (core ++ [ch]).length - 1 = front.length + core.length := by simp
    rw [hi]
    cases hspace : isspace ch
    · rw [rdropWhile_concat_neg _ _ _ (by simp [hspace])]
      cases hlen : front.length + core.length with
      | zero => rfl
      | succ i => simp [trimRightLoop, ← hlen, hspace]
    · -- The first character is not whitespace, so there is one before this one.
      cases core with
      | nil => simp [hspace] at hhead
      | cons first rest =>
        have ih := ih (ch :: back) (cons_ne_nil _ _) hhead
        rw [rdropWhile_concat_pos _ _ _ hspace, ← ih]
        simp only [length_cons, ← Nat.add_assoc, Nat.add_sub_cancel] at hlast ⊢
        rw [length_append, trimRightLoop, hlast]
        simp [hspace]

/-- `trim_whitespace` completes, and returns the string without the whitespace around it. -/
theorem trimWhitespace_both :
    trimWhitespace str .both = some (AK.trimWhitespace str) := by
  have hsplit := takeWhile_append_dropWhile (p := isspace) (l := str)
  have hview : substringView str (str.takeWhile isspace).length
      ((str.dropWhile isspace).rdropWhile isspace).length = some (AK.trimWhitespace str) := by
    have hprefix := rdropWhile_prefix isspace (str.dropWhile isspace)
    have hlength := congrArg List.length hsplit
    rw [length_append] at hlength
    refine verify_bind_eq_some.mpr ⟨by have := hprefix.length_le; omega, ?_⟩
    have hdrop := @drop_left _ (str.takeWhile isspace) (str.dropWhile isspace)
    rw [hsplit] at hdrop
    rw [hdrop, ← prefix_iff_eq_take.mp hprefix]
    rfl
  simp only [trimWhitespace, trimLeftLoop_eq, Nat.zero_add, ne_eq, reduceCtorEq, not_false_eq_true, if_true]
  by_cases hcore : str.dropWhile isspace = []
  · rw [hcore] at hview ⊢
    -- Both ways out of the second loop give an empty string.
    cases (if str = [] then 2 ^ 32 - 1 else str.length - 1) with
    | zero => exact hview
    | succ i => simp [trimRightLoop, AK.trimWhitespace, hcore]
  · have hloop := trimRightLoop_eq (str.takeWhile isspace) [] hcore (by simpa using head_dropWhile_not isspace hcore)
    rw [append_nil, hsplit, ← length_append, hsplit] at hloop
    rw [if_neg (fun h => hcore (by simp [h])), hloop]
    exact hview

/-! ## The conversions -/

/-- The limits of an integer type. -/
structure Limits where
  min : ℤ
  max : ℤ
  min_nonpos : min ≤ 0
  max_nonneg : 0 ≤ max

namespace Limits

/-- A signed type: `i8` has 7 bits for its values. -/
def signed (bits : ℕ) : Limits :=
  ⟨-2 ^ bits, 2 ^ bits - 1, by simp, sub_nonneg.mpr (one_le_pow₀ (by decide))⟩

/-- An unsigned type. -/
def unsigned (bits : ℕ) : Limits := ⟨0, 2 ^ bits - 1, le_rfl, (signed bits).max_nonneg⟩

/-- A value of the type. -/
def Fits (T : Limits) (value : ℤ) : Prop := T.min ≤ value ∧ value ≤ T.max
deriving Decidable

end Limits

variable (T : Limits)

/-- A turn of the loop of `convert_to_int`, and with the sign 1 of that of `convert_to_uint`. -/
def convertStep (sign value : ℤ) (ch : UInt8) : Option ℤ :=
  if ch < 48 ∨ ch > 57 then none
  else if ¬T.Fits (value * 10) then none
  else if ¬T.Fits (value * 10 + sign * (ch.toNat - 48)) then none
  else some (value * 10 + sign * (ch.toNat - 48))

/-- `convert_to_int<T>`. -/
def convertToInt (str : List UInt8) : Option (Option ℤ) := do
  match ← trimWhitespace str .both with
  | [] => some none
  | ch :: rest =>
    if ch = 45 ∨ ch = 43 then
      if rest = [] then some none
      else some (rest.foldlM (convertStep T (if ch = 45 then -1 else 1)) 0)
    else some ((ch :: rest).foldlM (convertStep T 1) 0)

/-- `convert_to_uint<T>`. -/
def convertToUint (str : List UInt8) : Option (Option ℤ) := do
  let strTrimmed ← trimWhitespace str .both
  if strTrimmed = [] then some none else some (strTrimmed.foldlM (convertStep T 1) 0)

/-- The value of a hexadecimal digit. -/
def digitVal (digit : UInt8) : Option ℕ :=
  if 48 ≤ digit ∧ digit ≤ 57 then some (digit.toNat - 48)
  else if 97 ≤ digit ∧ digit ≤ 102 then some (10 + (digit.toNat - 97))
  else if 65 ≤ digit ∧ digit ≤ 70 then some (10 + (digit.toNat - 65))
  else none

/-- A turn of the loop of `convert_to_uint_from_hex`, for an unsigned type. -/
def convertFromHexStep (value : ℤ) (digit : UInt8) : Option ℤ :=
  let upperBound := T.max
  if value > upperBound / 2 ^ 4 then none
  else do
    let digitVal ← digitVal digit
    some ((value * 2 ^ 4 + digitVal) % (upperBound + 1))

/-- `convert_to_uint_from_hex<T>`. -/
def convertToUintFromHex (str : List UInt8) : Option (Option ℤ) := do
  let strTrimmed ← trimWhitespace str .both
  if strTrimmed = [] then some none else some (strTrimmed.foldlM (convertFromHexStep T) 0)

/-! ## The numbers in strings -/

/-- A string of digits of the base that is the value. -/
def Denotes (base : ℕ) (str : List UInt8) (value : ℤ) : Prop :=
  str ≠ [] ∧ (∀ ch ∈ str, isDigitOf base ch = true) ∧ valueFrom base 0 str = value

/-- A string of digits, with or without a sign. -/
def DenotesSigned (value : ℤ) : Prop :=
  Denotes 10 str value ∨ (∃ digits, str = 43 :: digits ∧ Denotes 10 digits value) ∨
    ∃ digits, str = 45 :: digits ∧ Denotes 10 digits (-value)

variable {T : Limits} {sign : ℤ}

/-- A number fits if one with a greater magnitude does. -/
theorem Limits.Fits.of_le (hsign : sign = 1 ∨ sign = -1) {m n : ℕ} (h : T.Fits (sign * n)) (hle : m ≤ n) :
    T.Fits (sign * m) := by
  have hmin := T.min_nonpos
  have hmax := T.max_nonneg
  unfold Limits.Fits at h ⊢
  rcases hsign with rfl | rfl <;> omega

/-- A turn of a loop writes a digit behind the number, if the new number fits. -/
def Writes (T : Limits) (sign : ℤ) (base : ℕ) (next : ℤ → UInt8 → Option ℤ) : Prop :=
  ∀ (n : ℕ) ch v, next (sign * n) ch = some v ↔ isDigitOf base ch = true ∧
    v = sign * (n * base + (digitValue ch).getD 0 : ℕ) ∧ T.Fits v

section Loop

variable {base : ℕ} (hbase : 0 < base) {next : ℤ → UInt8 → Option ℤ} (hsign : sign = 1 ∨ sign = -1)
  (hnext : Writes T sign base next)

include hbase hsign hnext

/-- The loop returns the number that all digits are. -/
theorem Writes.foldlM (str : List UInt8) (n : ℕ) (hn : T.Fits (sign * n)) {v : ℤ} :
    str.foldlM next (sign * n) = some v ↔
      (∀ ch ∈ str, isDigitOf base ch = true) ∧ v = sign * valueFrom base n str ∧ T.Fits v := by
  induction str generalizing n with
  | nil =>
    simp only [foldlM_nil, pure, some.injEq, not_mem_nil, false_implies, implies_true, true_and]
    exact ⟨fun h => ⟨h.symm, h ▸ hn⟩, fun h => h.1.symm⟩
  | cons ch str ih =>
    have hle := le_valueFrom hbase (n * base + (digitValue ch).getD 0) str
    rw [foldlM_cons, forall_mem_cons]
    refine bind_eq_some_iff.trans ⟨?_, ?_⟩
    · rintro ⟨w, hw, hrest⟩
      obtain ⟨hdigit, rfl, hfits⟩ := (hnext n ch w).mp hw
      obtain ⟨hdigits, hv⟩ := (ih _ hfits).mp hrest
      exact ⟨⟨hdigit, hdigits⟩, hv⟩
    · rintro ⟨⟨hdigit, hdigits⟩, hv, hfits⟩
      have hfits' := Limits.Fits.of_le hsign (hv ▸ hfits) hle
      exact ⟨_, (hnext n ch _).mpr ⟨hdigit, rfl, hfits'⟩, (ih _ hfits').mpr ⟨hdigits, hv, hfits⟩⟩

/-- The loop from its start. -/
theorem Writes.foldlM_zero {str : List UInt8} (hstr : str ≠ []) {v : ℤ} :
    str.foldlM next 0 = some v ↔ Denotes base str (sign * v) ∧ T.Fits v := by
  have hzero : T.Fits (sign * (0 : ℕ)) := by simpa [Limits.Fits] using ⟨T.min_nonpos, T.max_nonneg⟩
  have hloop := hnext.foldlM hbase hsign str 0 hzero (v := v)
  rw [Nat.cast_zero, mul_zero] at hloop
  have hv : v = sign * valueFrom base 0 str ↔ (valueFrom base 0 str : ℤ) = sign * v := by
    rcases hsign with rfl | rfl <;> constructor <;> intro h <;> linarith
  rw [hloop, hv, Denotes]
  tauto

end Loop

theorem isDigitOf_ten {ch : UInt8} : isDigitOf 10 ch = true ↔ 48 ≤ ch ∧ ch ≤ 57 := by
  unfold isDigitOf digitValue
  simp only [UInt8.le_iff_toNat_le, UInt8.reduceToNat]
  split_ifs <;> simp <;> omega

/-- A decimal digit is written behind the number if the new number fits. -/
theorem writes_convertStep (hsign : sign = 1 ∨ sign = -1) : Writes T sign 10 (convertStep T sign) := by
  intro n ch v
  rw [isDigitOf_ten, convertStep]
  by_cases hdigit : 48 ≤ ch ∧ ch ≤ 57
  · have hvalue : digitValue ch = some (ch.toNat - 48) := if_pos hdigit
    have hge : 48 ≤ ch.toNat := hdigit.1
    have hnew : sign * n * 10 + sign * (ch.toNat - 48) = sign * (n * 10 + (ch.toNat - 48) : ℕ) := by
      push_cast [hge]
      ring
    have hmul : sign * n * 10 = sign * (n * 10 : ℕ) := by push_cast; ring
    have hfits (h : T.Fits (sign * (n * 10 + (ch.toNat - 48) : ℕ))) := h.of_le hsign (Nat.le_add_right (n * 10) _)
    grind
  · rw [if_pos (by simpa [imp_iff_not_or] using hdigit)]
    simp [hdigit]

theorem digitVal_eq (ch : UInt8) :
    digitVal ch = if isDigitOf 16 ch = true then some ((digitValue ch).getD 0) else none := by
  unfold digitVal isDigitOf digitValue
  simp only [UInt8.le_iff_toNat_le, UInt8.reduceToNat]
  grind

/-- A hexadecimal digit is written behind the number if the new number fits. -/
theorem writes_convertFromHexStep (bits : ℕ) :
    Writes (.unsigned (bits + 4)) 1 16 (convertFromHexStep (.unsigned (bits + 4))) := by
  intro n ch v
  have hmax : (Limits.unsigned (bits + 4)).max = 16 * 2 ^ bits - 1 := by
    simp [Limits.unsigned, pow_add, mul_comm]
  have hmin : (Limits.unsigned (bits + 4)).min = 0 := rfl
  rw [convertFromHexStep, digitVal_eq, Limits.Fits, hmax, hmin]
  by_cases h : isDigitOf 16 ch = true
  · have hlt := digitValue_lt h
    simp only [h, if_true, true_and, bind, bind_some]
    -- The check before the shift is the one that the new number fits, as 16 divides the upper bound plus one.
    split
    · simp
      omega
    · rw [Int.emod_eq_of_lt (by omega) (by omega)]
      simp
      omega
  · simp [h]

theorem denotesSigned_cons {ch : UInt8} {rest : List UInt8} {v : ℤ} :
    DenotesSigned (ch :: rest) v ↔ if ch = 45 then Denotes 10 rest (-v) else
      if ch = 43 then Denotes 10 rest v else Denotes 10 (ch :: rest) v := by
  have hplus : ¬isDigitOf 10 43 = true := by decide
  have hminus : ¬isDigitOf 10 45 = true := by decide
  unfold DenotesSigned Denotes
  split_ifs with h h' <;> simp_all

/-- **Integers in strings.** The conversions complete, for every string. They return a value if and only if the
string without the whitespace around it denotes the value and the value is one of the type, where `i8` is
`signed 7`, `long` is `signed 31` and `u8` is `unsigned 8`. -/
theorem convert_eq_some_iff (str : List UInt8) :
    (∀ T, ∃ result, convertToInt T str = some result ∧
      ∀ v, result = some v ↔ DenotesSigned (AK.trimWhitespace str) v ∧ T.Fits v) ∧
    (∀ T, ∃ result, convertToUint T str = some result ∧
      ∀ v, result = some v ↔ Denotes 10 (AK.trimWhitespace str) v ∧ T.Fits v) ∧
    ∀ bits, ∃ result, convertToUintFromHex (.unsigned (bits + 4)) str = some result ∧
      ∀ v, result = some v ↔ Denotes 16 (AK.trimWhitespace str) v ∧ (Limits.unsigned (bits + 4)).Fits v := by
  simp only [convertToInt, convertToUint, convertToUintFromHex, trimWhitespace_both, bind, bind_some]
  generalize AK.trimWhitespace str = str
  cases str with
  | nil => simp [Denotes, DenotesSigned]
  | cons ch rest =>
    have hcons : ch :: rest ≠ [] := cons_ne_nil _ _
    have hplus (T : Limits) {str : List UInt8} (h : str ≠ []) {v : ℤ} :=
      (writes_convertStep (T := T) (.inl rfl)).foldlM_zero (v := v) (by decide) (.inl rfl) h
    have hminus (T : Limits) {str : List UInt8} (h : str ≠ []) {v : ℤ} :=
      (writes_convertStep (T := T) (.inr rfl)).foldlM_zero (v := v) (by decide) (.inr rfl) h
    have hhex (bits : ℕ) {v : ℤ} :=
      (writes_convertFromHexStep bits).foldlM_zero (v := v) (by decide) (.inl rfl) hcons
    simp only [one_mul, neg_mul] at hplus hminus hhex
    refine ⟨fun T => ?_, fun T => ⟨_, if_neg hcons, fun v => hplus T hcons⟩,
      fun bits => ⟨_, if_neg hcons, fun v => hhex bits⟩⟩
    simp only [denotesSigned_cons]
    by_cases hsigned : ch = 45 ∨ ch = 43
    · by_cases hrest : rest = []
      · exact ⟨none, by simp [hsigned, hrest], by grind [Denotes]⟩
      · rcases hsigned with rfl | rfl
        · exact ⟨_, if_neg hrest, fun v => hminus T hrest⟩
        · exact ⟨_, if_neg hrest, fun v => hplus T hrest⟩
    · obtain ⟨h45, h43⟩ := not_or.mp hsigned
      simp only [h45, h43, or_self]
      exact ⟨_, rfl, fun v => hplus T hcons⟩

end StringUtils

end AK
