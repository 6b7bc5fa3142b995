import PranaOS.AK.JsonValue
import PranaOS.AK.StringUtils

/-!
# `AK/JsonParser`

The parser of JSON, over the input that is left. A recursive call gets one less of the fuel.

What `serialize` writes is parsed to a value with the same structure and strings. Numbers are parsed by
their size: first as an unsigned one with 32 bits, then as a signed one with 64 bits, which is cut off to
32 bits if it is not bigger than the greatest `i32`. Numbers below the least `i32` come back wrong, and
those above the greatest `i64` not at all (`roundTrips_iff`).
-/

namespace AK

open Digits LibC List Option
open StringUtils (Denotes Limits convertStep writes_convertStep)

/-- Why there is no value. -/
inductive JsonFailure where
  /-- The parser returns an empty `Optional`. -/
  | rejected
  /-- `VERIFY(!is_eof())` in `consume` fails. -/
  | verify
  /-- The number has a fraction. Values of type `Double` are not modelled. -/
  | fraction
  | outOfFuel
deriving DecidableEq

variable (input : List UInt8)

/-- `GenericLexer::peek`. -/
def peek : UInt8 := input.headD 0

/-- `ignore_while(isspace)`. -/
def ignoreWhileSpace : List UInt8 := input.dropWhile isspace

/-- `consume_specific`. -/
def consumeSpecific (next input : List UInt8) : Except JsonFailure (Unit × List UInt8) :=
  if next.isPrefixOf input then .ok ((), input.drop next.length) else .error .rejected

/-! ## `AK/StringUtils` -/

/-- The loop of `convert_to_uint`, for a type with `bound` values. -/
def convertToUintLoop (bound : ℕ) : ℕ → List UInt8 → Option ℕ
  | value, [] => some value
  | value, ch :: rest =>
    if ch < 48 ∨ ch > 57 then none
    else if value * 10 ≥ bound then none
    else if value * 10 + (ch.toNat - 48) ≥ bound then none
    else convertToUintLoop bound (value * 10 + (ch.toNat - 48)) rest

variable (str : List UInt8)

/-- `convert_to_uint<u32>`. -/
def convertToUint : Option ℕ :=
  let strTrimmed := trimWhitespace str
  if strTrimmed = [] then none else convertToUintLoop (2 ^ 32) 0 strTrimmed

/-- The value fits in an `i64`. -/
def FitsInt64 (value : ℤ) : Prop := -2 ^ 63 ≤ value ∧ value < 2 ^ 63
deriving Decidable

/-- The loop of `convert_to_int<i64>`. -/
def convertToIntLoop (sign : ℤ) : ℤ → List UInt8 → Option ℤ
  | value, [] => some value
  | value, ch :: rest =>
    if ch < 48 ∨ ch > 57 then none
    else if ¬ FitsInt64 (value * 10) then none
    else if ¬ FitsInt64 (value * 10 + sign * ((ch.toNat : ℤ) - 48)) then none
    else convertToIntLoop sign (value * 10 + sign * ((ch.toNat : ℤ) - 48)) rest

/-- `convert_to_int<i64>`. -/
def convertToInt : Option ℤ :=
  match trimWhitespace str with
  | [] => none
  | ch :: rest =>
    if ch = 45 ∨ ch = 43 then
      if rest = [] then none else convertToIntLoop (if ch = 45 then -1 else 1) 0 rest
    else convertToIntLoop 1 0 (ch :: rest)

/-- `convert_to_uint_from_hex`, for at most four digits. -/
def convertToUintFromHex : Option ℕ :=
  let strTrimmed := trimWhitespace str
  if strTrimmed = [] then none
  else if strTrimmed.all (isDigitOf 16) then some (valueFrom 16 0 strTrimmed)
  else none

/-- `StringBuilder::append_code_point`. -/
def codePointBytes (codePoint : ℕ) : List UInt8 :=
  if codePoint ≤ 0x7f then [UInt8.ofNat codePoint]
  else if codePoint ≤ 0x07ff then
    [UInt8.ofNat (codePoint / 64 % 32 + 0xc0), UInt8.ofNat (codePoint % 64 + 0x80)]
  else if codePoint ≤ 0xffff then
    [UInt8.ofNat (codePoint / 4096 % 16 + 0xe0), UInt8.ofNat (codePoint / 64 % 64 + 0x80),
      UInt8.ofNat (codePoint % 64 + 0x80)]
  else if codePoint ≤ 0x10ffff then
    [UInt8.ofNat (codePoint / 262144 % 8 + 0xf0), UInt8.ofNat (codePoint / 4096 % 64 + 0x80),
      UInt8.ofNat (codePoint / 64 % 64 + 0x80), UInt8.ofNat (codePoint % 64 + 0x80)]
  else [0xef, 0xbf, 0xbd]

/-! ## The parser -/

/-- The characters that an escape sequence without digits stands for. -/
def unescape (escaped : UInt8) : UInt8 :=
  if escaped = 110 then 10
  else if escaped = 114 then 13
  else if escaped = 116 then 9
  else if escaped = 98 then 8
  else if escaped = 102 then 12
  else escaped

/-- The loop of `consume_and_unescape_string`, up to the closing quote. -/
def unescapeLoop (string input : List UInt8) : Except JsonFailure (List UInt8 × List UInt8) :=
  match input with
  | [] => .error .rejected
  | ch :: rest =>
    if ch = 34 then .ok (string, rest)
    else if ch ≠ 92 then unescapeLoop (string ++ [ch]) rest
    else
      match rest with
      | [] => .error .verify
      | escaped :: rest =>
        if escaped = 117 then
          let bytes := match convertToUintFromHex (rest.take 4) with
            | some codePoint => codePointBytes codePoint
            | none => [63]
          unescapeLoop (string ++ bytes) (rest.drop 4)
        else unescapeLoop (string ++ [unescape escaped]) rest
termination_by input.length
decreasing_by all_goals simp only [List.length_cons, List.length_drop]; omega

/-- `consume_and_unescape_string`. -/
def consumeAndUnescapeString : Except JsonFailure (List UInt8 × List UInt8) := do
  let (_, input) ← consumeSpecific [34] input
  unescapeLoop [] input

/-- The loop of `parse_number`: the characters before and behind a point, whether there is a point, and
the input behind the number. -/
def numberLoop (numberBuffer fractionBuffer : List UInt8) (isDouble : Bool) :
    List UInt8 → List UInt8 × List UInt8 × Bool × List UInt8
  | [] => (numberBuffer, fractionBuffer, isDouble, [])
  | ch :: rest =>
    if ch = 46 then numberLoop numberBuffer fractionBuffer true rest
    else if ch = 45 ∨ 48 ≤ ch ∧ ch ≤ 57 then
      if isDouble then numberLoop numberBuffer (fractionBuffer ++ [ch]) isDouble rest
      else numberLoop (numberBuffer ++ [ch]) fractionBuffer isDouble rest
    else (numberBuffer, fractionBuffer, isDouble, ch :: rest)

/-- The value of a number without a point. -/
def integerValue (numberString : List UInt8) : Option JsonValue :=
  match convertToUint numberString with
  | some value => some (.unsignedInt32 (UInt32.ofNat value))
  | none => do
    let number ← convertToInt numberString
    if number ≤ 2 ^ 31 - 1 then return .int32 (Int32.ofInt number)
    else return .int64 (Int64.ofInt number)

/-- A value, if there is one, with the input behind it. -/
def withRest {α : Type} (result : Option α) (rest : List UInt8) : Except JsonFailure (α × List UInt8) :=
  match result with
  | some value => .ok (value, rest)
  | none => .error .rejected

/-- `parse_number`. -/
def parseNumber : Except JsonFailure (JsonValue × List UInt8) :=
  let (numberString, _, isDouble, input) := numberLoop [] [] false input
  if isDouble then .error .fraction else withRest (integerValue numberString) input

/-- What follows an item of an object or an array: the closing character, or a comma and another item. -/
def nextItem (close : UInt8) (input : List UInt8) : Except JsonFailure (Bool × List UInt8) := do
  let input := ignoreWhileSpace input
  if peek input = close then return (true, input.drop 1)
  else
    let (_, input) ← consumeSpecific [44] input
    if peek (ignoreWhileSpace input) = close then .error .rejected
    else return (false, ignoreWhileSpace input)

mutual

/-- `parse_helper`. -/
def parseHelper : ℕ → List UInt8 → Except JsonFailure (JsonValue × List UInt8)
  | 0, _ => .error .outOfFuel
  | fuel + 1, input => do
    let input := ignoreWhileSpace input
    let typeHint := peek input
    if typeHint = 123 then
      let (object, input) ← parseObjectLoop fuel .nil (input.drop 1)
      return (.object object, input)
    else if typeHint = 91 then
      let (array, input) ← parseArrayLoop fuel .nil (input.drop 1)
      return (.array array, input)
    else if typeHint = 34 then
      let (string, input) ← consumeAndUnescapeString input
      return (.string string, input)
    else if typeHint = 45 ∨ 48 ≤ typeHint ∧ typeHint ≤ 57 then parseNumber input
    else if typeHint = 102 then
      let (_, input) ← consumeSpecific [102, 97, 108, 115, 101] input
      return (.bool false, input)
    else if typeHint = 116 then
      let (_, input) ← consumeSpecific [116, 114, 117, 101] input
      return (.bool true, input)
    else if typeHint = 110 then
      let (_, input) ← consumeSpecific [110, 117, 108, 108] input
      return (.null, input)
    else .error .rejected

/-- `parse_object`, behind the opening brace. -/
def parseObjectLoop : ℕ → JsonObject → List UInt8 → Except JsonFailure (JsonObject × List UInt8)
  | 0, _, _ => .error .outOfFuel
  | fuel + 1, object, input =>
    let input := ignoreWhileSpace input
    if peek input = 125 then .ok (object, input.drop 1)
    else do
      let (name, input) ← consumeAndUnescapeString input
      let (_, input) ← consumeSpecific [58] (ignoreWhileSpace input)
      let (value, input) ← parseHelper fuel (ignoreWhileSpace input)
      let object := object.set name value
      let (closed, input) ← nextItem 125 input
      if closed then return (object, input) else parseObjectLoop fuel object input

/-- `parse_array`, behind the opening bracket. -/
def parseArrayLoop : ℕ → JsonArray → List UInt8 → Except JsonFailure (JsonArray × List UInt8)
  | 0, _, _ => .error .outOfFuel
  | fuel + 1, array, input =>
    let input := ignoreWhileSpace input
    if peek input = 93 then .ok (array, input.drop 1)
    else do
      let (element, input) ← parseHelper fuel input
      let array := array.append element
      let (closed, input) ← nextItem 93 input
      if closed then return (array, input) else parseArrayLoop fuel array input

end

/-- `parse`. -/
def parse (input : List UInt8) : Except JsonFailure JsonValue := do
  let (result, input) ← parseHelper (2 * input.length + 1) input
  if ignoreWhileSpace input ≠ [] then
    .error .rejected
  else
    return result

/-! ## Strings -/

theorem unescapeLoop_quote (string rest : List UInt8) :
    unescapeLoop string (34 :: rest) = .ok (string, rest) := by
  rw [unescapeLoop.eq_def]
  rfl

theorem unescapeLoop_char {ch : UInt8} (hquote : ch ≠ 34) (hbackslash : ch ≠ 92)
    (string rest : List UInt8) :
    unescapeLoop string (ch :: rest) = unescapeLoop (string ++ [ch]) rest := by
  rw [unescapeLoop.eq_def]
  simp [hquote, hbackslash]

theorem unescapeLoop_escaped {escaped : UInt8} (h : escaped ≠ 117) (string rest : List UInt8) :
    unescapeLoop string (92 :: escaped :: rest) = unescapeLoop (string ++ [unescape escaped]) rest := by
  rw [unescapeLoop.eq_def]
  simp [h]

theorem unescapeLoop_hex {digits rest : List UInt8} {codePoint : ℕ} (hlength : digits.length = 4)
    (h : convertToUintFromHex digits = some codePoint) (string : List UInt8) :
    unescapeLoop string (92 :: 117 :: digits ++ rest) =
      unescapeLoop (string ++ codePointBytes codePoint) rest := by
  rw [unescapeLoop.eq_def]
  simp [← hlength, h]

/-- The parser reads a character from its escape sequence. -/
theorem unescapeLoop_escapeForJson (ch : UInt8) (string rest : List UInt8) :
    unescapeLoop string (escapeForJson ch ++ rest) = unescapeLoop (string ++ [ch]) rest := by
  unfold escapeForJson
  split_ifs with hescape hbackspace hnewline htab hquote hbackslash
  · subst hescape
    exact unescapeLoop_hex rfl (show convertToUintFromHex [48, 48, 49, 66] = some 27 by decide) string
  · subst hbackspace; exact unescapeLoop_escaped (by decide) string rest
  · subst hnewline; exact unescapeLoop_escaped (by decide) string rest
  · subst htab; exact unescapeLoop_escaped (by decide) string rest
  · subst hquote; exact unescapeLoop_escaped (by decide) string rest
  · subst hbackslash; exact unescapeLoop_escaped (by decide) string rest
  · exact unescapeLoop_char hquote hbackslash string rest

/-- A string is read up to its quote. -/
theorem unescapeLoop_append (string value rest : List UInt8) :
    unescapeLoop string (appendEscapedForJson value ++ 34 :: rest) = .ok (string ++ value, rest) := by
  induction value generalizing string with
  | nil =>
    rw [append_nil]
    exact unescapeLoop_quote string rest
  | cons ch value ih =>
    have hcons : appendEscapedForJson (ch :: value) ++ 34 :: rest =
        escapeForJson ch ++ (appendEscapedForJson value ++ 34 :: rest) := by
      rw [appendEscapedForJson, flatMap_cons, append_assoc]
      rfl
    rw [hcons, unescapeLoop_escapeForJson, ih, append_assoc]
    rfl

theorem consumeAndUnescapeString_quoted (value rest : List UInt8) :
    consumeAndUnescapeString (quoted value ++ rest) = .ok (value, rest) := by
  have hquoted : quoted value ++ rest = 34 :: (appendEscapedForJson value ++ 34 :: rest) := by
    simp [quoted]
  rw [hquoted, consumeAndUnescapeString]
  exact unescapeLoop_append [] value rest

/-! ## Numbers -/

/-- The characters of numbers. -/
def IsNumberChar (ch : UInt8) : Prop := ch = 46 ∨ ch = 45 ∨ 48 ≤ ch ∧ ch ≤ 57
deriving Decidable

/-- A number ends here. -/
def NumberEnd (rest : List UInt8) : Prop := ∀ ch ∈ rest.head?, ¬ IsNumberChar ch

theorem numberEnd_nil : NumberEnd [] := by simp [NumberEnd]

theorem numberEnd_cons {ch : UInt8} (h : ¬ IsNumberChar ch) (rest : List UInt8) :
    NumberEnd (ch :: rest) := by
  simpa [NumberEnd] using h

/-- The loop takes what belongs to the number. -/
theorem numberLoop_append {number rest : List UInt8}
    (hnumber : ∀ ch ∈ number, ch = 45 ∨ 48 ≤ ch ∧ ch ≤ 57) (hrest : NumberEnd rest)
    (numberBuffer : List UInt8) :
    numberLoop numberBuffer [] false (number ++ rest) = (numberBuffer ++ number, [], false, rest) := by
  induction number generalizing numberBuffer with
  | nil =>
    cases rest with
    | nil => simp [numberLoop]
    | cons ch rest =>
      have hch : ¬ IsNumberChar ch := hrest ch rfl
      rw [IsNumberChar, not_or] at hch
      simp [numberLoop, hch.1, hch.2]
  | cons ch number ih =>
    have hch := hnumber ch mem_cons_self
    have hpoint : ch ≠ 46 := by rintro rfl; revert hch; decide
    rw [cons_append, numberLoop, if_neg hpoint, if_pos hch, if_neg Bool.false_ne_true,
      ih fun ch hch => hnumber ch (mem_cons_of_mem _ hch), append_assoc]
    rfl

theorem not_isspace_digit {n : ℕ} (h : n < 10) : isspace (digit n) = false := by
  interval_cases n <;> decide

theorem digit_range {n : ℕ} (h : n < 10) : 48 ≤ digit n ∧ digit n ≤ 57 := by
  interval_cases n <;> decide

/-- There is nothing to trim. -/
theorem trimWhitespace_eq_self {str : List UInt8} (h : ∀ ch ∈ str, isspace ch = false) :
    trimWhitespace str = str := by
  have hdrop : ∀ str : List UInt8, (∀ ch ∈ str, isspace ch = false) → str.dropWhile isspace = str := by
    intro str h
    cases str with
    | nil => rfl
    | cons ch rest => simp [h ch mem_cons_self]
  rw [trimWhitespace, hdrop str h, hdrop str.reverse (by simpa using h), reverse_reverse]

theorem denotes_decimal_iff {n : ℕ} {value : ℤ} : Denotes 10 (decimal n) value ↔ (n : ℤ) = value := by
  have hdigits : ∀ ch ∈ decimal n, isDigitOf 10 ch = true := by
    intro ch hch
    obtain ⟨m, hm, rfl⟩ := exists_digit_of_mem_decimal hch
    simp [isDigitOf, digitValue_digit hm, hm]
  rw [Denotes, valueFrom_decimal, and_iff_right (decimal_ne_nil n), and_iff_right hdigits]

/-- A number that was written is read again if it fits. -/
theorem foldlM_decimal {T : Limits} {sign : ℤ} (hsign : sign = 1 ∨ sign = -1) (n : ℕ) :
    (decimal n).foldlM (convertStep T sign) 0 = if T.Fits (sign * n) then some (sign * n) else none := by
  refine Option.ext fun value => ?_
  rw [(writes_convertStep hsign).foldlM_zero (by decide) hsign (decimal_ne_nil n), denotes_decimal_iff]
  rcases hsign with rfl | rfl <;> grind

/-- The loop for `u32` is the one of `convert_to_uint`. -/
theorem convertToUintLoop_eq (value : ℕ) (str : List UInt8) :
    (convertToUintLoop (2 ^ 32) value str).map Nat.cast =
      str.foldlM (convertStep (.unsigned 32) 1) (value : ℤ) := by
  have hfits (n : ℕ) : ¬(Limits.unsigned 32).Fits n ↔ n ≥ 2 ^ 32 := by
    simp only [Limits.Fits, Limits.unsigned]
    omega
  induction str generalizing value with
  | nil => rfl
  | cons ch rest ih =>
    rw [foldlM_cons, convertToUintLoop, convertStep]
    by_cases hdigit : ch < 48 ∨ ch > 57
    · simp [hdigit]
    · have hge : 48 ≤ ch.toNat := not_lt.mp (not_or.mp hdigit).1
      have hmul : (value : ℤ) * 10 = (value * 10 : ℕ) := by push_cast; rfl
      have hadd : ((value * 10 : ℕ) : ℤ) + 1 * (ch.toNat - 48) = (value * 10 + (ch.toNat - 48) : ℕ) := by
        push_cast [hge]
        ring
      rw [if_neg hdigit, if_neg hdigit, hmul, hadd]
      simp only [hfits]
      split_ifs
      · rfl
      · rfl
      · exact ih _

theorem fitsInt64_iff {value : ℤ} : FitsInt64 value ↔ (Limits.signed 63).Fits value := by
  simp only [FitsInt64, Limits.Fits, Limits.signed]
  omega

/-- The loop for `i64` is the one of `convert_to_int`. -/
theorem convertToIntLoop_eq (sign value : ℤ) (str : List UInt8) :
    convertToIntLoop sign value str = str.foldlM (convertStep (.signed 63) sign) value := by
  induction str generalizing value with
  | nil => rfl
  | cons ch rest ih =>
    rw [foldlM_cons, convertToIntLoop, convertStep]
    simp only [fitsInt64_iff, ih]
    split_ifs <;> rfl

/-- What a number becomes when it is parsed. -/
def reparseInteger (value : ℤ) : Option JsonValue :=
  if 0 ≤ value ∧ value < 2 ^ 32 then some (.unsignedInt32 (UInt32.ofNat value.toNat))
  else if FitsInt64 value then
    if value ≤ 2 ^ 31 - 1 then some (.int32 (Int32.ofInt value)) else some (.int64 (Int64.ofInt value))
  else none

/-- The characters of a number that is written. -/
theorem mem_formatInteger {value : ℤ} {ch : UInt8} (h : ch ∈ formatInteger value) :
    ch = 45 ∨ ∃ m < 10, ch = digit m := by
  unfold formatInteger at h
  split at h
  · rcases mem_cons.mp h with rfl | h
    · exact Or.inl rfl
    · exact Or.inr (exists_digit_of_mem_decimal h)
  · exact Or.inr (exists_digit_of_mem_decimal h)

theorem exists_formatInteger_eq_cons (value : ℤ) :
    ∃ ch rest, formatInteger value = ch :: rest ∧ (ch = 45 ∨ ∃ m < 10, ch = digit m) := by
  cases hformat : formatInteger value with
  | nil =>
    unfold formatInteger at hformat
    split at hformat
    · cases hformat
    · exact absurd hformat (decimal_ne_nil _)
  | cons ch rest =>
    exact ⟨ch, rest, rfl, mem_formatInteger (by rw [hformat]; exact mem_cons_self)⟩

theorem trimWhitespace_formatInteger (value : ℤ) :
    trimWhitespace (formatInteger value) = formatInteger value := by
  refine trimWhitespace_eq_self fun ch hch => ?_
  rcases mem_formatInteger hch with rfl | ⟨m, hm, rfl⟩
  · decide
  · exact not_isspace_digit hm

theorem convertToUint_formatInteger (value : ℤ) :
    convertToUint (formatInteger value) =
      if 0 ≤ value ∧ value < 2 ^ 32 then some value.toNat else none := by
  unfold convertToUint
  rw [trimWhitespace_formatInteger]
  unfold formatInteger
  split
  next h =>
    rw [if_neg (show ¬ (0 ≤ value ∧ value < 2 ^ 32) by omega)]
    rfl
  next h =>
    have hloop := convertToUintLoop_eq 0 (decimal value.natAbs)
    have hfits : (Limits.unsigned 32).Fits (1 * value.natAbs) ↔ 0 ≤ value ∧ value < 2 ^ 32 := by
      simp only [Limits.Fits, Limits.unsigned]
      omega
    rw [Nat.cast_zero, foldlM_decimal (.inl rfl)] at hloop
    simp only [decimal_ne_nil, if_false, hfits] at hloop ⊢
    split_ifs at hloop ⊢
    · obtain ⟨n, hn, hcast⟩ := map_eq_some_iff.mp hloop
      rw [hn, some.injEq]
      omega
    · exact map_eq_none_iff.mp hloop

theorem convertToIntLoop_zero {sign : ℤ} (hsign : sign = 1 ∨ sign = -1) (n : ℕ) :
    convertToIntLoop sign 0 (decimal n) = if FitsInt64 (sign * n) then some (sign * n) else none := by
  simp only [convertToIntLoop_eq, foldlM_decimal hsign, fitsInt64_iff]

theorem convertToInt_formatInteger (value : ℤ) :
    convertToInt (formatInteger value) = if FitsInt64 value then some value else none := by
  have htrim := trimWhitespace_formatInteger value
  rcases lt_or_ge value 0 with hneg | hpos
  · have hvalue : -1 * (value.natAbs : ℤ) = value := by omega
    rw [formatInteger, if_pos hneg] at htrim ⊢
    simp only [convertToInt, htrim, true_or, if_true, decimal_ne_nil, if_false]
    rw [convertToIntLoop_zero (Or.inr rfl), hvalue]
  · have hvalue : 1 * (value.natAbs : ℤ) = value := by omega
    have hloop := convertToIntLoop_zero (Or.inl rfl) value.natAbs
    rw [formatInteger, if_neg (by omega)] at htrim ⊢
    rw [hvalue] at hloop
    rw [convertToInt, htrim]
    cases hdecimal : decimal value.natAbs with
    | nil => exact absurd hdecimal (decimal_ne_nil _)
    | cons ch rest =>
      have hmem : ch ∈ decimal value.natAbs := by rw [hdecimal]; exact mem_cons_self
      obtain ⟨m, hm, rfl⟩ := exists_digit_of_mem_decimal hmem
      have hsign : ¬ (digit m = 45 ∨ digit m = 43) := by interval_cases m <;> decide
      rw [hdecimal] at hloop
      simp [hsign, hloop]

theorem integerValue_formatInteger (value : ℤ) :
    integerValue (formatInteger value) = reparseInteger value := by
  rw [integerValue, convertToUint_formatInteger, convertToInt_formatInteger, reparseInteger]
  by_cases hlow : 0 ≤ value ∧ value < 2 ^ 32
  · rw [if_pos hlow, if_pos hlow]
  · rw [if_neg hlow, if_neg hlow]
    by_cases hfits : FitsInt64 value
    · rw [if_pos hfits, if_pos hfits]
      rfl
    · rw [if_neg hfits, if_neg hfits]
      rfl

theorem parseNumber_formatInteger (value : ℤ) {rest : List UInt8} (hrest : NumberEnd rest) :
    parseNumber (formatInteger value ++ rest) = withRest (reparseInteger value) rest := by
  have hnumber : ∀ ch ∈ formatInteger value, ch = 45 ∨ 48 ≤ ch ∧ ch ≤ 57 := by
    intro ch hch
    rcases mem_formatInteger hch with rfl | ⟨m, hm, rfl⟩
    · exact Or.inl rfl
    · exact Or.inr (digit_range hm)
  rw [parseNumber, numberLoop_append hnumber hrest, ← integerValue_formatInteger]
  rfl

/-! ## Arrays and objects -/

/-- The elements of both arrays. -/
def JsonArray.concat : JsonArray → JsonArray → JsonArray
  | .nil, other => other
  | .cons value rest, other => .cons value (rest.concat other)

theorem JsonArray.append_concat (self : JsonArray) (value : JsonValue) (other : JsonArray) :
    (self.append value).concat other = self.concat (.cons value other) := by
  match self with
  | .nil => rfl
  | .cons first rest => rw [append, concat, concat, append_concat rest]

/-- The members of both objects. -/
def JsonObject.concat : JsonObject → JsonObject → JsonObject
  | .nil, other => other
  | .cons name value rest, other => .cons name value (rest.concat other)

theorem JsonObject.append_concat (self : JsonObject) (name : List UInt8) (value : JsonValue)
    (other : JsonObject) :
    (self.append name value).concat other = self.concat (.cons name value other) := by
  match self with
  | .nil => rfl
  | .cons first value' rest => rw [append, concat, concat, append_concat rest]

mutual

/-- What a value becomes when it is serialized and parsed. -/
def JsonValue.reparse : JsonValue → Option JsonValue
  | .int32 value => reparseInteger value.toInt
  | .int64 value => reparseInteger value.toInt
  | .unsignedInt32 value => reparseInteger value.toNat
  | .unsignedInt64 value => reparseInteger value.toNat
  | .array value => value.reparse.map .array
  | .object value => value.reparse.map .object
  | value => some value

/-- The same for arrays. -/
def JsonArray.reparse : JsonArray → Option JsonArray
  | .nil => some .nil
  | .cons value rest => do
    let value ← value.reparse
    let rest ← rest.reparse
    return .cons value rest

/-- The same for objects. -/
def JsonObject.reparse : JsonObject → Option JsonObject
  | .nil => some .nil
  | .cons name value rest => do
    let value ← value.reparse
    let rest ← rest.reparse
    return .cons name value rest

end

/-- The first character of a value is not a space and does not close an array or an object. -/
theorem JsonValue.exists_serialize_eq_cons (value : JsonValue) :
    ∃ ch rest, value.serialize = ch :: rest ∧ isspace ch = false ∧ ch ≠ 93 ∧ ch ≠ 125 := by
  have hinteger : ∀ n : ℤ, ∃ ch rest, formatInteger n = ch :: rest ∧ isspace ch = false ∧ ch ≠ 93 ∧
      ch ≠ 125 := by
    intro n
    obtain ⟨ch, rest, hformat, rfl | ⟨m, hm, rfl⟩⟩ := exists_formatInteger_eq_cons n
    · exact ⟨_, rest, hformat, by decide⟩
    · exact ⟨_, rest, hformat, by interval_cases m <;> decide⟩
  cases value with
  | null => exact ⟨110, _, rfl, by decide⟩
  | int32 _ | unsignedInt32 _ | int64 _ | unsignedInt64 _ => exact hinteger _
  | bool value =>
    cases value
    · exact ⟨102, _, rfl, by decide⟩
    · exact ⟨116, _, rfl, by decide⟩
  | string value => exact ⟨34, _, rfl, by decide⟩
  | array value => exact ⟨91, _, rfl, by decide⟩
  | object value => exact ⟨123, _, rfl, by decide⟩

theorem ignoreWhileSpace_cons {ch : UInt8} (h : isspace ch = false) (rest : List UInt8) :
    ignoreWhileSpace (ch :: rest) = ch :: rest := by
  simp [ignoreWhileSpace, h]

/-- The input that starts with a value has no space to ignore. -/
theorem ignoreWhileSpace_serialize (value : JsonValue) (rest : List UInt8) :
    ignoreWhileSpace (value.serialize ++ rest) = value.serialize ++ rest := by
  obtain ⟨ch, text, hcons, hspace, -⟩ := value.exists_serialize_eq_cons
  rw [hcons, cons_append, ignoreWhileSpace_cons hspace]

/-- Behind a comma there is another item. -/
theorem nextItem_comma {close ch : UInt8} (hclose : close ≠ 44) (hspace : isspace ch = false)
    (hne : ch ≠ close) (rest : List UInt8) :
    nextItem close (44 :: ch :: rest) = .ok (false, ch :: rest) := by
  have hcomma : ignoreWhileSpace (44 :: ch :: rest) = 44 :: ch :: rest :=
    ignoreWhileSpace_cons (by decide) _
  have hignore := ignoreWhileSpace_cons hspace rest
  have hconsume : consumeSpecific [44] (44 :: ch :: rest) = .ok ((), ch :: rest) := by
    simp [consumeSpecific]
  rw [nextItem, hcomma]
  simp only [peek, headD_cons, hclose.symm, if_false, hconsume]
  change (if peek (ignoreWhileSpace (ch :: rest)) = close then _ else _) = _
  rw [hignore, if_neg (by simpa [peek] using hne)]
  rfl

/-- What follows an item in a list of items ends a number. -/
theorem JsonArray.numberEnd_serializeItems (items : JsonArray) (rest : List UInt8) :
    NumberEnd (items.serializeItems false ++ 93 :: rest) := by
  cases items with
  | nil => exact numberEnd_cons (by decide) rest
  | cons value items => exact numberEnd_cons (by decide) _

theorem JsonObject.numberEnd_serializeItems (items : JsonObject) (rest : List UInt8) :
    NumberEnd (items.serializeItems false ++ 125 :: rest) := by
  cases items with
  | nil => exact numberEnd_cons (by decide) rest
  | cons name value items => exact numberEnd_cons (by decide) _

/-- A number is not taken for something else. -/
theorem parseHelper_formatInteger (value : ℤ) (fuel : ℕ) {rest : List UInt8} (hrest : NumberEnd rest) :
    parseHelper (fuel + 1) (formatInteger value ++ rest) = withRest (reparseInteger value) rest := by
  have hparse := parseNumber_formatInteger value hrest
  obtain ⟨ch, text, hformat, hmem⟩ := exists_formatInteger_eq_cons value
  have hch : isspace ch = false ∧ ch ≠ 123 ∧ ch ≠ 91 ∧ ch ≠ 34 ∧ (ch = 45 ∨ 48 ≤ ch ∧ ch ≤ 57) := by
    rcases hmem with rfl | ⟨m, hm, rfl⟩
    · decide
    · interval_cases m <;> decide
  obtain ⟨hspace, hbrace, hbracket, hquote, hnumber⟩ := hch
  rw [hformat] at hparse ⊢
  rw [parseHelper, cons_append, ignoreWhileSpace_cons hspace]
  simp only [peek, headD_cons, hbrace, hbracket, hquote, if_false, hnumber, if_true]
  exact hparse

theorem JsonArray.concat_nil (self : JsonArray) : self.concat .nil = self := by
  match self with
  | .nil => rfl
  | .cons value rest => rw [concat, concat_nil rest]

theorem JsonObject.concat_nil (self : JsonObject) : self.concat .nil = self := by
  match self with
  | .nil => rfl
  | .cons name value rest => rw [concat, concat_nil rest]

theorem ok_bind {α β : Type} (value : α) (next : α → Except JsonFailure β) :
    (Except.ok value >>= next) = next value :=
  rfl

/-- A step of the parser after one that has a value only if `result` has one. -/
theorem withRest_bind {α β : Type} (result : Option α) (rest : List UInt8)
    (next : α × List UInt8 → Except JsonFailure (β × List UInt8)) :
    (withRest result rest >>= next) =
      match result with
      | some value => next (value, rest)
      | none => .error .rejected := by
  cases result <;> rfl

theorem peek_serialize_ne (value : JsonValue) (rest : List UInt8) :
    peek (value.serialize ++ rest) ≠ 93 ∧ peek (value.serialize ++ rest) ≠ 125 := by
  obtain ⟨ch, text, hcons, -, hne⟩ := value.exists_serialize_eq_cons
  rw [hcons]
  exact hne

/-- Behind an element the rest of the array is read as if it were the whole. -/
theorem JsonArray.parseArrayLoop_tail (items : JsonArray) (rest : List UInt8) (fuel : ℕ)
    (array : JsonArray) :
    (do
      let (closed, input) ← nextItem 93 (items.serializeItems false ++ 93 :: rest)
      if closed then return (array, input) else parseArrayLoop (fuel + 1) array input) =
      parseArrayLoop (fuel + 1) array (items.serializeItems true ++ 93 :: rest) := by
  cases items with
  | nil =>
    rfl
  | cons value items =>
    obtain ⟨ch, text, hcons, hspace, hbracket, -⟩ := value.exists_serialize_eq_cons
    simp only [serializeItems, beginItem, hcons]
    exact congrArg (· >>= _) (nextItem_comma (by decide) hspace hbracket _)

/-- The same for the members of an object. -/
theorem JsonObject.parseObjectLoop_tail (items : JsonObject) (rest : List UInt8) (fuel : ℕ)
    (object : JsonObject) :
    (do
      let (closed, input) ← nextItem 125 (items.serializeItems false ++ 125 :: rest)
      if closed then return (object, input) else parseObjectLoop (fuel + 1) object input) =
      parseObjectLoop (fuel + 1) object (items.serializeItems true ++ 125 :: rest) := by
  cases items with
  | nil =>
    rfl
  | cons name value items =>
    exact congrArg (· >>= _) (nextItem_comma (by decide) (by decide) (by decide) _)

/-- Behind an item there is at most one character more than at the start. -/
theorem JsonArray.length_serializeItems_le (items : JsonArray) :
    (items.serializeItems true).length ≤ (items.serializeItems false).length := by
  cases items <;> simp [serializeItems, beginItem]

theorem JsonObject.length_serializeItems_le (items : JsonObject) :
    (items.serializeItems true).length ≤ (items.serializeItems false).length := by
  cases items <;> simp [serializeItems, beginItem]

mutual

/-- A value is parsed from what is serialized. -/
theorem JsonValue.parseHelper_serialize (value : JsonValue) (hwf : value.WellFormed) {fuel : ℕ}
    {rest : List UInt8} (hfuel : 2 * value.serialize.length + 1 ≤ fuel) (hrest : NumberEnd rest) :
    parseHelper fuel (value.serialize ++ rest) = withRest value.reparse rest := by
  obtain ⟨fuel, rfl⟩ := Nat.exists_eq_add_of_le' (show 1 ≤ fuel by omega)
  match value with
  | .null | .bool true | .bool false => rfl
  | .int32 _ | .int64 _ | .unsignedInt32 _ | .unsignedInt64 _ =>
    exact parseHelper_formatInteger _ fuel hrest
  | .string value =>
    have hstring := consumeAndUnescapeString_quoted value rest
    have hignore : ignoreWhileSpace (quoted value ++ rest) = quoted value ++ rest :=
      ignoreWhileSpace_cons (by decide) _
    have hpeek : peek (quoted value ++ rest) = 34 := rfl
    rw [JsonValue.serialize, parseHelper, hignore]
    simp only [hpeek, hstring, show ¬ (34 : UInt8) = 123 by decide, show ¬ (34 : UInt8) = 91 by decide,
      if_false, if_true]
    rfl
  | .array value =>
    have htext : (JsonValue.array value).serialize ++ rest =
        91 :: (value.serializeItems true ++ 93 :: rest) := by simp [JsonValue.serialize]
    have hlength : 2 * (value.serializeItems true).length + 2 ≤ fuel := by
      simp [JsonValue.serialize] at hfuel
      omega
    have hloop := value.parseArrayLoop_serialize hwf rest hlength .nil
    rw [htext, parseHelper, ignoreWhileSpace_cons (by decide)]
    simp only [peek, headD_cons, show ¬ (91 : UInt8) = 123 by decide, if_false, if_true,
      drop_one, tail_cons]
    rw [hloop, withRest_bind, JsonValue.reparse]
    cases value.reparse <;> rfl
  | .object value =>
    have htext : (JsonValue.object value).serialize ++ rest =
        123 :: (value.serializeItems true ++ 125 :: rest) := by simp [JsonValue.serialize]
    have hlength : 2 * (value.serializeItems true).length + 2 ≤ fuel := by
      simp [JsonValue.serialize] at hfuel
      omega
    have hloop := value.parseObjectLoop_serialize hwf.2 rest hlength .nil hwf.1
    rw [htext, parseHelper, ignoreWhileSpace_cons (by decide)]
    simp only [peek, headD_cons, if_true, drop_one, tail_cons]
    rw [hloop, withRest_bind, JsonValue.reparse]
    cases value.reparse <;> rfl

/-- The same for the items of an array. -/
theorem JsonArray.parseArrayLoop_serialize (items : JsonArray) (hwf : items.WellFormed) {fuel : ℕ}
    (rest : List UInt8) (hfuel : 2 * (items.serializeItems true).length + 2 ≤ fuel)
    (array : JsonArray) :
    parseArrayLoop fuel array (items.serializeItems true ++ 93 :: rest) =
      withRest (items.reparse.map array.concat) rest := by
  obtain ⟨fuel, rfl⟩ := Nat.exists_eq_add_of_le' (show 1 ≤ fuel by omega)
  match items with
  | .nil =>
    have hconcat := array.concat_nil
    simp only [JsonArray.serializeItems, JsonArray.reparse, nil_append, map_some, hconcat]
    rfl
  | .cons value items =>
    have htext : (JsonArray.cons value items).serializeItems true ++ 93 :: rest =
        value.serialize ++ (items.serializeItems false ++ 93 :: rest) := by
      simp [JsonArray.serializeItems, beginItem]
    have hlength : value.serialize.length + (items.serializeItems false).length =
        ((JsonArray.cons value items).serializeItems true).length := by
      simp [JsonArray.serializeItems, beginItem]
    have hvalue := value.parseHelper_serialize hwf.1 (show 2 * value.serialize.length + 1 ≤ fuel by omega)
      (items.numberEnd_serializeItems rest)
    rw [htext, parseArrayLoop, ignoreWhileSpace_serialize]
    simp only [peek_serialize_ne, if_false]
    rw [hvalue, withRest_bind, JsonArray.reparse]
    cases value.reparse with
    | none => rfl
    | some value' =>
      have hpos : 0 < value.serialize.length := by
        obtain ⟨ch, text, hcons, -⟩ := value.exists_serialize_eq_cons
        rw [hcons]
        exact Nat.succ_pos _
      have hshorter := items.length_serializeItems_le
      obtain ⟨fuel, rfl⟩ := Nat.exists_eq_add_of_le' (show 1 ≤ fuel by omega)
      refine (items.parseArrayLoop_tail rest fuel _).trans ?_
      rw [items.parseArrayLoop_serialize hwf.2 rest (by omega) (array.append value')]
      cases items.reparse with
      | none => rfl
      | some items' =>
        simp only [map_some, JsonArray.append_concat]
        rfl

/-- The same for the members of an object. -/
theorem JsonObject.parseObjectLoop_serialize (items : JsonObject) (hwf : items.WellFormed) {fuel : ℕ}
    (rest : List UInt8) (hfuel : 2 * (items.serializeItems true).length + 2 ≤ fuel)
    (object : JsonObject) (hnames : (object.names ++ items.names).Nodup) :
    parseObjectLoop fuel object (items.serializeItems true ++ 125 :: rest) =
      withRest (items.reparse.map object.concat) rest := by
  obtain ⟨fuel, rfl⟩ := Nat.exists_eq_add_of_le' (show 1 ≤ fuel by omega)
  match items with
  | .nil =>
    have hconcat := object.concat_nil
    simp only [JsonObject.serializeItems, JsonObject.reparse, nil_append, map_some, hconcat]
    rfl
  | .cons name value items =>
    have htext : (JsonObject.cons name value items).serializeItems true ++ 125 :: rest =
        quoted name ++ 58 :: (value.serialize ++ (items.serializeItems false ++ 125 :: rest)) := by
      simp [JsonObject.serializeItems, beginItem]
    have hlength : value.serialize.length + (items.serializeItems false).length + 3 ≤
        ((JsonObject.cons name value items).serializeItems true).length := by
      simp only [JsonObject.serializeItems, beginItem, quoted, if_true, nil_append,
        cons_append, length_cons, length_append, length_nil]
      omega
    have hignore : ∀ text, ignoreWhileSpace (quoted name ++ text) = quoted name ++ text := fun text =>
      ignoreWhileSpace_cons (by decide) _
    have hpeek : ∀ text, peek (quoted name ++ text) ≠ 125 := fun text => show (34 : UInt8) ≠ 125 by decide
    have hname := consumeAndUnescapeString_quoted name
    have hcolon : ∀ text, consumeSpecific [58] (ignoreWhileSpace (58 :: text)) = .ok ((), text) := by
      intro text
      rw [ignoreWhileSpace_cons (by decide)]
      simp [consumeSpecific]
    have hvalue := value.parseHelper_serialize hwf.1 (show 2 * value.serialize.length + 1 ≤ fuel by omega)
      (items.numberEnd_serializeItems rest)
    -- The name is not that of a member before it.
    have hnew : name ∉ object.names := by
      intro hmem
      exact (nodup_append.mp hnames).2.2 name hmem name mem_cons_self rfl
    have hset : ∀ value', object.set name value' = object.append name value' := by
      intro value'
      rw [JsonObject.set, JsonObject.remove_of_notMem hnew]
    rw [htext, parseObjectLoop, hignore]
    simp only [hpeek, if_false, hname, ok_bind, hcolon, ignoreWhileSpace_serialize]
    rw [hvalue, withRest_bind, JsonObject.reparse]
    cases value.reparse with
    | none => rfl
    | some value' =>
      have hshorter := items.length_serializeItems_le
      have hnames' : ((object.append name value').names ++ items.names).Nodup := by
        rw [JsonObject.names_append, append_assoc]
        exact hnames
      obtain ⟨fuel, rfl⟩ := Nat.exists_eq_add_of_le' (show 1 ≤ fuel by omega)
      simp only [hset]
      refine (items.parseObjectLoop_tail rest fuel _).trans ?_
      rw [items.parseObjectLoop_serialize hwf.2 rest (by omega) (object.append name value') hnames']
      cases items.reparse with
      | none => rfl
      | some items' =>
        simp only [map_some, JsonObject.append_concat]
        rfl

end

/-! ## The round trip -/

/-- What is serialized is parsed, unless a number cannot be parsed again. -/
theorem parse_serialize (value : JsonValue) (hwf : value.WellFormed) :
    parse value.serialize =
      match value.reparse with
      | some result => .ok result
      | none => .error .rejected := by
  have hparse := value.parseHelper_serialize hwf (le_refl (2 * value.serialize.length + 1)) numberEnd_nil
  rw [append_nil] at hparse
  rw [parse, hparse]
  cases value.reparse <;> rfl

/-- A number that is parsed again has its value if it is not below the least `i32` and not above the
greatest `i64`. -/
def IntegerInRange (value : ℤ) : Prop := -2 ^ 31 ≤ value ∧ value < 2 ^ 63

instance (value : ℤ) : Decidable (IntegerInRange value) := instDecidableAnd

mutual

/-- All numbers are in range. -/
def JsonValue.InRange : JsonValue → Prop
  | .int32 value => IntegerInRange value.toInt
  | .int64 value => IntegerInRange value.toInt
  | .unsignedInt32 value => IntegerInRange value.toNat
  | .unsignedInt64 value => IntegerInRange value.toNat
  | .array value => value.InRange
  | .object value => value.InRange
  | _ => True

/-- The same for arrays. -/
def JsonArray.InRange : JsonArray → Prop
  | .nil => True
  | .cons value rest => value.InRange ∧ rest.InRange

/-- The same for objects. -/
def JsonObject.InRange : JsonObject → Prop
  | .nil => True
  | .cons _ value rest => value.InRange ∧ rest.InRange

end

/-- A number that is cut off to 32 bits keeps its value only if it is not below the least `i32`. -/
theorem reparseInteger_eq_iff (value : ℤ) :
    (∃ result, reparseInteger value = some result ∧ result.integer = some value) ↔
      IntegerInRange value := by
  unfold reparseInteger IntegerInRange
  split
  next hlow =>
    have hvalue : ((UInt32.ofNat value.toNat).toNat : ℤ) = value := by
      rw [UInt32.toNat_ofNat']
      omega
    simp only [some.injEq, exists_eq_left', JsonValue.integer, hvalue, true_iff]
    omega
  next hlow =>
    split
    next hfits =>
      obtain ⟨hlower, hupper⟩ := hfits
      split
      next hsmall =>
        have hsize : Int32.size = 2 ^ 32 := rfl
        simp only [some.injEq, exists_eq_left', JsonValue.integer, Int32.toInt_ofInt, hsize]
        rw [Int.bmod_def]
        omega
      next hbig =>
        have hvalue : (Int64.ofInt value).toInt = value := Int64.toInt_ofInt_of_le hlower hupper
        simp only [some.injEq, exists_eq_left', JsonValue.integer, hvalue, true_iff]
        omega
    next hfits =>
      unfold FitsInt64 at hfits
      simp only [reduceCtorEq, false_and, exists_false, false_iff]
      omega

theorem exists_map_iff {α β : Type} {x : Option α} {f : α → β} {p : β → Prop} :
    (∃ b, x.map f = some b ∧ p b) ↔ ∃ a, x = some a ∧ p (f a) := by
  cases x <;> simp

mutual

/-- What a value becomes is the same value iff its numbers are in range. -/
theorem JsonValue.reparse_same_iff (value : JsonValue) :
    (∃ result, value.reparse = some result ∧ value.Same result) ↔ value.InRange := by
  match value with
  | .null => exact ⟨fun _ => trivial, fun _ => ⟨.null, rfl, trivial⟩⟩
  | .bool value => exact ⟨fun _ => trivial, fun _ => ⟨.bool value, rfl, rfl⟩⟩
  | .string value => exact ⟨fun _ => trivial, fun _ => ⟨.string value, rfl, rfl⟩⟩
  | .int32 _ | .int64 _ | .unsignedInt32 _ | .unsignedInt64 _ =>
    exact reparseInteger_eq_iff _
  | .array value | .object value =>
    rw [JsonValue.reparse, JsonValue.InRange, ← value.reparse_same_iff, exists_map_iff]
    simp [JsonValue.Same]

/-- The same for arrays. -/
theorem JsonArray.reparse_same_iff (array : JsonArray) :
    (∃ result, array.reparse = some result ∧ array.Same result) ↔ array.InRange := by
  match array with
  | .nil => simp [JsonArray.reparse, JsonArray.Same, JsonArray.InRange]
  | .cons value rest =>
    rw [JsonArray.reparse, JsonArray.InRange, ← value.reparse_same_iff, ← rest.reparse_same_iff]
    cases value.reparse with
    | none => simp
    | some value' =>
      cases rest.reparse with
      | none => simp
      | some rest' => simp [JsonArray.Same]

/-- The same for objects. -/
theorem JsonObject.reparse_same_iff (object : JsonObject) :
    (∃ result, object.reparse = some result ∧ object.Same result) ↔ object.InRange := by
  match object with
  | .nil => simp [JsonObject.reparse, JsonObject.Same, JsonObject.InRange]
  | .cons name value rest =>
    rw [JsonObject.reparse, JsonObject.InRange, ← value.reparse_same_iff, ← rest.reparse_same_iff]
    cases value.reparse with
    | none => simp
    | some value' =>
      cases rest.reparse with
      | none => simp
      | some rest' => simp [JsonObject.Same]

end

/-- The text of a value is parsed, and what comes back has the same structure, strings and numbers. -/
def JsonValue.RoundTrips (value : JsonValue) : Prop :=
  ∃ result, parse value.serialize = .ok result ∧ value.Same result

/-- A value survives `serialize` and `parse` iff no number in it is below the least `i32` or above the
greatest `i64`. -/
theorem roundTrips_iff (value : JsonValue) (hwf : value.WellFormed) :
    value.RoundTrips ↔ value.InRange := by
  rw [JsonValue.RoundTrips, parse_serialize value hwf, ← value.reparse_same_iff]
  cases value.reparse with
  | none => simp
  | some result => simp

/-- An array with an object in it, whose member has escaped characters in its name. -/
theorem roundTrips_iff_nested :
    (JsonValue.array (.cons (.object (.cons [27, 34, 92] (.int32 (-5)) .nil)) (.cons .null .nil))).RoundTrips :=
  (roundTrips_iff _ (by simp [JsonValue.WellFormed, JsonArray.WellFormed, JsonObject.WellFormed,
    JsonObject.names])).mpr
    ⟨⟨(show IntegerInRange (-5) by decide), trivial⟩, trivial, trivial⟩

/-- A number below the least `i32` comes back as another number, and a number above the greatest `i64`
is rejected. -/
theorem numbers_lost :
    parse (JsonValue.int64 (-2147483649)).serialize = .ok (.int32 2147483647) ∧
      parse (JsonValue.unsignedInt64 9223372036854775808).serialize = .error .rejected ∧
      ¬(JsonValue.int64 (-2147483649)).RoundTrips ∧
      ¬(JsonValue.unsignedInt64 9223372036854775808).RoundTrips := by
  have hlow : parse (JsonValue.int64 (-2147483649)).serialize = .ok (.int32 2147483647) := by
    rfl
  have hhigh : parse (JsonValue.unsignedInt64 9223372036854775808).serialize = .error .rejected := by
    rw [parse_serialize (.unsignedInt64 9223372036854775808) trivial, JsonValue.reparse, reparseInteger,
      if_neg (by decide), if_neg (by unfold FitsInt64; decide)]
  refine ⟨hlow, hhigh, ?_, ?_⟩
  · rintro ⟨result, hresult, hsame⟩
    cases hresult
    revert hsame
    simp only [JsonValue.Same]
    decide
  · rintro ⟨result, hresult, -⟩
    cases hresult

end AK
