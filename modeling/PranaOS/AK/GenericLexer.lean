import PranaOS.AK.JsonParser

/-!
# Quoted strings in `AK/GenericLexer`

The lexer is the input that is left. `consume_and_unescape_string` calls `consume_quoted_string`, which
moves the lexer behind the closing quote, and then unescapes as many characters as the string has from
there on. It is right only for strings without characters and where there is no string
(`consumeAndUnescapeString_eq_iff`).
-/

namespace AK.GenericLexer

variable (escapeChar quoteChar : UInt8)

/-- `consume_escaped_character`, with the default map. -/
def consumeEscapedCharacter : List UInt8 → Option (UInt8 × List UInt8)
  | [] => none
  | c :: rest =>
    if c ≠ escapeChar then some (c, rest)
    else
      match rest with
      | [] => none
      | escaped :: rest => some (unescape escaped, rest)

/-- `is_quote`. -/
def isQuote (c : UInt8) : Bool := c = 34 ∨ c = 39

/-- The loop of `consume_quoted_string`: the characters that it passes, and what is left. -/
def quotedLoop : List UInt8 → List UInt8 × List UInt8
  | [] => ([], [])
  | c :: rest =>
    if c = escapeChar then
      match rest with
      | [] => ([c], [])
      | escaped :: rest => (quotedLoop rest).map (c :: escaped :: ·) id
    else if c = quoteChar then ([], c :: rest)
    else (quotedLoop rest).map (c :: ·) id

/-- `consume_quoted_string`. The view is `none` if it is null. -/
def consumeQuotedString (input : List UInt8) : Option (List UInt8) × List UInt8 :=
  match input with
  | [] => (none, [])
  | quoteChar :: rest =>
    if isQuote quoteChar then
      let (view, left) := quotedLoop escapeChar quoteChar rest
      if peek left ≠ quoteChar then (none, input) else (some view, left.drop 1)
    else (none, input)

/-- The loop of `consume_and_unescape_string`. -/
def unescapeTimes : ℕ → List UInt8 → List UInt8 → Option (List UInt8 × List UInt8)
  | 0, builder, input => some (builder, input)
  | n + 1, builder, input => do
    let (c, input) ← consumeEscapedCharacter escapeChar input
    unescapeTimes n (builder ++ [c]) input

/-- `consume_and_unescape_string`. The string is `none` if it is null, and there is no result if a
`VERIFY` fails. -/
def consumeAndUnescapeString (input : List UInt8) : Option (Option (List UInt8) × List UInt8) :=
  match consumeQuotedString escapeChar input with
  | (none, input) => some (none, input)
  | (some view, input) => do
    let (string, input) ← unescapeTimes escapeChar view.length [] input
    return (some string, input)

/-! ## What it should return -/

/-- What the characters up to the first quote that is not escaped stand for, and what is left behind this
quote. -/
def closed : List UInt8 → Option (List UInt8 × List UInt8)
  | [] => none
  | c :: rest =>
    if c = escapeChar then
      match rest with
      | [] => none
      | escaped :: rest => (closed rest).map (Prod.map (unescape escaped :: ·) id)
    else if c = quoteChar then some ([], rest)
    else (closed rest).map (Prod.map (c :: ·) id)

/-- The terminated string at which the lexer stands, and what is left behind it. -/
def quoted : List UInt8 → Option (List UInt8 × List UInt8)
  | [] => none
  | c :: rest => if isQuote c then closed escapeChar c rest else none

/-- The string with the lexer behind it, or null with the lexer unchanged where there is none. -/
def unescaped (input : List UInt8) : Option (List UInt8) × List UInt8 :=
  match quoted escapeChar input with
  | some (text, left) => (some text, left)
  | none => (none, input)

/-- The loop stops at the closing quote or at the end. It has passed characters iff the string has some. -/
theorem quotedLoop_spec (escapeChar quoteChar : UInt8) (list : List UInt8) :
    match closed escapeChar quoteChar list with
    | some (text, left) => (quotedLoop escapeChar quoteChar list).2 = quoteChar :: left ∧
      ((quotedLoop escapeChar quoteChar list).1 = [] ↔ text = [])
    | none => (quotedLoop escapeChar quoteChar list).2 = [] := by
  fun_induction closed with
  | case1 => rfl
  | case2 => simp [quotedLoop]
  | case3 escaped rest ih =>
    cases h : closed escapeChar quoteChar rest <;> simp_all [quotedLoop]
  | case4 rest hescape =>
    rw [quotedLoop.eq_def]
    simp [hescape]
  | case5 c rest hescape hquote ih =>
    rw [quotedLoop.eq_def]
    cases h : closed escapeChar quoteChar rest <;> simp_all

/-- Every character that is unescaped shortens the input. -/
theorem length_unescapeTimes {escapeChar : UInt8} {n : ℕ} {builder input string left : List UInt8}
    (h : unescapeTimes escapeChar n builder input = some (string, left)) :
    left.length + n ≤ input.length := by
  induction n generalizing builder input with
  | zero =>
    cases h
    exact le_rfl
  | succ n ih =>
    obtain ⟨⟨c, rest⟩, hconsume, h⟩ := Option.bind_eq_some_iff.mp h
    have hrest : rest.length + 1 ≤ input.length := by
      unfold consumeEscapedCharacter at hconsume
      split at hconsume
      · cases hconsume
      · split at hconsume
        · cases hconsume
          exact le_rfl
        · split at hconsume
          · cases hconsume
          · cases hconsume
            simp
    have := ih h
    omega

/-- **Quoted strings.** The string at which the lexer stands is returned unescaped with the lexer behind
it, and null with the lexer unchanged where there is none, iff there is none that has characters. -/
theorem consumeAndUnescapeString_eq_iff (escapeChar : UInt8) (input : List UInt8) :
    consumeAndUnescapeString escapeChar input = some (unescaped escapeChar input) ↔
      ∀ text left, quoted escapeChar input = some (text, left) → text = [] := by
  unfold consumeAndUnescapeString unescaped
  cases input with
  | nil => simp [consumeQuotedString, quoted]
  | cons c rest =>
    by_cases hquote : isQuote c = true
    · have hspec := quotedLoop_spec escapeChar c rest
      rcases hclosed : closed escapeChar c rest with - | ⟨text, left⟩
      · have hne : (0 : UInt8) ≠ c := by
          rintro rfl
          exact absurd hquote (by decide)
        rw [hclosed] at hspec
        simp [consumeQuotedString, quoted, hclosed, hspec, peek, hne]
      · rw [hclosed] at hspec
        obtain ⟨hleft, hempty⟩ := hspec
        have hconsume : consumeQuotedString escapeChar (c :: rest) =
            (some (quotedLoop escapeChar c rest).1, left) := by
          simp [consumeQuotedString, hquote, hleft, peek]
        have hquoted : quoted escapeChar (c :: rest) = some (text, left) := by
          rw [quoted, if_pos hquote, hclosed]
        simp only [hconsume, hquoted]
        constructor
        · intro h text' left' heq
          obtain ⟨⟨string, after⟩, htimes, hresult⟩ := Option.bind_eq_some_iff.mp h
          obtain ⟨rfl, rfl⟩ : string = text ∧ after = left := by simpa using hresult
          cases heq
          have hlength := length_unescapeTimes htimes
          exact hempty.mp (List.length_eq_zero_iff.mp (by omega))
        · intro h
          obtain rfl := h text left rfl
          rw [hempty.mpr rfl]
          rfl
    · simp [consumeQuotedString, quoted, hquote]

/-- Of the string `'a'`, the character behind the closing quote is returned, and at the end of the input
a `VERIFY` fails. -/
theorem consumeAndUnescapeString_misses :
    consumeAndUnescapeString 92 [39, 97, 39, 98] = some (some [98], []) ∧
      unescaped 92 [39, 97, 39, 98] = (some [97], [98]) ∧
      consumeAndUnescapeString 92 [39, 97, 39] = none := by
  decide

end AK.GenericLexer
