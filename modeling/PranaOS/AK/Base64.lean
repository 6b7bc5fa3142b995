import Mathlib.Data.List.GetD
import PranaOS.AK.Assertions
import PranaOS.AK.StdLibExtras

/-!
# `AK/Base64`

`encode_base64` writes three bytes as four characters of six bits each and marks the bytes that
the last group lacks with `=`; `decode_base64` looks the characters up and puts the bits together
again. Decoding gives every encoded byte string back, and the length of the encoding is what
`calculate_base64_encoded_length` says.
-/

namespace AK.Base64

open List

/-- A byte, or a character of the text. -/
abbrev Byte := BitVec 8

/-- `'='`. -/
def paddingCharacter : Byte := 61

/-- `make_alphabet`: the capitals, the small letters, the digits, `+` and `/`. -/
def makeAlphabet : List Byte :=
  (range' 65 26 ++ range' 97 26 ++ range' 48 10 ++ [43, 47]).map (BitVec.ofNat 8)

/-- `make_lookup_table`: zero, but for the characters of the alphabet, which have their index. -/
def makeLookupTable : List Byte :=
  makeAlphabet.zipIdx.foldl (fun table (character, i) => table.set character.toNat (.ofNat 8 i))
    (replicate 256 0)

/-- `calculate_base64_encoded_length`, in 32 bits. -/
def calculateBase64EncodedLength (input : List Byte) : ℕ :=
  (4 * input.length % 2 ^ 32 / 3 + 3) % 2 ^ 32 &&& not32 3

/-! ## Encoding -/

/-- The character of the alphabet for the low six bits of `index`. -/
def alphabetAt (index : Byte) : Byte := makeAlphabet.getD (index &&& 0x3f).toNat 0

/-- One pass of the loop of `encode_base64`. The bytes that the lambda `get` finds behind the end
of the input are zero, and the characters they alone decide are padding. -/
def encodeGroup (in0 : Byte) (in1 in2 : Option Byte) : List Byte :=
  [alphabetAt (in0 >>> 2),
    alphabetAt (in0 <<< 4 ||| in1.getD 0 >>> 4),
    if in1.isNone then paddingCharacter else alphabetAt (in1.getD 0 <<< 2 ||| in2.getD 0 >>> 6),
    if in2.isNone then paddingCharacter else alphabetAt (in2.getD 0)]

/-- `encode_base64`, on what the loop has not read yet. The string builder doubles its capacity,
which does not overflow for the text of fewer than `2 ^ 30` bytes. -/
def encodeBase64 : List Byte → List Byte
  | [] => []
  | in0 :: rest => encodeGroup in0 rest[0]? rest[1]? ++ encodeBase64 (rest.drop 2)
termination_by input => input.length
decreasing_by simp

/-! ## Decoding -/

/-- The lambda `get` of `decode_base64`: the six bits of a character and whether it is padding. The
table is indexed with a signed `char`, which has to be in its bounds. -/
def get : Option Byte → Option (Byte × Bool)
  | none => some (0, false)
  | some character =>
    if character = paddingCharacter then some (0, true) else do
      verify (!character.msb)
      return (makeLookupTable.getD character.toNat 0, false)

/-- One pass of the loop of `decode_base64`. -/
def decodeGroup (input : List Byte) : Option (List Byte) := do
  let (in0, _) ← get input[0]?
  let (in1, _) ← get input[1]?
  let (in2, in2IsPadding) ← get input[2]?
  let (in3, in3IsPadding) ← get input[3]?
  let out0 := in0 <<< 2 ||| (in1 >>> 4 &&& 3)
  let out1 := (in1 &&& 0xf) <<< 4 ||| (in2 >>> 2 &&& 0xf)
  let out2 := (in2 &&& 0x3) <<< 6 ||| in3
  return out0 :: ((if in2IsPadding then [] else [out1]) ++ if in3IsPadding then [] else [out2])

/-- `decode_base64`, on what the loop has not read yet; `none` where the table's `VERIFY` fails. -/
def decodeBase64 (input : List Byte) : Option (List Byte) :=
  if input = [] then some [] else do
    let output ← decodeGroup input
    return output ++ (← decodeBase64 (input.drop 4))
termination_by input.length
decreasing_by simp; grind

/-! ## The round trip -/

theorem toNat_and_lt (index : Byte) : (index &&& 0x3f).toNat < 64 :=
  BitVec.toNat_and index _ ▸ Nat.and_lt_two_pow _ (by decide : (0x3f#8).toNat < 2 ^ 6)

theorem alphabetAt_mem (index : Byte) : alphabetAt index ∈ makeAlphabet := by
  rw [alphabetAt, getD_eq_getElem _ _ (toNat_and_lt index)]
  exact getElem_mem _

/-- The table takes each character of the alphabet back to its index. -/
@[simp]
theorem get_alphabetAt (index : Byte) :
    get (some (alphabetAt index)) = some (index &&& 0x3f, false) := by
  have hall : ∀ i : Fin 64, get (some (makeAlphabet.getD i.1 0)) = some (.ofNat 8 i.1, false) := by
    decide +kernel
  simpa [alphabetAt] using hall ⟨_, toNat_and_lt index⟩

@[simp]
theorem get_paddingCharacter : get (some paddingCharacter) = some (0, true) := by
  simp [get]

/-- Each bit of three bytes is in one of the four groups of six bits. -/
theorem regroup (a b c : Byte) :
    (a >>> 2 &&& 0x3f) <<< 2 ||| ((a <<< 4 ||| b >>> 4) &&& 0x3f) >>> 4 &&& 3 = a ∧
      (((a <<< 4 ||| b >>> 4) &&& 0x3f) &&& 0xf) <<< 4 |||
        ((b <<< 2 ||| c >>> 6) &&& 0x3f) >>> 2 &&& 0xf = b ∧
      (((b <<< 2 ||| c >>> 6) &&& 0x3f) &&& 3) <<< 6 ||| c &&& 0x3f = c := by
  refine ⟨?_, ?_, ?_⟩ <;> ext i hi <;> interval_cases i <;> simp

/-- A group is decoded to the bytes it was encoded from. -/
theorem decodeBase64_encodeGroup (in0 : Byte) (rest text : List Byte) :
    decodeBase64 (encodeGroup in0 rest[0]? rest[1]? ++ text) =
      (decodeBase64 text).map (in0 :: rest.take 2 ++ ·) := by
  rw [decodeBase64, Option.map_eq_bind]
  -- the bytes that the group lacks are zero in the encoder and padding for the decoder
  have hbits := regroup in0 (rest[0]?.getD 0) (rest[1]?.getD 0)
  rcases rest with _ | ⟨in1, _ | ⟨in2, rest⟩⟩ <;>
    simp_all [decodeGroup, encodeGroup]

/-- Every input decodes to itself from its encoding. -/
theorem decodeBase64_encodeBase64 (input : List Byte) :
    decodeBase64 (encodeBase64 input) = some input := by
  fun_induction encodeBase64 with
  | case1 => simp [decodeBase64]
  | case2 in0 rest ih => simp [decodeBase64_encodeGroup, ih]

/-- Each group of three bytes, the last one perhaps incomplete, takes four characters. -/
theorem length_encodeBase64 (input : List Byte) :
    (encodeBase64 input).length = 4 * ((input.length + 2) / 3) := by
  fun_induction encodeBase64 with
  | case1 => rfl
  | case2 in0 rest ih =>
    simp only [encodeGroup, length_append, length_cons, length_nil, ih, length_drop]
    omega

/-- The length that is computed beforehand is that of the encoding while four times the length of
the input is a `size_t`. -/
theorem calculateBase64EncodedLength_eq {input : List Byte} (hlength : input.length < 2 ^ 30) :
    calculateBase64EncodedLength input = (encodeBase64 input).length := by
  rw [calculateBase64EncodedLength, length_encodeBase64]
  change _ &&& not32 (2 ^ 2 - 1) = _
  rw [and_not32_two_pow (Nat.mod_lt _ (Nat.two_pow_pos 32)) (by decide),
    Nat.mod_eq_of_lt (by omega : 4 * input.length < 2 ^ 32), Nat.mod_eq_of_lt (by omega)]
  omega

/-- Only the last two characters of the encoding can be padding. -/
theorem exists_encodeBase64_eq (input : List Byte) :
    ∃ text padding, encodeBase64 input = text ++ replicate padding paddingCharacter ∧
      padding ≤ 2 ∧ ∀ character ∈ text, character ∈ makeAlphabet := by
  fun_induction encodeBase64 with
  | case1 => exact ⟨[], 0, by simp⟩
  | case2 in0 rest ih =>
    rcases rest with _ | ⟨in1, _ | ⟨in2, rest⟩⟩
    · exact ⟨(encodeGroup in0 none none).take 2, 2, by simp [encodeGroup, encodeBase64],
        le_rfl, by simp [encodeGroup, alphabetAt_mem]⟩
    · exact ⟨(encodeGroup in0 (some in1) none).take 3, 1, by simp [encodeGroup, encodeBase64],
        by decide, by simp [encodeGroup, alphabetAt_mem]⟩
    · obtain ⟨text, padding, heq, hle, htext⟩ := ih
      refine ⟨encodeGroup in0 (some in1) (some in2) ++ text, padding, by simpa using heq, hle, ?_⟩
      simp +contextual [encodeGroup, or_imp, alphabetAt_mem, htext]

/-- Decoding inverts encoding, and the encoding has the length computed beforehand: characters of
the alphabet, with at most two `=` at the end. -/
theorem base64_correct (input : List Byte) (hlength : input.length < 2 ^ 30) :
    decodeBase64 (encodeBase64 input) = some input ∧
      (encodeBase64 input).length = calculateBase64EncodedLength input ∧
      ∃ text padding, encodeBase64 input = text ++ replicate padding paddingCharacter ∧
        padding ≤ 2 ∧ ∀ character ∈ text, character ∈ makeAlphabet :=
  ⟨decodeBase64_encodeBase64 input, (calculateBase64EncodedLength_eq hlength).symm,
    exists_encodeBase64_eq input⟩

/-- The two bytes `hi`. -/
theorem base64_correct_hi :
    decodeBase64 (encodeBase64 [104, 105]) = some [104, 105] :=
  (base64_correct [104, 105] (by decide)).1

end AK.Base64
