import Mathlib.Tactic

/-!
# `LibC/ctype.h`

The classes of characters, as the bytes that have the bit of the class in the table `_ctype_`.
-/

namespace LibC

/-- The bytes of a string, without the NUL at its end. -/
abbrev CString := List UInt8

variable (c : UInt8)

/-- `isspace`: the bytes with `_S` in the table. -/
def isspace : Bool := (9 ≤ c && c ≤ 13) || c == 32

/-- `isdigit`: the bytes with `_N`. -/
def isdigit : Bool := 48 ≤ c && c ≤ 57

/-- `islower`: the bytes with `_L`. -/
def islower : Bool := 97 ≤ c && c ≤ 122

/-- `isupper`: the bytes with `_U`. -/
def isupper : Bool := 65 ≤ c && c ≤ 90

/-- `tolower`. -/
def tolower : UInt8 := if isupper c then c ||| 0x20 else c

end LibC
