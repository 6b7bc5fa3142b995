import PranaOS.ToMathlib.Digits

/-!
# `AK/JsonValue`, `AK/JsonArray`, `AK/JsonObject`

JSON values, without those of type `Double`, and their serialization. An object is the list of its
members in the order of `m_order`; `set` keeps the names of its members distinct.
-/

namespace AK

open Digits

mutual

/-- `JsonValue`. -/
inductive JsonValue where
  | null
  | int32 (value : Int32)
  | unsignedInt32 (value : UInt32)
  | int64 (value : Int64)
  | unsignedInt64 (value : UInt64)
  | bool (value : Bool)
  | string (value : List UInt8)
  | array (value : JsonArray)
  | object (value : JsonObject)

/-- `JsonArray`. -/
inductive JsonArray where
  | nil
  | cons (value : JsonValue) (rest : JsonArray)

/-- `JsonObject`. -/
inductive JsonObject where
  | nil
  | cons (name : List UInt8) (value : JsonValue) (rest : JsonObject)

end

/-- `JsonArray::append`. -/
def JsonArray.append : JsonArray → JsonValue → JsonArray
  | .nil, value => .cons value .nil
  | .cons first rest, value => .cons first (rest.append value)

namespace JsonObject

/-- `m_order`. -/
def names : JsonObject → List (List UInt8)
  | .nil => []
  | .cons name _ rest => name :: rest.names

/-- A member at the end. -/
def append : JsonObject → List UInt8 → JsonValue → JsonObject
  | .nil, name, value => .cons name value .nil
  | .cons first value' rest, name, value => .cons first value' (rest.append name value)

/-- `remove`. -/
def remove : JsonObject → List UInt8 → JsonObject
  | .nil, _ => .nil
  | .cons first value rest, name => if first = name then rest else .cons first value (rest.remove name)

/-- `set`: a member that is replaced moves to the end. -/
def set (self : JsonObject) (name : List UInt8) (value : JsonValue) : JsonObject :=
  (self.remove name).append name value

end JsonObject

/-! ## Serialization -/

/-- `StringBuilder::append_escaped_for_json`, for a character. -/
def escapeForJson (ch : UInt8) : List UInt8 :=
  if ch = 27 then [92, 117, 48, 48, 49, 66]
  else if ch = 8 then [92, 98]
  else if ch = 10 then [92, 110]
  else if ch = 9 then [92, 116]
  else if ch = 34 then [92, 34]
  else if ch = 92 then [92, 92]
  else [ch]

/-- `StringBuilder::append_escaped_for_json`. -/
def appendEscapedForJson (string : List UInt8) : List UInt8 := string.flatMap escapeForJson

/-- A string between quotes. -/
def quoted (string : List UInt8) : List UInt8 := 34 :: appendEscapedForJson string ++ [34]

/-- A number in the format `{}`. -/
def formatInteger (value : ℤ) : List UInt8 :=
  if value < 0 then 45 :: decimal value.natAbs else decimal value.natAbs

/-- `begin_item` of the serializers: a comma, unless the item is the first one. -/
def beginItem (empty : Bool) : List UInt8 := if empty then [] else [44]

mutual

/-- `JsonValue::serialize`. -/
def JsonValue.serialize : JsonValue → List UInt8
  | .string value => quoted value
  | .array value => 91 :: value.serializeItems true ++ [93]
  | .object value => 123 :: value.serializeItems true ++ [125]
  | .bool true => [116, 114, 117, 101]
  | .bool false => [102, 97, 108, 115, 101]
  | .int32 value => formatInteger value.toInt
  | .int64 value => formatInteger value.toInt
  | .unsignedInt32 value => formatInteger value.toNat
  | .unsignedInt64 value => formatInteger value.toNat
  | .null => [110, 117, 108, 108]

/-- `JsonArray::serialize`, between the brackets. -/
def JsonArray.serializeItems : JsonArray → Bool → List UInt8
  | .nil, _ => []
  | .cons value rest, empty => beginItem empty ++ value.serialize ++ rest.serializeItems false

/-- `JsonObject::serialize`, between the braces. -/
def JsonObject.serializeItems : JsonObject → Bool → List UInt8
  | .nil, _ => []
  | .cons name value rest, empty =>
    beginItem empty ++ quoted name ++ 58 :: value.serialize ++ rest.serializeItems false

end

/-! ## Values with the same meaning -/

/-- The value of a number. -/
def JsonValue.integer : JsonValue → Option ℤ
  | .int32 value => some value.toInt
  | .int64 value => some value.toInt
  | .unsignedInt32 value => some value.toNat
  | .unsignedInt64 value => some value.toNat
  | _ => none

mutual

/-- The values have the same structure, strings and numbers. -/
def JsonValue.Same : JsonValue → JsonValue → Prop
  | .null, .null => True
  | .bool value, .bool value' => value = value'
  | .string value, .string value' => value = value'
  | .array value, .array value' => value.Same value'
  | .object value, .object value' => value.Same value'
  | .int32 value, other => other.integer = some value.toInt
  | .int64 value, other => other.integer = some value.toInt
  | .unsignedInt32 value, other => other.integer = some (value.toNat : ℤ)
  | .unsignedInt64 value, other => other.integer = some (value.toNat : ℤ)
  | _, _ => False

/-- The same for arrays. -/
def JsonArray.Same : JsonArray → JsonArray → Prop
  | .nil, .nil => True
  | .cons value rest, .cons value' rest' => value.Same value' ∧ rest.Same rest'
  | _, _ => False

/-- The same for objects. -/
def JsonObject.Same : JsonObject → JsonObject → Prop
  | .nil, .nil => True
  | .cons name value rest, .cons name' value' rest' =>
    name = name' ∧ value.Same value' ∧ rest.Same rest'
  | _, _ => False

end

mutual

/-- The names of the members of every object are distinct. -/
def JsonValue.WellFormed : JsonValue → Prop
  | .array value => value.WellFormed
  | .object value => value.names.Nodup ∧ value.WellFormed
  | _ => True

/-- The same for the values of an array. -/
def JsonArray.WellFormed : JsonArray → Prop
  | .nil => True
  | .cons value rest => value.WellFormed ∧ rest.WellFormed

/-- The same for the values of an object. -/
def JsonObject.WellFormed : JsonObject → Prop
  | .nil => True
  | .cons _ value rest => value.WellFormed ∧ rest.WellFormed

end

namespace JsonObject

theorem names_append (self : JsonObject) (name : List UInt8) (value : JsonValue) :
    (self.append name value).names = self.names ++ [name] := by
  match self with
  | .nil => rfl
  | .cons first value' rest =>
    rw [append, names, names, names_append rest, List.cons_append]

theorem remove_of_notMem {self : JsonObject} {name : List UInt8} (h : name ∉ self.names) :
    self.remove name = self := by
  match self with
  | .nil => rfl
  | .cons first value rest =>
    rw [names, List.mem_cons, not_or] at h
    rw [remove, if_neg fun heq => h.1 heq.symm, remove_of_notMem h.2]

end JsonObject

end AK
