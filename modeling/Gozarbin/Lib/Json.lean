import Gozarbin.Lib.Text

/-! # JSON values

What a parser makes of a document. Numbers without fraction and exponent are kept
apart from the others, as parsers do.
-/

namespace Gozarbin

inductive Json where
  | null
  | bool (value : Bool)
  | int (value : Int)
  | double (value : Rat)
  | string (value : Text)
  | array (items : List Json)
  | object (fields : List (Text × Json))

namespace Json

def get (name : Text) : Json → Option Json
  | .object fields => fields.lookup name
  | _ => none

def isBoolean : Json → Bool
  | .bool _ => true
  | _ => false

def asArray : Json → Option (List Json)
  | .array items => some items
  | _ => none

def asStr : Json → Option Text
  | .string value => some value
  | _ => none

def asInt : Json → Option Int
  | .int value => some value
  | _ => none

def asI64 : Json → Option Int
  | .int value =>
    if -9223372036854775808 ≤ value ∧ value < 9223372036854775808 then some value else none
  | _ => none

theorem eq_int_of_asInt {json : Json} {value : Int} (eq : json.asInt = some value) :
    json = .int value := by
  cases json <;> simp_all [asInt]

theorem eq_string_of_asStr {json : Json} {value : Text} (eq : json.asStr = some value) :
    json = .string value := by
  cases json <;> simp_all [asStr]

theorem eq_array_of_asArray {json : Json} {items : List Json} (eq : json.asArray = some items) :
    json = .array items := by
  cases json <;> simp_all [asArray]

end Json

end Gozarbin
