/-
Fjarr.Lib.Json — JSON values, read the way nlohmann::json reads them.

`value` is the accessor with a default: it gives the default when the
object lacks the key, and throws when the value is no object or the key
holds another type. A throw is an `Except.error` with the exception's text.
-/
import Mathlib

namespace Fjarr.Lib

inductive Json where
  | null
  | bool (b : Bool)
  | num (text : String)
  | str (s : String)
  | arr (items : List Json)
  | obj (fields : List (String × Json))

namespace Json

/-- `type_name()`. -/
def typeName : Json → String
  | null => "null"
  | bool _ => "boolean"
  | num _ => "number"
  | str _ => "string"
  | arr _ => "array"
  | obj _ => "object"

/-- The value of an object's key. -/
def field? : Json → String → Option Json
  | obj fields, key => fields.lookup key
  | _, _ => none

def isString : Json → Bool
  | str _ => true
  | _ => false

/-- `get<std::string>()`. -/
def getString : Json → Except String String
  | str s => .ok s
  | j => .error ("[json.exception.type_error.302] type must be string, but is " ++ j.typeName)

/-- `get<bool>()`. -/
def getBool : Json → Except String Bool
  | bool b => .ok b
  | j => .error ("[json.exception.type_error.302] type must be boolean, but is " ++ j.typeName)

/-- `value(key, default)` for any default. -/
def value (j : Json) (key : String) (default : Json) : Except String Json :=
  match j with
  | obj fields => .ok ((fields.lookup key).getD default)
  | j => .error ("[json.exception.type_error.306] cannot use value() with " ++ j.typeName)

/-- `value(key, default)` for a string. -/
def valueString (j : Json) (key default : String) : Except String String := do
  (← j.value key (str default)).getString

end Json

end Fjarr.Lib
