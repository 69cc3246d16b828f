import RecordIntake.Decimal.Binary64

/-!
JSON values.  An object that was read holds its fields in strictly ascending order of their names,
and a repeated field has its last value.
-/
namespace RecordIntake.Json

/-- A number is an integer, if it is written as one and lies between `-2 ^ 63` and `2 ^ 64 - 1`,
and a double otherwise. -/
inductive Value where
  | null
  | boolean (b : Bool)
  | integer (n : Int)
  | double (x : Binary64)
  | string (s : String)
  | array (items : List Value)
  | object (fields : List (String × Value))
  deriving Inhabited, Repr

abbrev Fields := List (String × Value)

/-- Writes a field at its place. -/
def Fields.insert (name : String) (v : Value) : Fields → Fields
  | [] => [(name, v)]
  | (n, w) :: rest =>
    if name < n then (name, v) :: (n, w) :: rest
    else if name = n then (name, v) :: rest
    else (n, w) :: Fields.insert name v rest

def Fields.get? (name : String) : Fields → Option Value
  | [] => none
  | (n, v) :: rest => if n = name then some v else Fields.get? name rest

/-- An object with the given fields; of two with one name the later one counts. -/
def Value.ofFields (fields : Fields) : Value :=
  .object (fields.foldl (fun acc (n, v) => Fields.insert n v acc) [])

def Value.ofNat (n : Nat) : Value := .integer (Int.ofNat n)

/-- The types that a schema tells apart. -/
inductive Kind where
  | null
  | boolean
  | number
  | string
  | array
  | object
  deriving DecidableEq, Repr

def Kind.name : Kind → String
  | .null => "null"
  | .boolean => "boolean"
  | .number => "number"
  | .string => "string"
  | .array => "array"
  | .object => "object"

def Value.kind : Value → Kind
  | .null => .null
  | .boolean _ => .boolean
  | .integer _ => .number
  | .double _ => .number
  | .string _ => .string
  | .array _ => .array
  | .object _ => .object

end RecordIntake.Json
