import BlockLoom.Fields
import BlockLoom.Json.Number

/-!
JSON data. Objects keep the order in which their members were written.
-/

namespace BlockLoom

inductive Json where
  | null
  | bool (value : Bool)
  | number (value : Json.Number)
  | string (value : String)
  | array (items : List Json)
  | object (members : List (String × Json))
  deriving Inhabited

namespace Json

def string? : Json → Option String
  | .string value => some value
  | _ => none

def items? : Json → Option (List Json)
  | .array items => some items
  | _ => none

def members? : Json → Option (Fields Json)
  | .object members => some members
  | _ => none

/-- The member of an object under `key`; nothing for any other value. -/
def get? (value : Json) (key : String) : Option Json :=
  value.members?.bind fun members => Fields.get? members key

def textAt? (value : Json) (key : String) : Option String :=
  (value.get? key).bind string?

/-- The text of a member, empty if it has none. -/
def textAt (value : Json) (key : String) : String :=
  (value.textAt? key).getD ""

def membersAt (value : Json) (key : String) : Fields Json :=
  ((value.get? key).bind members?).getD []

/-- The items of a member, none if it is no array. -/
def itemsAt (value : Json) (key : String) : List Json :=
  ((value.get? key).bind items?).getD []

def isNull : Json → Bool
  | .null => true
  | _ => false

def isString : Json → Bool
  | .string _ => true
  | _ => false

def isNumber : Json → Bool
  | .number _ => true
  | _ => false

def optionalMember (key : String) (value : Option Json) : List (String × Json) :=
  match value with
  | some value => [(key, value)]
  | none => []

def ofInt (value : Int) : Json :=
  .number (.integer value)

mutual

/-- Whether two values are the same data; the order of members does not count. -/
def same : Json → Json → Bool
  | .null, .null => true
  | .bool left, .bool right => left == right
  | .number left, .number right => left.same right
  | .string left, .string right => left == right
  | .array left, .array right => sameItems left right
  | .object left, .object right => left.length == right.length && sameMembers left right
  | _, _ => false

def sameItems : List Json → List Json → Bool
  | [], [] => true
  | left :: lefts, right :: rights => same left right && sameItems lefts rights
  | _, _ => false

def sameMembers : List (String × Json) → List (String × Json) → Bool
  | [], _ => true
  | (key, value) :: rest, all =>
    (match Fields.get? all key with
      | some other => same value other
      | none => false) && sameMembers rest all

end

end Json

end BlockLoom
