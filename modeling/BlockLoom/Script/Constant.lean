import BlockLoom.Script.Object
import BlockLoom.Json.Shape

/-!
Scripts that are data: strings, numbers, the words for truth values and nothing,
and arrays and objects of these. Such a script stands for a JSON value; anything
that would have to be evaluated stands for none.
-/

namespace BlockLoom.Script

def numberValue? (source : String) : Option Json :=
  match Json.parse source with
  | .ok (.number value) => some (.number value)
  | _ => none

mutual

/-- The value that an expression stands for. -/
def constant? : Tree → Option Json
  | ⟨kind, _, text, children⟩ =>
    match kind, children with
    | .string value, _ => value.map Json.string
    | .number, _ => numberValue? (String.ofList text)
    | .boolean value, _ => some (.bool value)
    | .null, _ => some .null
    | .negation, [argument] =>
      if argument.kind == .number then numberValue? ("-" ++ argument.source) else none
    | .group, [inner] => constant? inner
    | .array, items => (constants? items).map Json.array
    | .object, members => (constantMembers? members).map fun read => .object (Fields.ofEntries read)
    | _, _ => none

def constants? : List Tree → Option (List Json)
  | [] => some []
  | item :: items =>
    match constant? item, constants? items with
    | some value, some values => some (value :: values)
    | _, _ => none

/-- The keys and values of all members of an object. -/
def constantMembers? : List Tree → Option (List (String × Json))
  | [] => some []
  | ⟨kind, _, _, children⟩ :: members =>
    match kind, children with
    | .pair, [key, value] =>
      match keyName? key, constant? value, constantMembers? members with
      | some key, some value, some read => some ((key, value) :: read)
      | _, _, _ => none
    | _, _ => none

end

/-- The value of a text that is a single constant expression. -/
def literalValue? (source : String) : Option Json :=
  (readExpression? source).bind constant?

end BlockLoom.Script
