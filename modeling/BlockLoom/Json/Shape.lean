import BlockLoom.Json.Reader

/-!
Shapes describe the data that is accepted somewhere: free data, text, one of a
few names, lists, maps, and records with named fields. The same description
serves two readers: `Shape.read` takes JSON text and `Shape.fit` takes a value
that has been read before. Both give the data in a normal form, in which a
record is an object with its known fields only, absent fields left out.

A record may also be written as a list of its fields in order.
-/

namespace BlockLoom.Json

/-- The data accepted at some place. Records are named and looked up in a schema. -/
inductive Shape where
  | any
  | string
  | choice (name : String) (options : List String)
  | list (item : Shape)
  | map (value : Shape)
  | record (name : String)
  deriving DecidableEq, Repr, Inhabited

/-- Whether a field must be there. An `optional` field is also absent when it is
`null`; a `defaulted` field is not. -/
inductive Presence where
  | required
  | defaulted
  | optional
  deriving DecidableEq, Repr

structure Field where
  name : String
  shape : Shape
  presence : Presence
  deriving DecidableEq, Repr

/-- A record. An open record keeps members that are none of its fields as they
are, and is never written as a list; any other record drops them. -/
structure Record where
  name : String
  fields : List Field
  isOpen : Bool := false
  deriving DecidableEq, Repr, Inhabited

abbrev Schema := List Record

namespace Schema

def record (schema : Schema) (name : String) : Record :=
  (schema.find? fun record => record.name == name).getD ⟨name, [], false⟩

end Schema

namespace Record

/-- The record as an expected kind. -/
def expected (record : Record) : String :=
  "struct " ++ record.name

def expectedItems (record : Record) : String :=
  record.expected ++ " with " ++ toString record.fields.length ++
    (if record.fields.length = 1 then " element" else " elements")

def field? (record : Record) (name : String) : Option Field :=
  record.fields.find? fun field => field.name == name

/-- The normal form of the members read for a record: its fields in order, then
for an open record all others in the order in which they were read. -/
def normal (record : Record) (read : Fields Json) : Json :=
  let known := record.fields.filterMap fun field =>
    (Fields.get? read field.name).map fun value => (field.name, value)
  let others := read.filter fun entry => (record.field? entry.1).isNone
  .object (if record.isOpen then known ++ others else known)

/-- The first required field that has not been read. -/
def missing? (record : Record) (seen : List String) : Option String :=
  (record.fields.find? fun field => field.presence = .required && !seen.contains field.name).map
    Field.name

end Record

/-! ## Values that were read before -/

def Shape.expected (schema : Schema) : Shape → String
  | .any => "any valid JSON value"
  | .string => "a string"
  | .choice name _ => "enum " ++ name
  | .list _ => "a sequence"
  | .map _ => "a map"
  | .record name => (schema.record name).expected

mutual

/-- The normal form of a value that has the given shape. -/
def Shape.fit (schema : Schema) (shape : Shape) (value : Json) : Except Problem Json :=
  match shape, value with
  | .any, value => .ok value
  | .string, .string text => .ok (.string text)
  | .choice _ options, .string text =>
    if options.contains text then .ok (.string text) else .error (.unknownOption text options)
  | .list item, .array items =>
    match fitItems schema item items with
    | .ok items => .ok (.array items)
    | .error problem => .error problem
  | .map shape, .object members =>
    match fitMembers schema (fun _ => some ⟨"", shape, .required⟩) members with
    | .ok read => .ok (.object (Fields.ofEntries read))
    | .error problem => .error problem
  | .record name, .object members =>
    let record := schema.record name
    let field (key : String) : Option Field :=
      (record.field? key).or (if record.isOpen then some ⟨key, .any, .defaulted⟩ else none)
    match fitMembers schema field members with
    | .error problem => .error problem
    | .ok read =>
      match record.missing? (members.map Prod.fst) with
      | some name => .error (.missingField name)
      | none => .ok (record.normal (Fields.ofEntries read))
  | .record name, .array items =>
    let record := schema.record name
    if record.isOpen then .error (.wrongKind .sequence record.expected)
    else
      match fitFields schema record 0 record.fields items with
      | .error problem => .error problem
      | .ok read =>
        if items.length > record.fields.length then
          .error (.wrongCount items.length "fewer elements in array")
        else .ok (record.normal read)
  | .choice _ _, value => .error (.wrongKind value.found "string or map")
  | shape, value => .error (.wrongKind value.found (shape.expected schema))

def fitItems (schema : Schema) (shape : Shape) : List Json → Except Problem (List Json)
  | [] => .ok []
  | item :: items =>
    match shape.fit schema item with
    | .error problem => .error problem
    | .ok item =>
      match fitItems schema shape items with
      | .error problem => .error problem
      | .ok items => .ok (item :: items)

/-- The members of an object. Members without a field are dropped, and so is an
optional field that is `null`. -/
def fitMembers (schema : Schema) (field : String → Option Field) :
    List (String × Json) → Except Problem (List (String × Json))
  | [] => .ok []
  | (key, value) :: members =>
    match field key with
    | none => fitMembers schema field members
    | some found =>
      if found.presence = .optional && value.isNull then fitMembers schema field members
      else
        match found.shape.fit schema value with
        | .error problem => .error problem
        | .ok value =>
          match fitMembers schema field members with
          | .error problem => .error problem
          | .ok members => .ok ((key, value) :: members)

def fitFields (schema : Schema) (record : Record) (position : Nat) (fields : List Field)
    (items : List Json) : Except Problem (List (String × Json)) :=
  match fields, items with
  | [], _ => .ok []
  | field :: fields, [] =>
    match (field :: fields).findIdx? fun field => field.presence = .required with
    | some distance => .error (.wrongCount (position + distance) record.expectedItems)
    | none => .ok []
  | field :: fields, item :: items =>
    if field.presence = .optional && item.isNull then
      fitFields schema record (position + 1) fields items
    else
      match field.shape.fit schema item with
      | .error problem => .error problem
      | .ok value =>
        match fitFields schema record (position + 1) fields items with
        | .error problem => .error problem
        | .ok read => .ok ((field.name, value) :: read)

end

/-! ## Text -/

/-- A problem of the data, placed once the reader knows where it is. -/
inductive Refusal where
  | placed (fault : Fault)
  | unplaced (problem : Problem) (unread : List Char)

abbrev Outcome (α : Type) := Except Refusal (α × List Char)

def closeList (text : List Char) : Except Fault (List Char) × List Char :=
  match skipBlank text with
  | ']' :: rest => (.ok rest, rest)
  | ',' :: rest =>
    match skipBlank rest with
    | ']' :: after => (refuseNext .trailingComma (']' :: after), ']' :: after)
    | other => (refuseNext .trailingCharacters other, other)
  | [] => (refuseNext .listUnfinished [], [])
  | other => (refuseNext .trailingCharacters other, other)

def closeObject (text : List Char) : Except Fault (List Char) × List Char :=
  match skipBlank text with
  | '\x7d' :: rest => (.ok rest, rest)
  | ',' :: rest => (refuseNext .trailingComma (',' :: rest), ',' :: rest)
  | [] => (refuseNext .objectUnfinished [], [])
  | other => (refuseNext .trailingCharacters other, other)

/-- Ends a container: a problem of the data that has no place yet is placed where
the closing bracket was looked for. -/
def close {α : Type} (closing : List Char → Except Fault (List Char) × List Char) :
    Outcome α → Reading α
  | .ok (value, text) =>
    match (closing text).1 with
    | .ok rest => .ok (value, rest)
    | .error fault => .error fault
  | .error (.placed fault) => .error fault
  | .error (.unplaced problem unread) => .error ⟨problem, (closing unread).2, 0⟩

def nextItem (first : Bool) (text : List Char) : Except Fault (Option (List Char)) :=
  match skipBlank text with
  | [] => refuseNext .listUnfinished []
  | ']' :: _ => .ok none
  | c :: rest =>
    if first then .ok (some (c :: rest))
    else if c = ',' then
      match skipBlank rest with
      | [] => refuseNext .valueUnfinished []
      | ']' :: after => refuseNext .trailingComma (']' :: after)
      | item => .ok (some item)
    else refuseNext .listSeparatorExpected (c :: rest)

/-- The next key of an object and the text after it, or nothing at the closing brace. -/
def nextKey (first : Bool) (text : List Char) : Except Fault (Option (String × List Char)) :=
  let key (rest : List Char) : Except Fault (Option (String × List Char)) :=
    match readString rest with
    | .ok read => .ok (some read)
    | .error fault => .error fault
  match skipBlank text with
  | [] => refuseNext .objectUnfinished []
  | '\x7d' :: _ => .ok none
  | c :: rest =>
    if first then
      if c = '"' then key rest else refuseNext .keyNotString (c :: rest)
    else if c = ',' then
      match skipBlank rest with
      | '"' :: after => key after
      | '\x7d' :: after => refuseNext .trailingComma ('\x7d' :: after)
      | [] => refuseNext .valueUnfinished []
      | other => refuseNext .keyNotString other
    else refuseNext .objectSeparatorExpected (c :: rest)

def readColon (text : List Char) : Except Fault (List Char) :=
  match skipBlank text with
  | ':' :: rest => .ok rest
  | [] => refuseNext .objectUnfinished []
  | other => refuseNext .colonExpected other

/-- The value after the colon that follows a key. -/
def readMember (read : List Char → Reading Json) (text : List Char) : Reading Json :=
  match readColon text with
  | .ok rest => read rest
  | .error fault => .error fault

/-- The fault of a value of the wrong kind. Scalars are read to the end first. -/
def refuseKind {α : Type} (expected : String) (text : List Char) : Reading α :=
  let wrong (found : Found) (unread : List Char) : Reading α :=
    refuse (.wrongKind found expected) unread
  let number : Reading Number → Reading α
    | .ok (value, unread) => wrong (.number value) unread
    | .error fault => .error fault
  let word (found : Found) : Except Fault (List Char) → Reading α
    | .ok unread => wrong found unread
    | .error fault => .error fault
  match text with
  | [] => refuseNext .valueExpected []
  | 'n' :: rest => word .null (readWord "ull".toList rest)
  | 't' :: rest => word (.bool true) (readWord "rue".toList rest)
  | 'f' :: rest => word (.bool false) (readWord "alse".toList rest)
  | '-' :: rest => number (readNumber false rest)
  | '"' :: rest =>
    match readString rest with
    | .ok (value, unread) => wrong (.string value) unread
    | .error fault => .error fault
  | '[' :: rest => wrong .sequence ('[' :: rest)
  | '\x7b' :: rest => wrong .map ('\x7b' :: rest)
  | c :: rest =>
    if c.isDigit then number (readNumber true (c :: rest)) else refuseNext .valueExpected (c :: rest)

def readItems (read : List Char → Reading Json) :
    Nat → Bool → List Char → Outcome (List Json)
  | 0, _, text => .error (.unplaced .tooDeep text)
  | fuel + 1, first, text =>
    match nextItem first text with
    | .error fault => .error (.placed fault)
    | .ok none => .ok ([], text)
    | .ok (some item) =>
      match read item with
      | .error fault => .error (.placed fault)
      | .ok (value, rest) =>
        match readItems read fuel false rest with
        | .ok (values, rest) => .ok (value :: values, rest)
        | .error refusal => .error refusal

/-- The members of an object up to its closing brace, in the order of the text. -/
def readMembers (read : List Char → Reading Json) :
    Nat → Bool → List Char → Outcome (List (String × Json))
  | 0, _, text => .error (.unplaced .tooDeep text)
  | fuel + 1, first, text =>
    match nextKey first text with
    | .error fault => .error (.placed fault)
    | .ok none => .ok ([], text)
    | .ok (some (key, rest)) =>
      match readMember read rest with
      | .error fault => .error (.placed fault)
      | .ok (value, rest) =>
        match readMembers read fuel false rest with
        | .ok (members, rest) => .ok ((key, value) :: members, rest)
        | .error refusal => .error refusal

/-- The value of a field: nothing for an optional field that is `null`. -/
def readField (read : Shape → List Char → Reading Json) (field : Field) (text : List Char) :
    Reading (Option Json) :=
  let value (_ : Unit) : Reading (Option Json) :=
    match read field.shape text with
    | .ok (value, rest) => .ok (some value, rest)
    | .error fault => .error fault
  match skipBlank text with
  | 'n' :: rest =>
    if field.presence = .optional then
      match readWord "ull".toList rest with
      | .ok rest => .ok (none, rest)
      | .error fault => .error fault
    else value ()
  | _ => value ()

/-- The fields of a record up to the closing brace. `seen` are the names read so
far; a second value for one of them is refused before it is looked at. -/
def readFields (read : Shape → List Char → Reading Json) (record : Record) :
    Nat → Bool → List String → List Char → Outcome (List (String × Json))
  | 0, _, _, text => .error (.unplaced .tooDeep text)
  | fuel + 1, first, seen, text =>
    match nextKey first text with
    | .error fault => .error (.placed fault)
    | .ok none =>
      match record.missing? seen with
      | some name => .error (.unplaced (.missingField name) text)
      | none => .ok ([], text)
    | .ok (some (key, rest)) =>
      match record.field? key with
      | some field =>
        if seen.contains key then .error (.unplaced (.duplicateField key) rest)
        else
          match readColon rest with
          | .error fault => .error (.placed fault)
          | .ok rest =>
            match readField read field rest with
            | .error fault => .error (.placed fault)
            | .ok (value, rest) =>
              match readFields read record fuel false (key :: seen) rest with
              | .error refusal => .error refusal
              | .ok (members, rest) =>
                .ok ((value.map fun value => (key, value)).toList ++ members, rest)
      | none =>
        if record.isOpen then
          match readMember (read .any) rest with
          | .error fault => .error (.placed fault)
          | .ok (value, rest) =>
            match readFields read record fuel false seen rest with
            | .error refusal => .error refusal
            | .ok (members, rest) => .ok ((key, value) :: members, rest)
        else
          match readColon rest with
          | .error fault => .error (.placed fault)
          | .ok rest =>
            match skipValue rest with
            | .error fault => .error (.placed fault)
            | .ok rest => readFields read record fuel false seen rest

def readListed (read : Shape → List Char → Reading Json) (record : Record) :
    Nat → Bool → List Field → List Char → Outcome (List (String × Json))
  | _, _, [], text => .ok ([], text)
  | position, first, field :: fields, text =>
    match nextItem first text with
    | .error fault => .error (.placed fault)
    | .ok none =>
      match (field :: fields).findIdx? fun field => field.presence = .required with
      | some distance =>
        .error (.unplaced (.wrongCount (position + distance) record.expectedItems) text)
      | none => .ok ([], text)
    | .ok (some item) =>
      match readField read field item with
      | .error fault => .error (.placed fault)
      | .ok (value, rest) =>
        match readListed read record (position + 1) false fields rest with
        | .error refusal => .error refusal
        | .ok (members, rest) =>
          .ok ((value.map fun value => (field.name, value)).toList ++ members, rest)

def Reading.map {α β : Type} (convert : α → β) : Reading α → Reading β
  | .ok (value, rest) => .ok (convert value, rest)
  | .error fault => .error fault

def readOption (options : List String) (text : List Char) : Reading String :=
  match readString text with
  | .error fault => .error fault
  | .ok (name, rest) =>
    if options.contains name then .ok (name, rest) else refuse (.unknownOption name options) rest

/-- A name written as the only key of an object whose value is `null`. -/
def readKeyedOption (options : List String) (text : List Char) : Reading String :=
  let opening : Except Fault (List Char) :=
    match skipBlank text with
    | '"' :: rest => .ok rest
    | [] => refuseNext .valueUnfinished []
    | other =>
      match (refuseKind "variant identifier" other : Reading Unit) with
      | .ok (_, rest) => .ok rest
      | .error fault => .error fault
  match opening with
  | .error fault => .error fault
  | .ok rest =>
    match readOption options rest with
    | .error fault => .error fault
    | .ok (name, rest) =>
      match readColon rest with
      | .error fault => .error fault
      | .ok rest =>
        match skipBlank rest with
        | [] => refuseNext .valueUnfinished []
        | 'n' :: rest =>
          match readWord "ull".toList rest with
          | .error fault => .error fault
          | .ok rest =>
            match skipBlank rest with
            | '\x7d' :: rest => .ok (name, rest)
            | [] => refuse .objectUnfinished []
            | other => refuse .valueExpected other
        | other => refuseKind "unit" other

/-- Free data: any value, with the given reader for what lies deeper. -/
def readAny (deeper : Option (List Char → Reading Json)) (text : List Char) : Reading Json :=
  let word (value : Json) : Except Fault (List Char) → Reading Json
    | .ok rest => .ok (value, rest)
    | .error fault => .error fault
  match text with
  | [] => refuseNext .valueUnfinished []
  | 'n' :: rest => word .null (readWord "ull".toList rest)
  | 't' :: rest => word (.bool true) (readWord "rue".toList rest)
  | 'f' :: rest => word (.bool false) (readWord "alse".toList rest)
  | '-' :: rest => (readNumber false rest).map .number
  | '"' :: rest => (readString rest).map .string
  | '[' :: rest =>
    match deeper with
    | none => refuseNext .tooDeep ('[' :: rest)
    | some read => (close closeList (readItems read rest.length.succ true rest)).map .array
  | '\x7b' :: rest =>
    match deeper with
    | none => refuseNext .tooDeep ('\x7b' :: rest)
    | some read =>
      (close closeObject (readMembers read rest.length.succ true rest)).map fun members =>
        .object (Fields.ofEntries members)
  | c :: rest =>
    if c.isDigit then (readNumber true (c :: rest)).map .number
    else refuseNext .valueExpected (c :: rest)

/-- Reads a value of the given shape, with the given reader for what lies inside it. A record may be
written as an object or as a list of its fields in order. -/
def Shape.readWith (schema : Schema) (deeper : Option (Shape → List Char → Reading Json))
    (shape : Shape) (text : List Char) : Reading Json :=
  let inside (text : List Char)
      (read : (Shape → List Char → Reading Json) → Reading Json) : Reading Json :=
    match deeper with
    | none => refuseNext .tooDeep text
    | some deeper => read deeper
  match skipBlank text with
  | [] => refuseNext .valueUnfinished []
  | c :: rest =>
    match shape with
    | .any => readAny (deeper.map fun read => read .any) (c :: rest)
    | .string =>
      if c = '"' then (readString rest).map .string
      else refuseKind (shape.expected schema) (c :: rest)
    | .choice _ options =>
      if c = '"' then (readOption options rest).map .string
      else if c = '\x7b' then
        inside (c :: rest) fun _ => (readKeyedOption options rest).map .string
      else refuseNext .valueExpected (c :: rest)
    | .list item =>
      if c = '[' then
        inside (c :: rest) fun read =>
          (close closeList (readItems (read item) rest.length.succ true rest)).map .array
      else refuseKind (shape.expected schema) (c :: rest)
    | .map value =>
      if c = '\x7b' then
        inside (c :: rest) fun read =>
          (close closeObject (readMembers (read value) rest.length.succ true rest)).map
            fun members => .object (Fields.ofEntries members)
      else refuseKind (shape.expected schema) (c :: rest)
    | .record name =>
      let record := schema.record name
      if c = '\x7b' then
        inside (c :: rest) fun read =>
          (close closeObject (readFields read record rest.length.succ true [] rest)).map
            fun members => record.normal (Fields.ofEntries members)
      else if c = '[' && !record.isOpen then
        inside (c :: rest) fun read =>
          (close closeList (readListed read record 0 true record.fields rest)).map
            record.normal
      else refuseKind (shape.expected schema) (c :: rest)

/-- Reads a value of the given shape. The number is how many containers may still be
opened around one another. -/
def Shape.read (schema : Schema) : Nat → Shape → List Char → Reading Json
  | 0 => Shape.readWith schema none
  | depth + 1 => Shape.readWith schema (some (Shape.read schema depth))

/-- How deeply containers may be nested in a text. -/
def maxDepth : Nat := 127

/-- Reads a text that holds one value of the given shape and nothing else. -/
def Shape.parse (schema : Schema) (shape : Shape) (source : String) : Except String Json :=
  let text := source.toList
  match shape.read schema maxDepth text with
  | .error fault => .error (fault.describe text)
  | .ok (value, rest) =>
    match skipBlank rest with
    | [] => .ok value
    | other => .error (Fault.describe text ⟨.trailingCharacters, other, 1⟩)

/-- Reads a text that holds one JSON value and nothing else. -/
def parse (source : String) : Except String Json :=
  Shape.any.parse [] source

end BlockLoom.Json
