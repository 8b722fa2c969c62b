import BlockLoom.Fields

/-!
The arguments of the program: options with two dashes or one, options with
values, a command, and what the command needs. A command may be asked for help
at any place before the first mistake.
-/

namespace BlockLoom.CommandLine

inductive Topic where
  | program
  | convert
  deriving DecidableEq, Repr

/-- What is wrong with arguments that cannot be understood. Options and what is missing are told
by their names, all else as it was given. -/
inductive Mistake where
  /-- No argument says what to do. -/
  | nothing
  | unknown (argument : String)
  | unknownCommand (argument : String)
  | unexpectedValue (option value : String)
  | noValue (option : String)
  | repeated (option : String)
  | missing (names : List String)
  deriving DecidableEq, Repr

/-- Why arguments ask for nothing to be done. -/
inductive Stop where
  | misuse (mistake : Mistake)
  | help (topic : Topic) (long : Bool)
  | version
  deriving DecidableEq, Repr

/-- An option: its name, a letter that stands for it, and whether it takes a value. -/
structure Flag where
  name : String
  letter : Option Char := none
  valued : Bool
  deriving DecidableEq, Repr

structure Level where
  topic : Topic
  flags : List Flag
  /-- How many arguments may stand without an option. -/
  positions : Nat
  commands : List String
  hasVersion : Bool

/-- Options of the program, which may also follow the command. -/
def sharedFlags : List Flag :=
  [⟨"list-formats", none, false⟩, ⟨"config", none, true⟩]

def programLevel : Level := ⟨.program, sharedFlags, 0, ["convert", "help"], true⟩

def convertLevel : Level where
  topic := .convert
  flags :=
    [⟨"from", none, true⟩, ⟨"to", none, true⟩, ⟨"output", some 'o', true⟩] ++ sharedFlags
  positions := 1
  commands := []
  hasVersion := false

structure Read where
  values : Fields String := []
  positions : List String := []
  /-- The command that follows, with the arguments after it. -/
  command : Option (String × List String) := none
  deriving Inhabited

namespace Read

/-- Stores the value of an option, which may be given once only. -/
def store (read : Read) (name value : String) : Except Stop Read :=
  if Fields.has read.values name then .error (.misuse (.repeated name))
  else .ok { read with values := Fields.put read.values name value }

/-- Stores an argument without an option, if there is a place for it. Where commands may stand,
any other argument is taken for one. -/
def storePosition (level : Level) (read : Read) (argument : String) : Except Stop Read :=
  if read.positions.length < level.positions then
    .ok { read with positions := read.positions ++ [argument] }
  else if level.commands.isEmpty then .error (.misuse (.unknown argument))
  else .error (.misuse (.unknownCommand argument))

end Read

inductive Part where
  /-- The end of all options. -/
  | stop
  | flag (name : String)
  | flagWithValue (name value : String)
  /-- An option that takes the next argument as its value. -/
  | flagBeforeValue (name : String)
  | plain
  | asks (stop : Stop)

/-- Splits at the first equals sign. -/
def splitValue (text : List Char) : List Char × Option (List Char) :=
  (text.takeWhile (· ≠ '='),
    match text.dropWhile (· ≠ '=') with
    | _ :: value => some value
    | [] => none)

def longPart (level : Level) (text : List Char) : Part :=
  let (name, value) := splitValue text
  let name := String.ofList name
  match level.flags.find? fun flag => flag.name = name with
  | some flag =>
    match flag.valued, value with
    | true, some value => .flagWithValue name (String.ofList value)
    | true, none => .flagBeforeValue name
    | false, some value => .asks (.misuse (.unexpectedValue name (String.ofList value)))
    | false, none => .flag name
  | none =>
    if value.isSome then .asks (.misuse (.unknown ("--" ++ name)))
    else if name = "help" then .asks (.help level.topic true)
    else if name = "version" ∧ level.hasVersion then .asks .version
    else .asks (.misuse (.unknown ("--" ++ name)))

/-- An argument with one dash: letters, of which the first decides. -/
def shortPart (level : Level) (letter : Char) (rest : List Char) : Part :=
  match level.flags.find? fun flag => flag.letter = some letter with
  | some flag =>
    match rest with
    | [] => .flagBeforeValue flag.name
    | '=' :: value => .flagWithValue flag.name (String.ofList value)
    | value => .flagWithValue flag.name (String.ofList value)
  | none =>
    if letter = 'h' then .asks (.help level.topic false)
    else if letter = 'V' ∧ level.hasVersion then .asks .version
    else .asks (.misuse (.unknown (String.ofList ['-', letter])))

def partOf (level : Level) (argument : String) : Part :=
  match argument.toList with
  | ['-', '-'] => .stop
  | '-' :: '-' :: rest => longPart level rest
  | ['-'] => .plain
  | '-' :: letter :: rest => shortPart level letter rest
  | _ => .plain

def isValue (argument : String) : Bool :=
  match argument.toList with
  | ['-'] => true
  | '-' :: _ => false
  | _ => true

def readLevel (level : Level) (read : Read) : List String → Except Stop Read
  | [] => .ok read
  | argument :: rest =>
    match partOf level argument with
    | .stop => rest.foldlM (fun read argument => read.storePosition level argument) read
    | .asks stop => .error stop
    | .flag name =>
      match read.store name "true" with
      | .error stop => .error stop
      | .ok read => readLevel level read rest
    | .flagWithValue name value =>
      match read.store name value with
      | .error stop => .error stop
      | .ok read => readLevel level read rest
    | .flagBeforeValue name =>
      match rest with
      | value :: rest =>
        if isValue value then
          match read.store name value with
          | .error stop => .error stop
          | .ok read => readLevel level read rest
        else .error (.misuse (.noValue name))
      | [] => .error (.misuse (.noValue name))
    | .plain =>
      if level.commands.contains argument then .ok { read with command := some (argument, rest) }
      else
        match read.storePosition level argument with
        | .error stop => .error stop
        | .ok read => readLevel level read rest

/-! ## Requests -/

structure Conversion where
  input : String
  source : Option String
  target : String
  output : Option String
  deriving DecidableEq, Repr

structure Request where
  config : Option String
  listFormats : Bool
  conversion : Option Conversion
  deriving DecidableEq, Repr

/-- What the arguments after the command `help` ask for. -/
def helpTopic : List String → Stop
  | [] => .help .program true
  | ["convert"] => .help .convert true
  | ["help"] => .help .program true
  | "convert" :: name :: _ | "help" :: name :: _ | name :: _ => .misuse (.unknownCommand name)

def conversionRequest (outer : Read) (arguments : List String) : Except Stop Request :=
  match readLevel convertLevel {} arguments with
  | .error stop => .error stop
  | .ok inner =>
    match inner.positions, Fields.get? inner.values "to" with
    | input :: _, some target =>
      .ok
        { config := (Fields.get? inner.values "config").or (Fields.get? outer.values "config")
          listFormats :=
            Fields.has inner.values "list-formats" || Fields.has outer.values "list-formats"
          conversion :=
            some
              { input
                source := Fields.get? inner.values "from"
                target
                output := Fields.get? inner.values "output" } }
    | positions, target =>
      .error (.misuse (.missing
        ((if positions.isEmpty then ["input"] else []) ++
          if target.isNone then ["to"] else [])))

def strictRequest (arguments : List String) : Except Stop Request :=
  match readLevel programLevel {} arguments with
  | .error stop => .error stop
  | .ok outer =>
    match outer.command with
    | some ("convert", rest) => conversionRequest outer rest
    | some (_, rest) => .error (helpTopic rest)
    | none =>
      if outer.values.isEmpty then .error (.misuse .nothing)
      else
        .ok
          { config := Fields.get? outer.values "config"
            listFormats := Fields.has outer.values "list-formats"
            conversion := none }

/-- Whether arguments that cannot be understood may have left out the command. -/
def mayOmitCommand : List String → Bool
  | [] => false
  | first :: _ => first.toList.head? ≠ some '-' && !(["convert", "help"].contains first)

/-- Why there is no request, with the arguments that were read in the end. -/
structure Halt where
  arguments : List String
  stop : Stop
  deriving DecidableEq, Repr

/-- The request of arguments. The command to convert may be left out: arguments that cannot be
understood without it are read again with the command in front, and then only what is wrong with
these counts. -/
def request (arguments : List String) : Except Halt Request :=
  match strictRequest arguments with
  | .ok found => .ok found
  | .error stop =>
    if mayOmitCommand arguments then
      (strictRequest ("convert" :: arguments)).mapError (Halt.mk ("convert" :: arguments))
    else .error ⟨arguments, stop⟩

end BlockLoom.CommandLine
