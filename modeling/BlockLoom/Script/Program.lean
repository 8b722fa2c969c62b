import BlockLoom.Script.Salvage

/-!
Whole scripts. The grammar is unrolled as many levels as the text can nest. An
expression is read on its own by putting it between parentheses; a script that
is not well formed as a whole is salvaged.
-/

namespace BlockLoom.Script

open Scan

/-- The grammar with constructs nested at most the given number of levels deep. Each level is made
of the one below, so that its functions need no recursion of their own. -/
def grammar : Nat → Grammar
  | 0 => Grammar.none
  | level + 1 =>
    { expression := fun context => readExpression (grammar level) context
      statement := readStatement (grammar level)
      block := readBlock (grammar level)
      type := readType (grammar level)
      pattern := readPattern (grammar level)
      signature := readSignature (grammar level) }

def grammarFor (length : Nat) : Grammar :=
  grammar (4 * length + 8)

/-- Whether a text holds a character that no token admits. -/
def hasForeign (text : List Char) : Bool :=
  text.contains '\x00'

/-- The expression that makes up a text: the text between parentheses and line
breaks must be one parenthesised expression from end to end. -/
def readWhole (text : List Char) : Option Tree :=
  let source := "(\n".toList ++ text ++ "\n)".toList
  if hasForeign text then none
  else
    match (group (grammarFor source.length)).run ⟨0, source⟩ with
    | some (⟨_, _, _, [inner]⟩, stop) => if stop.rest.isEmpty then some inner else none
    | _ => none

/-! ## Scripts -/

/-- The first line of a script that names its interpreter. -/
def hashBang : Scan Unit := do
  match (← get).rest with
  | '#' :: '!' :: rest => pass ((rest.takeWhile (· ≠ '\n')).length + 2)
  | _ => pure ()

/-- Reads a script that is well formed from end to end. -/
def readProgram? (text : List Char) : Option Tree :=
  let g := grammarFor text.length
  let scan : Scan Tree := spanned .program do
    hashBang
    let statements ← many g.statement
    let _ ← many markup
    match ← look with
    | [] => return statements
    | _ => failure
  if hasForeign text then none else (scan.run ⟨0, text⟩).map Prod.fst

/-- Reads any script: as a whole if it is well formed, and else by salvaging what can be read of
it. -/
def readProgram (text : List Char) : Tree :=
  match readProgram? text with
  | some program => program
  | none =>
    let g := grammarFor text.length
    let scan : Scan Tree := spanned .broken do
      hashBang
      salvage g (text.length + 1) Salvage.first
    match scan.run ⟨0, text⟩ with
    | some (program, _) => program
    | none => ⟨.broken, 0, text, []⟩

end BlockLoom.Script
