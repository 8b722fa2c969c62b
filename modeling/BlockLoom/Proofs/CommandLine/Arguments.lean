import BlockLoom.CommandLine.Arguments
import BlockLoom.CommandLine.Extras
import BlockLoom.Proofs.Fields

/-!
Arguments without the output option. Leaving the option out of a conversion changes the
request in nothing else, wherever the option stands and however it is written. Extra
parameters are told from all other arguments, so that they can be given again behind them.
-/

namespace BlockLoom.CommandLine

def outputName : String := "output"

/-- Arguments without the output option and its value. -/
def withoutOutput : List String → List String
  | [] => []
  | argument :: rest =>
    match partOf convertLevel argument with
    | .stop => argument :: rest
    | .flagWithValue name _ =>
      if name = outputName then withoutOutput rest else argument :: withoutOutput rest
    | .flagBeforeValue name =>
      match rest with
      | [] => if name = outputName then [] else [argument]
      | value :: rest =>
        if name = outputName then withoutOutput rest
        else argument :: value :: withoutOutput rest
    | .flag _ | .plain | .asks _ => argument :: withoutOutput rest

/-! ## What is read at a level -/

namespace Read

/-- What has been read, without the output option. -/
def bare (read : Read) : Read :=
  { read with values := Fields.remove read.values outputName }

theorem store_output {read result : Read} {value : String}
    (h : read.store outputName value = .ok result) : result.bare = read.bare := by
  rw [store] at h
  split at h
  · cases h
  · cases h
    rw [bare, bare]
    dsimp only
    rw [Fields.remove_put, if_pos rfl]

theorem store_bare {read result : Read} {name value : String}
    (h : read.store name value = .ok result) (other : name ≠ outputName) :
    read.bare.store name value = .ok result.bare := by
  rw [store] at h ⊢
  have same : Fields.has read.bare.values name = Fields.has read.values name := by
    rw [Fields.has, Fields.has, bare, Fields.get?_remove, if_neg other]
  rw [same]
  split at h
  · cases h
  · next fresh =>
    cases h
    rw [if_neg fresh, bare, bare]
    dsimp only
    rw [Fields.remove_put, if_neg other]

theorem storePosition_bare {level : Level} {read result : Read} {argument : String}
    (h : read.storePosition level argument = .ok result) :
    read.bare.storePosition level argument = .ok result.bare := by
  rw [storePosition] at h ⊢
  split at h
  · next free =>
    cases h
    exact if_pos free
  · split at h <;> cases h

theorem storePositions_bare {level : Level} {read result : Read} {arguments : List String}
    (h : arguments.foldlM (fun read argument => read.storePosition level argument) read =
      .ok result) :
    arguments.foldlM (fun read argument => read.storePosition level argument) read.bare =
      .ok result.bare := by
  induction arguments generalizing read with
  | nil =>
    cases h
    rfl
  | cons argument arguments ih =>
    rw [List.foldlM_cons] at h ⊢
    cases first : read.storePosition level argument with
    | error stop =>
      rw [first] at h
      cases h
    | ok next =>
      rw [first] at h
      rw [storePosition_bare first]
      exact ih h

end Read

/-! ## What an argument says -/

/-- What an argument says is about options of the level, and only those without a value
stand alone. -/
def Part.Within (level : Level) : Part → Prop
  | .flag name => ∃ flag ∈ level.flags, flag.name = name ∧ flag.valued = false
  | .flagWithValue name _ | .flagBeforeValue name => ∃ flag ∈ level.flags, flag.name = name
  | .stop | .plain | .asks _ => True

theorem longPart_within (level : Level) (text : List Char) :
    (longPart level text).Within level := by
  rw [longPart]
  dsimp only
  split
  · next flag found =>
    have member := List.mem_of_find?_eq_some found
    have named : flag.name = String.ofList (splitValue text).1 := by
      simpa using List.find?_some found
    split
    · exact ⟨flag, member, named⟩
    · exact ⟨flag, member, named⟩
    · trivial
    · next unvalued _ => exact ⟨flag, member, named, unvalued⟩
  · repeat' split
    all_goals trivial

theorem shortPart_within (level : Level) (letter : Char) (rest : List Char) :
    (shortPart level letter rest).Within level := by
  rw [shortPart]
  split
  · next flag found =>
    have member := List.mem_of_find?_eq_some found
    split <;> exact ⟨flag, member, rfl⟩
  · repeat' split
    all_goals trivial

theorem partOf_within (level : Level) (argument : String) :
    (partOf level argument).Within level := by
  rw [partOf]
  split
  · trivial
  · exact longPart_within level _
  · trivial
  · exact shortPart_within level _ _
  · trivial

/-- The output option takes a value. -/
theorem flag_ne_output {argument name : String} (h : partOf convertLevel argument = .flag name) :
    name ≠ outputName := by
  have valued : ∀ flag ∈ convertLevel.flags, flag.name = outputName → flag.valued = true := by
    decide
  have within := partOf_within convertLevel argument
  rw [h] at within
  obtain ⟨flag, member, rfl, unvalued⟩ := within
  intro isOutput
  rw [valued flag member isOutput] at unvalued
  cases unvalued

/-- The output is no option of the program. -/
theorem shared_ne_output {flag : Flag} (member : flag ∈ programLevel.flags) :
    flag.name ≠ outputName := by
  revert flag
  decide

/-- A conversion has all options of the program. -/
theorem find?_shared {name : String} {flag : Flag}
    (h : programLevel.flags.find? (fun flag => flag.name = name) = some flag) :
    convertLevel.flags.find? (fun flag => flag.name = name) = some flag := by
  have named : flag.name = name := by simpa using List.find?_some h
  have found : ∀ flag ∈ programLevel.flags,
      convertLevel.flags.find? (fun other => other.name = flag.name) = some flag := by
    decide
  rw [← named]
  exact found flag (List.mem_of_find?_eq_some h)

theorem longPart_convertLevel {text : List Char}
    (h : ∀ stop, longPart programLevel text ≠ .asks stop) :
    longPart convertLevel text = longPart programLevel text := by
  rw [longPart] at h ⊢
  rw [longPart]
  dsimp only at h ⊢
  cases found : programLevel.flags.find? fun flag =>
      flag.name = String.ofList (splitValue text).1 with
  | some flag => rw [find?_shared found]
  | none =>
    rw [found] at h
    dsimp only at h
    split at h
    · exact (h _ rfl).elim
    · split at h
      · exact (h _ rfl).elim
      · split at h <;> exact (h _ rfl).elim

/-- No letter stands for an option of the program. -/
theorem shortPart_programLevel (letter : Char) (rest : List Char) :
    ∃ stop, shortPart programLevel letter rest = .asks stop := by
  have missing : programLevel.flags.find? (fun flag => flag.letter = some letter) = none := rfl
  rw [shortPart, missing]
  dsimp only
  split
  · exact ⟨_, rfl⟩
  · split <;> exact ⟨_, rfl⟩

/-- What is understood before the command is understood the same after it. -/
theorem partOf_convertLevel {argument : String}
    (h : ∀ stop, partOf programLevel argument ≠ .asks stop) :
    partOf convertLevel argument = partOf programLevel argument := by
  rw [partOf] at h ⊢
  rw [partOf]
  split at h
  · rfl
  · exact longPart_convertLevel h
  · rfl
  · next letter rest _ _ _ =>
    obtain ⟨stop, asks⟩ := shortPart_programLevel letter rest
    exact (h stop asks).elim
  · rfl

/-! ## Without the output option -/

/-- Without the output option, a conversion reads the same but for that option. The induction is on
the arguments; only the option itself and its value are passed over in one reading and not in the
other. -/
theorem readLevel_withoutOutput {read result : Read} {arguments : List String}
    (h : readLevel convertLevel read arguments = .ok result) :
    readLevel convertLevel read.bare (withoutOutput arguments) = .ok result.bare := by
  -- The two readings go on side by side; only the output option itself is passed over in one.
  fun_induction withoutOutput arguments generalizing read with
  | case1 =>
    cases h
    rfl
  | case2 argument rest part =>
    rw [readLevel, part] at h ⊢
    exact Read.storePositions_bare h
  | case3 argument rest value part ih =>
    rw [readLevel, part] at h
    dsimp only at h
    split at h
    · cases h
    · next stored =>
      rw [← Read.store_output stored]
      exact ih h
  | case4 argument rest name value part other ih =>
    rw [readLevel, part] at h ⊢
    dsimp only at h ⊢
    split at h
    · cases h
    · next stored =>
      rw [Read.store_bare stored other]
      exact ih h
  | case5 argument part =>
    rw [readLevel, part] at h
    cases h
  | case6 argument name part other =>
    rw [readLevel, part] at h
    cases h
  | case7 argument value rest part ih =>
    rw [readLevel, part] at h
    dsimp only at h
    split at h
    · split at h
      · cases h
      · next stored =>
        rw [← Read.store_output stored]
        exact ih h
    · cases h
  | case8 argument name part value rest other ih =>
    rw [readLevel, part] at h ⊢
    dsimp only at h ⊢
    split at h
    · next isValue =>
      rw [if_pos isValue]
      split at h
      · cases h
      · next stored =>
        rw [Read.store_bare stored other]
        exact ih h
    · cases h
  | case9 argument rest name part ih =>
    rw [readLevel, part] at h ⊢
    dsimp only at h ⊢
    split at h
    · cases h
    · next stored =>
      rw [Read.store_bare stored (flag_ne_output part)]
      exact ih h
  | case10 argument rest part ih =>
    rw [readLevel, part] at h ⊢
    dsimp only at h ⊢
    have none : convertLevel.commands.contains argument = false := rfl
    rw [none, if_neg Bool.false_ne_true] at h ⊢
    split at h
    · cases h
    · next stored =>
      rw [Read.storePosition_bare stored]
      exact ih h
  | case11 argument rest stop part ih =>
    rw [readLevel, part] at h
    cases h

/-- Storing a value says nothing about the command. -/
theorem Read.store_command {read result : Read} {name value : String}
    (h : read.store name value = .ok result) : result.command = read.command := by
  rw [Read.store] at h
  split at h
  · cases h
  · cases h
    rfl

/-- No argument stands alone before the command. -/
theorem storePosition_programLevel (read : Read) (argument : String) :
    read.storePosition programLevel argument = .error (.misuse (.unknownCommand argument)) :=
  if_neg (Nat.not_lt_zero _)

/-- Before the command, an option is one of the program and not the output. -/
theorem programLevel_ne_output {argument name : String} {part : Part}
    (h : partOf programLevel argument = part)
    (named : part = .flag name ∨ part = .flagBeforeValue name ∨
      ∃ value, part = .flagWithValue name value) : name ≠ outputName := by
  have within := partOf_within programLevel argument
  rw [h] at within
  obtain rfl | rfl | ⟨value, rfl⟩ := named
  · obtain ⟨flag, member, rfl, _⟩ := within
    exact shared_ne_output member
  · obtain ⟨flag, member, rfl⟩ := within
    exact shared_ne_output member
  · obtain ⟨flag, member, rfl⟩ := within
    exact shared_ne_output member

/-- Leaving out the output option changes only the arguments after the command, so that the program
itself reads the same options and finds the same command. -/
theorem readLevel_command {read outer : Read} {arguments rest : List String} {command : String}
    (fresh : read.command = none) (h : readLevel programLevel read arguments = .ok outer)
    (named : outer.command = some (command, rest)) :
    readLevel programLevel read (withoutOutput arguments) =
      .ok { outer with command := some (command, withoutOutput rest) } := by
  -- What stays is told by the options of a conversion, what is read by those of the program.
  have same : ∀ {argument : String} {part : Part}, partOf programLevel argument = part →
      (∀ stop, part ≠ .asks stop) → partOf convertLevel argument = part := by
    rintro argument _ rfl silent
    exact partOf_convertLevel silent
  fun_induction readLevel programLevel read arguments with
  | case1 =>
    cases h
    rw [fresh] at named
    cases named
  | case2 read argument others part =>
    cases others with
    | nil =>
      cases h
      rw [fresh] at named
      cases named
    | cons first others =>
      rw [List.foldlM_cons, storePosition_programLevel] at h
      cases h
  | case5 read argument others name part next stored ih =>
    rw [withoutOutput, same part (by simp)]
    rw [readLevel, part]
    dsimp only
    rw [stored]
    exact ih (Read.store_command stored |>.trans fresh) h
  | case7 read argument others name value part next stored ih =>
    have other := programLevel_ne_output part (.inr (.inr ⟨value, rfl⟩))
    rw [withoutOutput, same part (by simp)]
    dsimp only
    rw [if_neg other, readLevel, part]
    dsimp only
    rw [stored]
    exact ih (Read.store_command stored |>.trans fresh) h
  | case9 read argument name part value others isValue next stored ih =>
    have other := programLevel_ne_output part (.inr (.inl rfl))
    rw [withoutOutput, same part (by simp)]
    dsimp only
    rw [if_neg other, readLevel, part]
    dsimp only
    rw [if_pos isValue, stored]
    exact ih (Read.store_command stored |>.trans fresh) h
  | case12 read argument others part isCommand =>
    cases h
    cases named
    rw [withoutOutput, same part (by simp), readLevel, part]
    exact if_pos isCommand
  | case14 read argument others part _ next stored ih =>
    rw [storePosition_programLevel] at stored
    cases stored
  | _ => cases h

/-! ## The request -/

def Conversion.bare (conversion : Conversion) : Conversion :=
  { conversion with output := none }

/-- A request without the output of its conversion. -/
def Request.bare (request : Request) : Request :=
  { request with conversion := request.conversion.map Conversion.bare }

theorem conversionRequest_withoutOutput {outer : Read} {arguments : List String}
    {found : Request} (h : conversionRequest outer arguments = .ok found) :
    conversionRequest outer (withoutOutput arguments) = .ok found.bare := by
  rw [conversionRequest] at h ⊢
  split at h
  · cases h
  · next inner level =>
    have bare : readLevel convertLevel {} (withoutOutput arguments) = .ok inner.bare :=
      readLevel_withoutOutput level
    rw [bare]
    have kept : ∀ name, name ≠ outputName →
        Fields.get? inner.bare.values name = Fields.get? inner.values name :=
      fun name other => by rw [Read.bare, Fields.get?_remove, if_neg other]
    have gone : Fields.get? inner.bare.values "output" = none := by
      rw [Read.bare, Fields.get?_remove]
      exact if_pos rfl
    dsimp only
    rw [Fields.has, kept "to" (by decide), kept "config" (by decide), kept "from" (by decide),
      kept "list-formats" (by decide), gone]
    split at h
    · next positions target =>
      cases h
      rw [Read.bare]
      dsimp only
      rw [positions, target]
      rfl
    · cases h

theorem strictRequest_withoutOutput {arguments : List String} {found : Request}
    (h : strictRequest arguments = .ok found) (converts : found.conversion.isSome) :
    strictRequest (withoutOutput arguments) = .ok found.bare := by
  rw [strictRequest] at h ⊢
  split at h
  · cases h
  · next outer level =>
    split at h
    · next rest named =>
      rw [readLevel_command rfl level named]
      exact conversionRequest_withoutOutput h
    · cases h
    · split at h
      · cases h
      · cases h
        cases converts

/-- An argument without a dash stands alone. -/
theorem partOf_undashed {level : Level} {argument : String}
    (h : argument.toList.head? ≠ some '-') : partOf level argument = .plain := by
  rw [partOf]
  split
  · next form => exact (h (by rw [form]; rfl)).elim
  · next form => exact (h (by rw [form]; rfl)).elim
  · rfl
  · next form => exact (h (by rw [form]; rfl)).elim
  · rfl

/-- The command may be left out before an argument that stands alone and is no command. -/
theorem mayOmitCommand_cons {first : String} {rest : List String} :
    mayOmitCommand (first :: rest) = true ↔
      first.toList.head? ≠ some '-' ∧ programLevel.commands.contains first = false := by
  rw [mayOmitCommand, Bool.and_eq_true, decide_eq_true_iff, Bool.not_eq_true']
  rfl

/-- What leaves out the command is not understood without it. -/
theorem strictRequest_omitted {arguments : List String} (h : mayOmitCommand arguments = true) :
    ∃ stop, strictRequest arguments = .error stop := by
  cases arguments with
  | nil => cases h
  | cons first rest =>
    obtain ⟨undashed, noCommand⟩ := mayOmitCommand_cons.mp h
    refine ⟨.misuse (.unknownCommand first), ?_⟩
    rw [strictRequest, readLevel, partOf_undashed undashed]
    dsimp only
    rw [noCommand, if_neg Bool.false_ne_true, storePosition_programLevel]

theorem mayOmitCommand_withoutOutput {arguments : List String}
    (h : mayOmitCommand arguments = true) : mayOmitCommand (withoutOutput arguments) = true := by
  cases arguments with
  | nil => cases h
  | cons first rest =>
    have conditions := mayOmitCommand_cons.mp h
    rw [withoutOutput, partOf_undashed conditions.1]
    exact mayOmitCommand_cons.mpr conditions

/-- Arguments that leave out the command are read with the command in front. -/
theorem request_omitted {arguments : List String} (h : mayOmitCommand arguments = true) :
    request arguments =
      (strictRequest ("convert" :: arguments)).mapError (Halt.mk ("convert" :: arguments)) := by
  obtain ⟨stop, refused⟩ := strictRequest_omitted h
  rw [request, refused]
  exact if_pos h

/-- Leaving out the output option of a conversion changes nothing else that is asked for. -/
theorem request_withoutOutput {arguments : List String} {found : Request}
    (h : request arguments = .ok found) (converts : found.conversion.isSome) :
    request (withoutOutput arguments) = .ok found.bare := by
  cases omitted : mayOmitCommand arguments with
  | true =>
    -- The first argument stays, so the command is still missing and is put in front again.
    have named : withoutOutput ("convert" :: arguments) = "convert" :: withoutOutput arguments := by
      rw [withoutOutput, partOf_undashed (by decide)]
    rw [request_omitted omitted] at h
    rw [request_omitted (mayOmitCommand_withoutOutput omitted), ← named]
    cases strict : strictRequest ("convert" :: arguments) with
    | error stop =>
      rw [strict] at h
      cases h
    | ok asked =>
      rw [strict] at h
      cases h
      rw [strictRequest_withoutOutput strict converts]
      rfl
  | false =>
    rw [request, omitted] at h
    cases strict : strictRequest arguments with
    | error stop =>
      rw [strict] at h
      cases h
    | ok asked =>
      rw [strict] at h
      cases h
      rw [request, strictRequest_withoutOutput strict converts]

end BlockLoom.CommandLine
