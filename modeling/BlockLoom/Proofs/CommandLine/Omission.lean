import BlockLoom.Proofs.CommandLine.Separation

/-!
The command to convert may be left out. What names no command is refused at first and then
read again with the command in front; with the command written out it is read once. Either way
the program is asked for the same, whatever stands among the extra parameters, and where it
cannot be understood with the command either, the same mistake is reported.
-/

namespace BlockLoom.CommandLine

/-! ## The first argument left over -/

/-- An argument is the first that is left over: before it there are only flags and their
values, and it is neither a flag nor the value of the argument right before it. -/
structure Leads (arguments before : List String) (first : String) (after : List String) :
    Prop where
  split : arguments = before ++ first :: after
  extras : leftOver before = []
  unflagged : isFlag first = false
  untaken : isTaken before.getLast? first = false

/-- The first argument that is left over stands behind flags and their values. -/
theorem exists_leftBehind {before : Option String} {arguments others : List String}
    {first : String} (h : leftBehind before arguments = first :: others) :
    ∃ earlier after, arguments = earlier ++ first :: after ∧ leftBehind before earlier = [] ∧
      isFlag first = false ∧ isTaken (earlier.getLast?.or before) first = false := by
  induction arguments generalizing before with
  | nil => cases h
  | cons argument rest ih =>
    rw [leftBehind_cons] at h
    split at h
    · next passed =>
      obtain ⟨earlier, after, rfl, nothing, unflagged, untaken⟩ := ih h
      have last : (argument :: earlier).getLast?.or before =
          earlier.getLast?.or (some argument) := by
        rw [List.getLast?_cons]
        cases earlier.getLast? <;> rfl
      refine ⟨argument :: earlier, after, rfl, ?_, unflagged, last ▸ untaken⟩
      rw [leftBehind_cons, if_pos passed, nothing]
    · next kept =>
      obtain ⟨rfl, rfl⟩ := List.cons.inj h
      rw [Bool.not_eq_true, Bool.or_eq_false_iff] at kept
      exact ⟨[], rest, rfl, rfl, kept⟩

theorem exists_leads {arguments others : List String} {first : String}
    (h : (separate arguments).cleaned = first :: others) :
    ∃ before after, Leads arguments before first after := by
  rw [cleaned_eq_leftOver, leftOver] at h
  obtain ⟨before, after, split, extras, unflagged, untaken⟩ := exists_leftBehind h
  rw [Option.or_none] at untaken
  exact ⟨before, after, split, extras, unflagged, untaken⟩

/-! ## With the command -/

/-- A command starts with no dash and is no parameter. -/
theorem convert_unmarked : isDashed "convert" = false ∧ extraKey? "convert" = none := by
  decide +kernel

variable {arguments before after : List String} {first : String}

/-- In front of an argument without a dash, the command is left over first, and all else is
separated as it was. -/
theorem Leads.separate_command (h : Leads arguments before first after)
    (undashed : isDashed first = false) :
    separate (before ++ "convert" :: first :: after) =
      ⟨"convert" :: (separate arguments).cleaned, (separate arguments).given⟩ := by
  have free : before.getLast?.any isFlag = false := by
    simpa [isTaken, undashed] using h.untaken
  have apart (others : List String) : Apart before others := .inr free
  have command : separate ("convert" :: first :: after) =
      ⟨"convert" :: (separate (first :: after)).cleaned, (separate (first :: after)).given⟩ :=
    @separate_append ["convert"] (first :: after) (by simpa using convert_unmarked.2)
  have none : (separate before).cleaned = [] := (cleaned_eq_leftOver before).trans h.extras
  rw [(apart _).separate, command, h.split, (apart _).separate, none]
  rfl

/-- What leaves out the command asks for the same as with the command. -/
theorem request_command (omitted : mayOmitCommand arguments = true) :
    request ("convert" :: arguments) = request arguments := by
  have named : mayOmitCommand ("convert" :: arguments) = false := by simp [mayOmitCommand]
  rw [request_omitted omitted, request, named]
  cases strictRequest ("convert" :: arguments) <;> rfl

/-- The program does the same with the command, whatever it works on. -/
theorem Leads.run_command {m : Type → Type} [Monad m] (files : FileAccess m)
    (h : Leads arguments before first after) (undashed : isDashed first = false)
    (omitted : mayOmitCommand (separate arguments).cleaned = true) :
    run files (before ++ "convert" :: first :: after) = run files arguments := by
  have separated := h.separate_command undashed
  rw [run, run, separated, request_command omitted]
  rfl

/-- What cannot be understood with the command in front stops a run that leaves it out. What was
wrong without the command is not reported. -/
theorem runOn_halt {stop : Stop} (omitted : mayOmitCommand (separate arguments).cleaned = true)
    (h : strictRequest ("convert" :: (separate arguments).cleaned) = .error stop)
    (folder : Folder) :
    runOn folder arguments =
      (.stopped ⟨"convert" :: (separate arguments).cleaned, stop⟩, folder) := by
  have refused : request (separate arguments).cleaned =
      .error ⟨"convert" :: (separate arguments).cleaned, stop⟩ := by
    rw [request_omitted omitted, h]
    rfl
  rw [runOn, run, refused]
  rfl

/-- The command to convert may be left out. If the first argument that is left over has no dash
in front and is no command, then on every folder a run ends the same way, with the same status,
the same output, the same error in whatever words and the same files, as with the command right
before that argument. If the arguments are not understood with the command, it is this error
that ends both runs, and not the one that the command is missing. -/
theorem command_optional {others : List String}
    (left : (separate arguments).cleaned = first :: others) (undashed : isDashed first = false)
    (noCommand : first ≠ "convert" ∧ first ≠ "help") :
    (∃ before after, Leads arguments before first after) ∧
      (∀ before after, Leads arguments before first after → ∀ folder : Folder,
        runOn folder (before ++ "convert" :: first :: after) = runOn folder arguments) ∧
      ∀ stop, strictRequest ("convert" :: first :: others) = .error stop → ∀ folder : Folder,
        runOn folder arguments = (.stopped ⟨"convert" :: first :: others, stop⟩, folder) := by
  have omitted : mayOmitCommand (separate arguments).cleaned = true := by
    rw [left, mayOmitCommand]
    simpa [isDashed, noCommand] using undashed
  refine ⟨exists_leads left, fun before after leads folder => ?_, fun stop refused folder => ?_⟩
  · rw [runOn, runOn, leads.run_command Folder.access undashed omitted]
  · rw [← left] at refused ⊢
    exact runOn_halt omitted refused folder

/-- Without a target, the command is missing as well, but only the target is reported. -/
example : runOn [] ["page.json"] =
    (.stopped ⟨["convert", "page.json"], .misuse (.missing ["to"])⟩, []) := rfl

/-- A parameter may stand in front of the place for the command. -/
theorem prettyPage_optional :
    (separate ["--extra-pretty", "no", "page.json", "--to", "builder"]).cleaned =
        ["page.json", "--to", "builder"] ∧
      ∀ folder : Folder,
        runOn folder ["--extra-pretty", "no", "convert", "page.json", "--to", "builder"] =
          runOn folder ["--extra-pretty", "no", "page.json", "--to", "builder"] := by
  have left : (separate ["--extra-pretty", "no", "page.json", "--to", "builder"]).cleaned =
      ["page.json", "--to", "builder"] := by decide +kernel
  have leads : Leads ["--extra-pretty", "no", "page.json", "--to", "builder"]
      ["--extra-pretty", "no"] "page.json" ["--to", "builder"] :=
    ⟨rfl, by decide +kernel, by decide +kernel, by decide +kernel⟩
  exact ⟨left, (command_optional left (by decide +kernel) (by decide)).2.1 _ _ leads⟩

end BlockLoom.CommandLine
