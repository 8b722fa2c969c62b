import BlockLoom.CommandLine.Run
import BlockLoom.Proofs.CommandLine.Extras

/-!
The program on the files of a folder. A run reads first and writes last, if it writes at all:
a conversion with an output does what the same conversion does without, and in the end writes
what that prints. So a run either fails and leaves all files as they were, or it succeeds,
and then only the file of the output may differ.
-/

namespace BlockLoom.CommandLine

/-- A run that fails prints nothing on the standard output. -/
theorem Ending.output_of_failure {ending : Ending} (h : ending.status ≠ 0) :
    ending.output = "" := by
  cases ending with
  | stopped halt =>
    obtain ⟨arguments, stop⟩ := halt
    cases stop with
    | misuse mistake => rfl
    | help topic long => exact (h rfl).elim
    | version => exact (h rfl).elim
  | badSettings problem => rfl
  | failed message => rfl
  | printed output => exact (h rfl).elim
  | written => rfl

/-! ## Reading -/

theorem run_bind {α β : Type} (action : StateM Folder α) (next : α → StateM Folder β)
    (folder : Folder) :
    (action >>= next).run folder = (next (action.run folder).1).run (action.run folder).2 := rfl

theorem read_run (folder : Folder) (path : String) :
    (Folder.access.read path).run folder = (Folder.readFile folder path, folder) := rfl

/-- An action that leaves all files as they are. -/
def ReadsOnly {α : Type} (action : StateM Folder α) : Prop :=
  ∀ folder, (action.run folder).2 = folder

namespace ReadsOnly

variable {α β : Type}

theorem pure (value : α) : ReadsOnly (Pure.pure value) :=
  fun _ => rfl

theorem bind {action : StateM Folder α} {next : α → StateM Folder β} (first : ReadsOnly action)
    (rest : ∀ value, ReadsOnly (next value)) : ReadsOnly (action >>= next) := by
  intro folder
  rw [run_bind, rest, first]

theorem read (path : String) : ReadsOnly (Folder.access.read path) :=
  fun folder => by rw [read_run]

end ReadsOnly

theorem readSettings_readsOnly (path : String) : ReadsOnly (readSettings Folder.access path) := by
  refine (ReadsOnly.read path).bind fun text => ?_
  cases text with
  | ok text => exact ReadsOnly.pure _
  | error _ =>
    refine (ReadsOnly.read _).bind fun text => ?_
    cases text <;> exact ReadsOnly.pure _

theorem loadSettings_readsOnly (config : Option String) :
    ReadsOnly (loadSettings Folder.access config) := by
  refine (readSettings_readsOnly _).bind fun text => ?_
  cases config with
  | none => exact ReadsOnly.pure _
  | some path => exact (readSettings_readsOnly path).bind fun text => ReadsOnly.pure _

/-- A conversion without an output writes nothing. -/
theorem convert_readsOnly (registry : Registry) (options : Options) {conversion : Conversion}
    (h : conversion.output = none) :
    ReadsOnly (convert Folder.access registry options conversion) := by
  rw [convert]
  split
  · exact ReadsOnly.pure _
  · refine (ReadsOnly.read _).bind fun text => ?_
    cases text with
    | error error => exact ReadsOnly.pure _
    | ok text =>
      dsimp only
      split
      · exact ReadsOnly.pure _
      · rw [h]
        exact ReadsOnly.pure _

/-! ## Writing -/

/-- What becomes of a run when its output goes to a file. -/
def redirect (folder : Folder) (path : String) : Ending → Ending × Folder
  | .printed output =>
    match Folder.writeFile folder path output with
    | .ok after => (.written, after)
    | .error error =>
      (.failed ("Error writing file '" ++ path ++ "': " ++ error.message), folder)
  | ending => (ending, folder)

theorem write_run (folder : Folder) (path text : String) :
    (Folder.access.write path text).run folder =
      match Folder.writeFile folder path text with
      | .ok after => (.ok (), after)
      | .error error => (.error error, folder) := by
  change StateT.run (get >>= fun folder => _) folder = _
  rw [run_bind]
  dsimp only [StateT.run_get]
  cases Folder.writeFile folder path text <;> rfl

/-- A conversion with an output does the same as without, and in the end writes. -/
theorem convert_redirect (registry : Registry) (options : Options) {conversion : Conversion}
    {path : String} (h : conversion.output = some path) (folder : Folder) :
    (convert Folder.access registry options conversion).run folder =
      redirect folder path
        ((convert Folder.access registry options conversion.bare).run folder).1 := by
  rw [convert, convert]
  -- Nothing before the last step depends on where the output goes.
  have same : formatsOf registry conversion.bare = formatsOf registry conversion := rfl
  rw [same]
  cases formatsOf registry conversion with
  | error message => rfl
  | ok source =>
    have input : conversion.bare.input = conversion.input := rfl
    have target : conversion.bare.target = conversion.target := rfl
    have output : conversion.bare.output = none := rfl
    dsimp only
    rw [run_bind, run_bind, input, read_run]
    dsimp only
    cases Folder.readFile folder conversion.input with
    | error error => rfl
    | ok text =>
      dsimp only
      rw [target]
      cases convertText registry source conversion.target options text with
      | error message => rfl
      | ok text =>
        dsimp only
        rw [h, output]
        dsimp only
        rw [run_bind, write_run]
        change _ = redirect folder path (.printed (text ++ "\n"))
        rw [redirect]
        cases Folder.writeFile folder path (text ++ "\n") <;> rfl

/-! ## Requests -/

def Request.output? (request : Request) : Option String :=
  request.conversion.bind Conversion.output

/-- What a request without an output asks for writes nothing. -/
theorem perform_readsOnly (options : Options) {request : Request} (h : request.output? = none) :
    ReadsOnly (perform Folder.access options request) := by
  refine (loadSettings_readsOnly _).bind fun settings => ?_
  cases settings with
  | error problem => exact ReadsOnly.pure _
  | ok settings =>
    dsimp only
    split
    · exact ReadsOnly.pure _
    · cases asked : request.conversion with
      | none => exact ReadsOnly.pure _
      | some conversion =>
        rw [Request.output?, asked] at h
        exact convert_readsOnly _ _ h

/-- What a request asks for is done without the output and then redirected, unless only the
formats are listed. -/
theorem perform_redirect (options : Options) {request : Request} {path : String}
    (h : request.output? = some path) (folder : Folder) :
    (perform Folder.access options request).run folder =
      if request.listFormats then (perform Folder.access options request.bare).run folder
      else redirect folder path ((perform Folder.access options request.bare).run folder).1 := by
  obtain ⟨conversion, asked, output⟩ := Option.bind_eq_some_iff.mp h
  have bare : request.bare.conversion = some conversion.bare := by
    rw [Request.bare, asked]
    rfl
  have config : request.bare.config = request.config := rfl
  have listFormats : request.bare.listFormats = request.listFormats := rfl
  rw [perform, perform, run_bind, run_bind, config, loadSettings_readsOnly]
  cases ((loadSettings Folder.access request.config).run folder).1 with
  | error problem => exact (ite_self _).symm
  | ok settings =>
    dsimp only
    rw [listFormats, bare, asked]
    cases request.listFormats with
    | true => rfl
    | false => exact convert_redirect _ _ output folder

/-- Without the output option, a run that would have an output is that of the same request
without it. -/
theorem run_withoutOutput {arguments others : List String} {found : Request}
    (h : request (separate arguments).cleaned = .ok found) (converts : found.conversion.isSome)
    (same : WithoutOutput arguments others) :
    run Folder.access others =
      perform Folder.access (separate arguments).options found.bare := by
  rw [run, same.cleaned, request_withoutOutput h converts, Separated.options, same.given]
  rfl

/-! ## All or nothing -/

/-- The file that a path leads to, whether or not it is there yet. -/
def Folder.target? (folder : Folder) (path : String) : Option String :=
  match Folder.place folder path with
  | .file name | .vacant name => some name
  | .directory | .nowhere _ => none

theorem writeFile_ok {folder after : Folder} {path text : String}
    (h : Folder.writeFile folder path text = .ok after) :
    ∃ name, Folder.target? folder path = some name ∧ after = Fields.put folder name text := by
  rw [Folder.writeFile] at h
  rw [Folder.target?]
  cases place : Folder.place folder path with
  | file name =>
    rw [place] at h
    cases h
    exact ⟨name, rfl, rfl⟩
  | vacant name =>
    rw [place] at h
    cases h
    exact ⟨name, rfl, rfl⟩
  | directory =>
    rw [place] at h
    cases h
  | nowhere error =>
    rw [place] at h
    cases h

/-- A run whose output goes to a file leaves all files as they were, or it writes what is
printed otherwise. -/
theorem redirect_cases (folder : Folder) (path : String) (ending : Ending) :
    (redirect folder path ending).2 = folder ∨
      ∃ output name, ending = .printed output ∧ Folder.target? folder path = some name ∧
        redirect folder path ending = (.written, Fields.put folder name output) := by
  cases ending with
  | printed output =>
    rw [redirect]
    cases written : Folder.writeFile folder path output with
    | error error => exact .inl rfl
    | ok after =>
      obtain ⟨name, target, rfl⟩ := writeFile_ok written
      exact .inr ⟨output, name, rfl, target, rfl⟩
  | _ => exact .inl rfl

/-- How a run on a folder ends, with the files that it leaves. -/
def runOn (folder : Folder) (arguments : List String) : Ending × Folder :=
  (run Folder.access arguments).run folder

/-- The file that the output option of arguments names. -/
def outputFile? (folder : Folder) (arguments : List String) : Option String :=
  match request (separate arguments).cleaned with
  | .ok found => found.output?.bind (Folder.target? folder)
  | .error _ => none

/-- A run wrote one file: the one that its output option names. It succeeded and printed
nothing, and what it wrote is what it prints without the option. -/
structure Wrote (folder : Folder) (arguments : List String) (name : String) : Prop where
  succeeded : (runOn folder arguments).1.status = 0
  silent : (runOn folder arguments).1.output = ""
  named : outputFile? folder arguments = some name
  alone : ∀ other, other ≠ name →
    Fields.get? (runOn folder arguments).2 other = Fields.get? folder other
  printed : ∀ others, WithoutOutput arguments others →
    (runOn folder others).1.status = 0 ∧ (runOn folder others).2 = folder ∧
      Fields.get? (runOn folder arguments).2 name = some (runOn folder others).1.output

/-- A request for an output asks for a conversion, and nothing is written without the output. -/
theorem bare_of_output {request : Request} {path : String} (h : request.output? = some path) :
    request.conversion.isSome ∧ request.bare.output? = none := by
  obtain ⟨conversion, converts, -⟩ := Option.bind_eq_some_iff.mp h
  rw [Request.output?, Request.bare, converts]
  exact ⟨rfl, rfl⟩

/-- What a run writes to the file of its output, it prints without the output option. -/
theorem wrote_of_printed {folder : Folder} {arguments : List String} {found : Request}
    {path text name : String} (asked : request (separate arguments).cleaned = .ok found)
    (output : found.output? = some path) (target : Folder.target? folder path = some name)
    (prints : (perform Folder.access (separate arguments).options found.bare).run folder =
      (.printed text, folder))
    (writes : runOn folder arguments = (.written, Fields.put folder name text)) :
    Wrote folder arguments name where
  succeeded := by rw [writes]; rfl
  silent := by rw [writes]; rfl
  named := by
    rw [outputFile?, asked]
    dsimp only
    rw [output]
    exact target
  alone other different := by
    rw [writes, Fields.get?_put, if_neg different.symm]
  printed others same := by
    have runs : runOn folder others = (.printed text, folder) := by
      rw [runOn, run_withoutOutput asked (bare_of_output output).1 same, prints]
    rw [runs, writes, Fields.get?_put, if_pos rfl]
    exact ⟨rfl, rfl, rfl⟩

/-- A run leaves all files as they were, or it wrote one. -/
theorem runOn_cases (folder : Folder) (arguments : List String) :
    (runOn folder arguments).2 = folder ∨ ∃ name, Wrote folder arguments name := by
  cases asked : request (separate arguments).cleaned with
  | error halt =>
    left
    rw [runOn, run, asked]
    rfl
  | ok found =>
    have runs : runOn folder arguments =
        (perform Folder.access (separate arguments).options found).run folder := by
      rw [runOn, run, asked]
    cases output : found.output? with
    | none =>
      left
      rw [runs]
      exact perform_readsOnly _ output folder
    | some path =>
      have unchanged :=
        perform_readsOnly (separate arguments).options (bare_of_output output).2 folder
      rw [perform_redirect _ output] at runs
      cases listed : found.listFormats with
      | true =>
        left
        rw [runs, if_pos listed, unchanged]
      | false =>
        rw [listed, if_neg Bool.false_ne_true] at runs
        rcases redirect_cases folder path _ with kept | ⟨text, name, prints, target, writes⟩
        · left
          rw [runs, kept]
        · right
          exact ⟨name, wrote_of_printed asked output target (Prod.ext prints unchanged)
            (runs.trans writes)⟩

/-- The program does all or nothing. A run that fails leaves all files as they were and prints
nothing; a run after which a file differs wrote that file, and no other. What it wrote is what the
run prints whose arguments are the same but for the output. -/
theorem runOn_all_or_nothing (folder : Folder) (arguments : List String) :
    ((runOn folder arguments).1.status ≠ 0 →
      (runOn folder arguments).2 = folder ∧ (runOn folder arguments).1.output = "") ∧
    (∀ name, Fields.get? (runOn folder arguments).2 name ≠ Fields.get? folder name →
      Wrote folder arguments name) ∧
    ∃ others, WithoutOutput arguments others := by
  refine ⟨?_, ?_, exists_withoutOutput arguments⟩
  · intro failed
    refine ⟨?_, Ending.output_of_failure failed⟩
    rcases runOn_cases folder arguments with kept | ⟨name, wrote⟩
    · exact kept
    · exact (failed wrote.succeeded).elim
  · intro name differs
    rcases runOn_cases folder arguments with kept | ⟨other, wrote⟩
    · rw [kept] at differs
      exact (differs rfl).elim
    · have same : name = other := by
        by_contra different
        exact differs (wrote.alone name different)
      rw [same]
      exact wrote

def emptyPage : Folder := [("page.json", "\x7b\x7d")]

def pageArguments : List String := ["page.json", "--to", "mitosis-json", "-o", "card"]

def emptyCard : String :=
  "\x7b\n  \"name\": \"MyComponent\",\n  \"state\": \x7b\x7d,\n  \"inputs\": [],\n" ++
    "  \"hooks\": \x7b\x7d,\n  \"children\": [],\n  \"meta\": \x7b\x7d\n\x7d"

def pageConversion : Conversion := ⟨"page.json", none, "mitosis-json", some "card"⟩

theorem formatsOf_pageConversion : formatsOf (registryOf {}) pageConversion = .ok "builder" := rfl

theorem convertText_emptyPage :
    convertText (registryOf {}) "builder" "mitosis-json" [] "\x7b\x7d" = .ok emptyCard := by
  have read : Content.read "\x7b\x7d" = .ok {} := rfl
  have made : Content.toComponent {} {} = .ok { name := "MyComponent" } := by
    rw [Content.toComponent, Content.importElements]
    rfl
  have parsed : (registryOf {}).parse "builder" "\x7b\x7d" = .ok { name := "MyComponent" } := by
    change Content.parse {} "\x7b\x7d" = _
    rw [Content.parse, read]
    exact made
  have written : (registryOf {}).write "mitosis-json" [] { name := "MyComponent" } =
      .ok emptyCard := rfl
  rw [convertText, parsed]
  dsimp only
  rw [written]

/-- The page is converted, one step of the run after the other. -/
theorem runOn_emptyPage :
    runOn emptyPage pageArguments =
      (.written, emptyPage ++ [("card", emptyCard ++ "\n")]) := by
  have asked : request (separate pageArguments).cleaned =
      .ok ⟨none, false, some pageConversion⟩ := rfl
  have loads : (loadSettings Folder.access none).run emptyPage = (.ok {}, emptyPage) := rfl
  have overrides : applyOverrides {} (separate pageArguments).options = ({}, []) := rfl
  have reads : Folder.readFile emptyPage pageConversion.input = .ok "\x7b\x7d" := rfl
  have writes : Folder.writeFile emptyPage "card" (emptyCard ++ "\n") =
      .ok (emptyPage ++ [("card", emptyCard ++ "\n")]) := rfl
  rw [runOn, run, asked]
  dsimp only
  rw [perform, run_bind, loads]
  dsimp only
  rw [overrides]
  dsimp only
  rw [if_neg Bool.false_ne_true, convert, formatsOf_pageConversion]
  dsimp only
  rw [run_bind, read_run, reads]
  dsimp only [pageConversion]
  rw [convertText_emptyPage]
  dsimp only
  rw [run_bind, write_run, writes]
  rfl

/-- The run on the page wrote the file that was missing. -/
theorem emptyPage_wrote :
    Fields.get? (runOn emptyPage pageArguments).2 "card" ≠ Fields.get? emptyPage "card" ∧
      Wrote emptyPage pageArguments "card" := by
  have differs :
      Fields.get? (runOn emptyPage pageArguments).2 "card" ≠ Fields.get? emptyPage "card" := by
    rw [runOn_emptyPage]
    exact nofun
  exact ⟨differs, (runOn_all_or_nothing emptyPage pageArguments).2.1 "card" differs⟩

end BlockLoom.CommandLine
