import BlockLoom.Proofs.CommandLine.Precedence

/-!
What becomes of each argument. An argument that starts with a mark is a flag, an argument
without a dash right behind a flag is its value, and all others are left over in their order.
The last flag of a parameter decides its value. Lists of arguments can be separated one by one
wherever the first does not end in a flag that would take its value from the second.
-/

namespace BlockLoom.CommandLine

/-! ## Flags -/

def marks : List String := ["--extra-", "--extras-"]

/-- Whether an argument is a flag. -/
def isFlag (argument : String) : Bool :=
  marks.any fun mark => mark.toList.isPrefixOf argument.toList

/-- What stands behind a mark is the name of the parameter. -/
theorem extraKey?_eq_some_iff {argument key : String} :
    extraKey? argument = some key ↔ ∃ mark ∈ marks, argument = mark ++ key := by
  have behind (mark : String) : (Text.after? mark.toList argument.toList).map String.ofList =
      some key ↔ argument = mark ++ key := by
    rw [Text.after?]
    constructor
    · intro found
      split at found
      · next starts =>
        obtain ⟨rest, text⟩ := List.isPrefixOf_iff_prefix.mp starts
        rw [← text, List.drop_left] at found
        rw [← String.toList_inj, ← text, ← Option.some.inj found]
        simp
      · cases found
    · rintro rfl
      rw [String.toList_append, if_pos (by simp), List.drop_left]
      simp
  -- No argument starts with both marks, so the one that is tried first hides nothing.
  have apart : argument = "--extras-" ++ key →
      (Text.after? "--extra-".toList argument.toList).map String.ofList = none := by
    rintro rfl
    rw [Text.after?, String.toList_append]
    rfl
  rw [extraKey?, Option.map_or, Option.or_eq_some_iff, behind, behind]
  simp only [marks, List.mem_cons, List.not_mem_nil, or_false, exists_eq_or_imp, exists_eq_left]
  exact ⟨Or.imp_right And.right, Or.imp_right fun second => ⟨apart second, second⟩⟩

theorem isFlag_eq (argument : String) : isFlag argument = (extraKey? argument).isSome := by
  rw [Bool.eq_iff_iff, isFlag, List.any_eq_true, Option.isSome_iff_exists]
  simp only [extraKey?_eq_some_iff, List.isPrefixOf_iff_prefix]
  constructor
  · rintro ⟨mark, member, rest, text⟩
    refine ⟨String.ofList rest, mark, member, ?_⟩
    rw [← String.toList_inj, ← text]
    simp
  · rintro ⟨key, mark, member, rfl⟩
    exact ⟨mark, member, key.toList, String.toList_append.symm⟩

/-! ## Arguments left over -/

/-- Whether an argument is the value of the one right before it, if there is one. -/
def isTaken (before : Option String) (argument : String) : Bool :=
  before.any isFlag && !isDashed argument

/-- The arguments that are neither flags nor values of flags, with the one before the first. -/
def leftBehind (before : Option String) (arguments : List String) : List String :=
  (((before :: arguments.map some).zip arguments).filter fun neighbours =>
    !isFlag neighbours.2 && !isTaken neighbours.1 neighbours.2).map Prod.snd

/-- The arguments that are neither flags nor values of flags. -/
def leftOver (arguments : List String) : List String :=
  leftBehind none arguments

theorem leftBehind_cons (before : Option String) (argument : String) (rest : List String) :
    leftBehind before (argument :: rest) =
      if isFlag argument || isTaken before argument then leftBehind (some argument) rest
      else argument :: leftBehind (some argument) rest := by
  rw [leftBehind, List.map_cons, List.zip_cons_cons, List.filter_cons]
  cases isFlag argument <;> cases isTaken before argument <;> rfl

/-- What stands before arguments does not matter unless it takes the first of them. -/
theorem leftBehind_free {before : Option String} {arguments : List String}
    (free : ∀ first ∈ arguments.head?, isTaken before first = false) :
    leftBehind before arguments = leftOver arguments := by
  rw [leftOver]
  cases arguments with
  | nil => rfl
  | cons argument rest =>
    rw [leftBehind_cons, leftBehind_cons, free argument rfl]
    rfl

/-- What does not name a parameter takes nothing. -/
theorem isTaken_unmarked {argument : String} (h : extraKey? argument = none) (next : String) :
    isTaken (some argument) next = false := by
  rw [isTaken, Option.any_some, isFlag_eq, h]
  rfl

theorem cleaned_eq_leftOver (arguments : List String) :
    (separate arguments).cleaned = leftOver arguments := by
  fun_induction separate arguments with
  | case1 => rfl
  | case2 argument key marked =>
    rw [leftOver, leftBehind_cons, isFlag_eq, marked]
    rfl
  | case3 argument unmarked =>
    rw [leftOver, leftBehind_cons, isFlag_eq, unmarked]
    rfl
  | case4 argument next rest unmarked others ih =>
    have behind : leftBehind (some argument) (next :: rest) = leftOver (next :: rest) :=
      leftBehind_free fun first _ => isTaken_unmarked unmarked first
    rw [leftOver, leftBehind_cons, behind, isFlag_eq, unmarked, ← ih]
    rfl
  | case5 argument next rest key marked dashed others ih =>
    have behind : leftBehind (some argument) (next :: rest) = leftOver (next :: rest) := by
      refine leftBehind_free fun first member => ?_
      cases member
      rw [isTaken, dashed, Bool.not_true, Bool.and_false]
    rw [leftOver, leftBehind_cons, isFlag_eq, marked, behind, ← ih]
    rfl
  | case6 argument next rest key marked undashed others ih =>
    have plain := eq_false_of_ne_true undashed
    have taken : isTaken (some argument) next = true := by
      rw [isTaken, Option.any_some, isFlag_eq, marked, plain]
      rfl
    have behind : leftBehind (some next) rest = leftOver rest :=
      leftBehind_free fun first _ => isTaken_unmarked (extraKey?_of_undashed plain) first
    rw [leftOver, leftBehind_cons, isFlag_eq, marked, leftBehind_cons, taken, Bool.or_true, behind,
      ← ih]
    rfl

/-- Arguments that are left over are left over again. -/
theorem separate_cleaned (arguments : List String) :
    separate (separate arguments).cleaned = ⟨(separate arguments).cleaned, []⟩ := by
  have alone := @separate_append (separate arguments).cleaned [] extraKey?_cleaned
  rwa [List.append_nil, separate, List.append_nil] at alone

/-! ## The last flag -/

/-- The last flag of a parameter among the arguments gives it a value. -/
def GivenLast (arguments : List String) (key value : String) : Prop :=
  ∃ earlier mark later, arguments = earlier ++ (mark ++ key) :: later ∧ mark ∈ marks ∧
    (∀ other ∈ later, ∀ mark ∈ marks, other ≠ mark ++ key) ∧ value = valueAfter later

theorem any_extraKey? (argument key : String) :
    (extraKey? argument).any [key].contains = true ↔ ∃ mark ∈ marks, argument = mark ++ key := by
  rw [← extraKey?_eq_some_iff, Option.any_eq_true]
  simp

theorem lastValue?_eq_some_iff {arguments : List String} {key value : String} :
    lastValue? [key] arguments = some value ↔ GivenLast arguments key value := by
  have absent {later : List String} : lastValue? [key] later = none ↔
      ∀ other ∈ later, ∀ mark ∈ marks, other ≠ mark ++ key := by
    rw [lastValue?_eq_none]
    simp only [Bool.eq_false_iff, ne_eq, any_extraKey?, not_exists, not_and]
  induction arguments with
  | nil =>
    refine ⟨nofun, ?_⟩
    rintro ⟨earlier, mark, later, text, -⟩
    cases earlier <;> cases text
  | cons argument rest ih =>
    rw [lastValue?, Option.or_eq_some_iff]
    simp only [ih]
    rw [absent]
    constructor
    · rintro (⟨earlier, mark, later, rfl, given⟩ | ⟨last, here⟩)
      · exact ⟨argument :: earlier, mark, later, rfl, given⟩
      · split at here
        · next names =>
          obtain ⟨mark, member, rfl⟩ := (any_extraKey? argument key).mp names
          exact ⟨[], mark, rest, rfl, member, last, (Option.some.inj here).symm⟩
        · cases here
    · rintro ⟨earlier, mark, later, text, member, last, rfl⟩
      cases earlier with
      | nil =>
        obtain ⟨rfl, rfl⟩ := List.cons.inj text
        exact .inr ⟨last, if_pos ((any_extraKey? _ key).mpr ⟨mark, member, rfl⟩)⟩
      | cons first earlier =>
        obtain ⟨rfl, rfl⟩ := List.cons.inj text
        exact .inl ⟨earlier, mark, later, rfl, member, last, rfl⟩

/-! ## One list after another -/

/-- The first list does not end in a flag that takes its value from the second. -/
def Apart (arguments others : List String) : Prop :=
  others.head?.all isDashed = true ∨ arguments.getLast?.any isFlag = false

/-- Lists of which the first takes nothing from the second are separated one by one: what is left
over stands side by side, and the parameters of the second list count before those of the first. -/
theorem Apart.separate {arguments others : List String} (h : Apart arguments others) :
    separate (arguments ++ others) =
      ⟨(separate arguments).cleaned ++ (separate others).cleaned,
        (separate arguments).given ++ (separate others).given⟩ := by
  fun_induction CommandLine.separate arguments with
  | case1 => rfl
  | case2 argument key marked =>
    cases others with
    | nil =>
      simp [CommandLine.separate, marked]
    | cons next rest =>
      have dashed : isDashed next = true := by
        refine h.resolve_right ?_
        rw [List.getLast?_singleton, Option.any_some, isFlag_eq, marked]
        exact Bool.noConfusion
      rw [List.singleton_append, CommandLine.separate, marked]
      dsimp only
      rw [if_pos dashed]
      rfl
  | case3 argument unmarked => exact separate_append (by simpa using unmarked)
  | case4 argument next rest unmarked separated ih =>
    have found := ih h
    rw [List.cons_append] at found
    rw [List.cons_append, List.cons_append, CommandLine.separate, unmarked]
    dsimp only
    rw [found]
    rfl
  | case5 argument next rest key marked dashed separated ih =>
    have found := ih h
    rw [List.cons_append] at found
    rw [List.cons_append, List.cons_append, CommandLine.separate, marked]
    dsimp only
    rw [if_pos dashed, found]
    rfl
  | case6 argument next rest key marked undashed separated ih =>
    have apart : Apart rest others := by
      refine h.imp_right fun last => ?_
      cases rest with
      | nil => rfl
      | cons => exact last
    rw [List.cons_append, List.cons_append, CommandLine.separate, marked]
    dsimp only
    rw [if_neg undashed, ih apart]
    rfl

theorem Apart.get?_options {arguments others : List String} (h : Apart arguments others)
    (key : String) : Fields.get? (CommandLine.separate (arguments ++ others)).options key =
      (Fields.get? (CommandLine.separate others).options key).or
        (Fields.get? (CommandLine.separate arguments).options key) := by
  rw [h.separate]
  exact Fields.get?_ofEntries_append _ _ key

/-- Arguments are separated cleanly. Those left over are, in order, the ones that are neither
flags nor values of flags, and separating them again finds no parameters. A parameter has the
value that its last flag gives it. Two lists of which the first takes nothing from the second
leave over what each leaves over, and the parameters of the second count before the first's. -/
theorem separate_cleanly :
    (∀ arguments : List String, (separate arguments).cleaned = leftOver arguments) ∧
    (∀ (arguments : List String) (key value : String),
      Fields.get? (separate arguments).options key = some value ↔
        GivenLast arguments key value) ∧
    (∀ arguments : List String,
      (separate (separate arguments).cleaned).cleaned = (separate arguments).cleaned ∧
        (separate (separate arguments).cleaned).options = []) ∧
    ∀ arguments others : List String, Apart arguments others →
      (separate (arguments ++ others)).cleaned =
          (separate arguments).cleaned ++ (separate others).cleaned ∧
        ∀ key, Fields.get? (separate (arguments ++ others)).options key =
          (Fields.get? (separate others).options key).or
            (Fields.get? (separate arguments).options key) := by
  refine ⟨cleaned_eq_leftOver, ?_, ?_, ?_⟩
  · intro arguments key value
    rw [get?_options, lastValue?_eq_some_iff]
  · intro arguments
    rw [separate_cleaned]
    exact ⟨rfl, rfl⟩
  · intro arguments others apart
    exact ⟨by rw [apart.separate], apart.get?_options⟩

/-- A flag at the end leaves the option behind it alone, and the later flag counts. -/
theorem pretty_separated :
    Apart ["page.json", "--extra-pretty", "no", "--extras-pretty"] ["--to", "builder"] ∧
      (separate (["page.json", "--extra-pretty", "no", "--extras-pretty"] ++
        ["--to", "builder"])).cleaned = ["page.json", "--to", "builder"] ∧
      Fields.get? (separate (["page.json", "--extra-pretty", "no", "--extras-pretty"] ++
        ["--to", "builder"])).options "pretty" = some "true" := by
  have apart : Apart ["page.json", "--extra-pretty", "no", "--extras-pretty"]
      ["--to", "builder"] := .inl rfl
  obtain ⟨cleaned, options⟩ := separate_cleanly.2.2.2 _ _ apart
  refine ⟨apart, cleaned.trans ?_, (options "pretty").trans ?_⟩ <;> decide +kernel

end BlockLoom.CommandLine
