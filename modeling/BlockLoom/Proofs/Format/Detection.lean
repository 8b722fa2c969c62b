import BlockLoom.Proofs.Format.Registrations

/-!
The format of a file. The last part of a path that is neither empty nor a dot names the file,
and the file has an extension when the extension and a dot stand at its end with something
before them. Of the formats that are registered, the one with the longest such extension is
taken, and several formats are possible only where two of them share that extension.
-/

namespace BlockLoom

namespace Registry

variable {formats : List Format} {registry : Registry} {name path : String}

/-! ## File names -/

/-- A part of a path that is passed over when its file is looked for. -/
def IsPassed (part : List Char) : Prop :=
  part = [] ∨ part = ['.']

/-- A path leads to a file of the given name: the name stands after a directory, if there is
one, and only slashes and single dots follow it. -/
def Names (path : String) (file : List Char) : Prop :=
  '/' ∉ file ∧ ¬IsPassed file ∧ file ≠ ['.', '.'] ∧
    ∃ directory, (directory = [] ∨ directory.getLast? = some '/') ∧
      ∃ after : List (List Char), (∀ part ∈ after, IsPassed part) ∧
        path.toList = directory ++ file ++ after.flatMap ('/' :: ·)

theorem pathParts_ne_nil (text : List Char) : pathParts text ≠ [] := by
  cases text with
  | nil => simp [pathParts]
  | cons c rest =>
    rw [pathParts]
    split
    · simp
    · split <;> simp

theorem pathParts_slash (text rest : List Char) :
    pathParts (text ++ '/' :: rest) = pathParts text ++ pathParts rest := by
  induction text with
  | nil => simp [pathParts]
  | cons c text ih =>
    rw [List.cons_append, pathParts, pathParts, ih]
    cases parts : pathParts text with
    | nil => exact absurd parts (pathParts_ne_nil text)
    | cons part parts => split <;> rfl

theorem pathParts_of_not_mem {part : List Char} (h : '/' ∉ part) : pathParts part = [part] := by
  induction part with
  | nil => rfl
  | cons c part ih =>
    have other : c ≠ '/' := fun same => h (same ▸ List.mem_cons_self)
    rw [pathParts, if_neg other, ih fun member => h (List.mem_cons_of_mem _ member)]

theorem not_mem_pathParts {text part : List Char} (h : part ∈ pathParts text) : '/' ∉ part := by
  induction text generalizing part with
  | nil => simp_all [pathParts]
  | cons c text ih =>
    rw [pathParts] at h
    split at h
    case isTrue =>
      rcases List.mem_cons.mp h with rfl | member
      · simp
      · exact ih member
    case isFalse other =>
      cases parts : pathParts text with
      | nil => exact absurd parts (pathParts_ne_nil text)
      | cons first parts =>
        rw [parts] at h ih
        rcases List.mem_cons.mp h with rfl | member
        · simp [Ne.symm other, ih List.mem_cons_self]
        · exact ih (List.mem_cons_of_mem _ member)

/-- The parts of a path that end in slashes each, and the parts after the first. -/
theorem pathParts_after {part : List Char} (h : '/' ∉ part) {after : List (List Char)}
    (free : ∀ other ∈ after, '/' ∉ other) :
    pathParts (part ++ after.flatMap ('/' :: ·)) = part :: after := by
  induction after generalizing part with
  | nil => rw [List.flatMap_nil, List.append_nil, pathParts_of_not_mem h]
  | cons other after ih =>
    rw [List.flatMap_cons, List.cons_append, pathParts_slash, pathParts_of_not_mem h,
      ih (free other List.mem_cons_self) fun next member => free next (List.mem_cons_of_mem _ member)]
    rfl

/-- A path is its first part and the others with a slash before each. -/
theorem eq_of_pathParts {text part : List Char} {after : List (List Char)}
    (h : pathParts text = part :: after) : text = part ++ after.flatMap ('/' :: ·) := by
  induction text generalizing part after with
  | nil => simp_all [pathParts]
  | cons c text ih =>
    rw [pathParts] at h
    cases parts : pathParts text with
    | nil => exact absurd parts (pathParts_ne_nil text)
    | cons first rest =>
      rw [parts] at h
      split at h
      case isTrue slash =>
        obtain ⟨rfl, rfl⟩ := List.cons.inj h
        rw [slash, ih parts]
        rfl
      case isFalse =>
        obtain ⟨rfl, rfl⟩ := List.cons.inj h
        rw [ih parts]
        rfl

theorem not_mem_of_isPassed {part : List Char} (h : IsPassed part) : '/' ∉ part := by
  rcases h with rfl | rfl <;> decide

theorem isPassed_iff {part : List Char} : IsPassed part ↔ ¬(part ≠ [] ∧ part ≠ ['.']) := by
  simp only [IsPassed, not_and_or, not_not]

/-- The name of a file is the last part of its path that counts. -/
theorem fileName?_eq_some_iff {file : List Char} :
    fileName? path = some file ↔ file ≠ ['.', '.'] ∧ ¬IsPassed file ∧
      ∃ before after, pathParts path.toList = before ++ file :: after ∧
        ∀ part ∈ after, IsPassed part := by
  rw [fileName?, Option.filter_eq_some_iff, List.getLast?_eq_head?_reverse, ← List.filter_reverse,
    List.head?_filter, List.find?_eq_some_iff_append]
  simp only [decide_eq_true_eq, Bool.not_eq_true', decide_eq_false_iff_not, isPassed_iff, not_not]
  constructor
  · rintro ⟨⟨counts, after, before, parts, passed⟩, proper⟩
    refine ⟨proper, counts, before.reverse, after.reverse, ?_, by simpa using passed⟩
    simpa using congrArg List.reverse parts
  · rintro ⟨proper, counts, before, after, parts, passed⟩
    exact ⟨⟨counts, after.reverse, before.reverse, by simp [parts], by simpa using passed⟩, proper⟩

/-- The file that a path leads to is found, and no other. -/
theorem fileName?_iff {file : List Char} : fileName? path = some file ↔ Names path file := by
  rw [fileName?_eq_some_iff]
  constructor
  · rintro ⟨proper, counts, before, after, parts, passed⟩
    have member : file ∈ pathParts path.toList := by simp [parts]
    refine ⟨not_mem_pathParts member, counts, proper, ?_⟩
    cases before with
    | nil => exact ⟨[], .inl rfl, after, passed, eq_of_pathParts parts⟩
    | cons first before =>
      refine ⟨first ++ before.flatMap ('/' :: ·) ++ ['/'], .inr (by simp), after, passed, ?_⟩
      rw [eq_of_pathParts parts]
      simp
  · rintro ⟨free, counts, proper, directory, ends, after, passed, text⟩
    refine ⟨proper, counts, ?_⟩
    have parts := pathParts_after free fun part member => not_mem_of_isPassed (passed part member)
    rcases ends with rfl | ends
    · exact ⟨[], after, by rw [text, List.nil_append, parts]; rfl, passed⟩
    · obtain ⟨above, rfl⟩ := List.getLast?_eq_some_iff.mp ends
      refine ⟨pathParts above, after, ?_, passed⟩
      rw [text, List.append_assoc, List.append_assoc, List.singleton_append, pathParts_slash, parts]

/-! ## Extensions -/

section extensions

variable {file : List Char} {extension other : String}

/-- A file ends in a dot and an extension, with something before the dot. -/
def EndsIn (file : List Char) (extension : String) : Prop :=
  ∃ stem, stem ≠ [] ∧ file = stem ++ '.' :: extension.toList

theorem before?_eq_some_iff {ending text start : List Char} :
    Text.before? ending text = some start ↔ text = start ++ ending := by
  rw [Text.before?]
  constructor
  · intro found
    split at found
    case isTrue ends =>
      obtain ⟨front, rfl⟩ := List.isSuffixOf_iff_suffix.mp ends
      simpa using found
    case isFalse => cases found
  · rintro rfl
    rw [if_pos (List.isSuffixOf_iff_suffix.mpr (List.suffix_append _ _))]
    simp

theorem hasExtension_iff : hasExtension file extension = true ↔ EndsIn file extension := by
  constructor
  · intro ends
    rw [hasExtension] at ends
    cases found : Text.before? extension.toList file with
    | none => simp [found] at ends
    | some front =>
      simp only [found, Bool.and_eq_true, decide_eq_true_eq, beq_iff_eq] at ends
      obtain ⟨stem, rfl⟩ := List.getLast?_eq_some_iff.mp ends.2
      refine ⟨stem, ?_, by simpa using before?_eq_some_iff.mp found⟩
      rintro rfl
      exact absurd ends.1 (by decide)
  · rintro ⟨stem, proper, rfl⟩
    have found : Text.before? extension.toList (stem ++ '.' :: extension.toList) =
        some (stem ++ ['.']) := before?_eq_some_iff.mpr (by simp)
    rw [hasExtension, found]
    simpa using List.length_pos_iff.mpr proper

/-- An ending of a text is shorter in every way, unless it is the whole text. -/
theorem sizes_of_suffix (h : other.toList <:+ extension.toList) :
    (other.utf8ByteSize ≤ extension.utf8ByteSize ∧ other.length ≤ extension.length) ∧
      (extension.utf8ByteSize ≤ other.utf8ByteSize ∨ extension.length ≤ other.length →
        extension = other) := by
  obtain ⟨front, text⟩ := h
  have text : extension = String.ofList front ++ other := by
    apply String.toList_injective
    simp [text]
  have whole (none : front = []) : extension = other := by rw [text, none]; simp
  have bytes : extension.utf8ByteSize = (String.ofList front).utf8ByteSize + other.utf8ByteSize := by
    rw [text, String.utf8ByteSize_append]
  have length : extension.length = front.length + other.length := by rw [text]; simp
  refine ⟨⟨by omega, by omega⟩, ?_⟩
  rintro (all | all)
  · have empty : (String.ofList front).utf8ByteSize = 0 := by omega
    exact whole (by simpa using String.utf8ByteSize_eq_zero_iff.mp empty)
  · exact whole (List.length_eq_zero_iff.mp (by omega))

/-- Extensions of one file compare alike in bytes and in characters. -/
theorem size_le_iff (ends : EndsIn file extension) (others : EndsIn file other) :
    other.utf8ByteSize ≤ extension.utf8ByteSize ↔ other.length ≤ extension.length := by
  obtain ⟨stem, -, rfl⟩ := ends
  obtain ⟨before, -, same⟩ := others
  have suffix : extension.toList <:+ stem ++ '.' :: extension.toList :=
    ⟨stem ++ ['.'], by simp⟩
  have shared : other.toList <:+ stem ++ '.' :: extension.toList :=
    ⟨before ++ ['.'], by simp [same]⟩
  rcases List.suffix_or_suffix_of_suffix shared suffix with inside | inside
  · have ⟨⟨bytes, length⟩, _⟩ := sizes_of_suffix inside
    exact iff_of_true bytes length
  · have ⟨_, whole⟩ := sizes_of_suffix inside
    constructor
    · intro bytes
      rw [whole (.inl bytes)]
    · intro length
      rw [whole (.inr length)]

/-- Extensions of one file that are equally long are the same. -/
theorem eq_of_length_le (ends : EndsIn file extension) (others : EndsIn file other)
    (le : extension.length ≤ other.length) (ge : other.length ≤ extension.length) :
    extension = other := by
  obtain ⟨stem, -, rfl⟩ := ends
  obtain ⟨before, -, same⟩ := others
  have length : (stem ++ ['.']).length = (before ++ ['.']).length := by
    have := congrArg List.length same
    simp only [List.length_append, List.length_cons, String.length_toList] at this
    simp only [List.length_append, List.length_singleton]
    omega
  have parts : (stem ++ ['.']) ++ extension.toList = (before ++ ['.']) ++ other.toList := by
    simpa using same
  exact String.toList_injective (List.append_inj parts length).2

end extensions

/-! ## The longest candidate -/

section longest

variable {candidates earlier : List (String × String)} {candidate : String × String}

theorem longest_eq_none : longest candidates = none ↔ candidates = [] := by
  cases candidates with
  | nil => exact iff_of_true rfl rfl
  | cons first candidates =>
    rw [longest]
    split
    · split <;> simp
    · simp

theorem longest_spec (h : longest candidates = some candidate) :
    candidate ∈ candidates ∧
      ∀ other ∈ candidates, other.1.utf8ByteSize ≤ candidate.1.utf8ByteSize := by
  induction candidates generalizing candidate with
  | nil => cases h
  | cons first candidates ih =>
    rw [longest] at h
    cases found : longest candidates with
    | none =>
      rw [found] at h
      rw [longest_eq_none.mp found, ← Option.some.inj h]
      simp
    | some best =>
      obtain ⟨member, most⟩ := ih found
      rw [found] at h
      dsimp only at h
      split at h
      case isTrue longer =>
        obtain rfl := Option.some.inj h
        exact ⟨List.mem_cons_self, List.forall_mem_cons.mpr
          ⟨le_rfl, fun other among => (most other among).trans longer.le⟩⟩
      case isFalse shorter =>
        obtain rfl := Option.some.inj h
        exact ⟨List.mem_cons_of_mem _ member, List.forall_mem_cons.mpr ⟨not_lt.mp shorter, most⟩⟩

/-- Candidates that stand before one that is as long do not matter. -/
theorem longest_append (member : candidate ∈ candidates)
    (most : ∀ other ∈ earlier, other.1.utf8ByteSize ≤ candidate.1.utf8ByteSize) :
    longest (earlier ++ candidates) = longest candidates := by
  induction earlier with
  | nil => rfl
  | cons first earlier ih =>
    obtain ⟨shorter, most⟩ := List.forall_mem_cons.mp most
    rw [List.cons_append, longest, ih most]
    cases found : longest candidates with
    | none => simp [longest_eq_none.mp found] at member
    | some best =>
      have least := (longest_spec found).2 candidate member
      exact if_neg (by omega)

end longest

/-! ## Detection -/

/-- The format that is registered last under a name has an extension. -/
def Provides (formats : List Format) (name extension : String) : Prop :=
  ∃ format, latest? formats name = some format ∧ extension ∈ format.extensions

/-- No two names have formats with a common extension. -/
def Apart (formats : List Format) : Prop :=
  ∀ first second extension, Provides formats first extension →
    Provides formats second extension → first = second

/-- The longest extension of a file that any format has belongs to the format of a name. -/
def Detected (formats : List Format) (path name : String) : Prop :=
  ∃ file extension, Names path file ∧ Provides formats name extension ∧ EndsIn file extension ∧
    ∀ other longer, Provides formats other longer → EndsIn file longer →
      longer.length ≤ extension.length

theorem Names.unique {file other : List Char} (h : Names path file) (h' : Names path other) :
    file = other :=
  Option.some.inj ((fileName?_iff.mpr h).symm.trans (fileName?_iff.mpr h'))

theorem mem_candidates (kept : registry.Perm (ofFormats formats)) {file : List Char}
    {extension : String} :
    (extension, name) ∈ registry.candidates file ↔
      Provides formats name extension ∧ EndsIn file extension := by
  simp only [candidates, List.mem_flatMap, List.mem_map, List.mem_filter, hasExtension_iff,
    Prod.mk.injEq]
  constructor
  · rintro ⟨⟨key, format⟩, entry, _, ⟨member, ends⟩, rfl, rfl⟩
    have last := (mem_kept kept key format).mp entry
    exact ⟨⟨format, latest?_name last ▸ last, member⟩, ends⟩
  · rintro ⟨⟨format, last, member⟩, ends⟩
    exact ⟨(name, format), (mem_kept kept name format).mpr last, extension, ⟨member, ends⟩, rfl,
      latest?_name last⟩

theorem detect?_eq_some_iff : registry.detect? path = some name ↔
    ∃ file extension, Names path file ∧
      longest (registry.candidates file) = some (extension, name) := by
  simp [detect?, fileName?_iff, Option.bind_eq_some_iff]

/-- What is detected has the longest extension of the file. -/
theorem detected_of_detect? (kept : registry.Perm (ofFormats formats))
    (h : registry.detect? path = some name) : Detected formats path name := by
  obtain ⟨file, extension, named, found⟩ := detect?_eq_some_iff.mp h
  obtain ⟨member, most⟩ := longest_spec found
  obtain ⟨provided, ends⟩ := (mem_candidates kept).mp member
  refine ⟨file, extension, named, provided, ends, fun other longer provides fits => ?_⟩
  exact (size_le_iff ends fits).mp (most _ ((mem_candidates kept).mpr ⟨provides, fits⟩))

theorem detect?_eq_none_iff (kept : registry.Perm (ofFormats formats)) :
    registry.detect? path = none ↔ ∀ file other extension, Names path file →
      Provides formats other extension → ¬EndsIn file extension := by
  constructor
  · intro missing file other extension named provided ends
    rw [detect?, fileName?_iff.mpr named, Option.bind_some, Option.map_eq_none_iff,
      longest_eq_none] at missing
    have member := (mem_candidates kept).mpr ⟨provided, ends⟩
    rw [missing] at member
    cases member
  · intro missing
    refine Option.eq_none_iff_forall_ne_some.mpr fun name found => ?_
    obtain ⟨file, extension, named, provided, ends, _⟩ := detected_of_detect? kept found
    exact missing file name extension named provided ends

/-- Where no extension is shared, the longest one decides. -/
theorem detect?_iff_detected (kept : registry.Perm (ofFormats formats)) (apart : Apart formats) :
    registry.detect? path = some name ↔ Detected formats path name := by
  refine ⟨detected_of_detect? kept, ?_⟩
  rintro ⟨file, extension, named, provided, ends, most⟩
  cases found : registry.detect? path with
  | none => exact absurd ends ((detect?_eq_none_iff kept).mp found _ _ _ named provided)
  | some other =>
    obtain ⟨file', longer, named', provides, fits, longest⟩ := detected_of_detect? kept found
    obtain rfl := named.unique named'
    obtain rfl := eq_of_length_le ends fits (longest name extension provided ends)
      (most other longer provides fits)
    rw [apart other name extension provides provided]

/-- Every name whose format has the longest extension is detected in some order of the entries. -/
theorem exists_detect?_of_detected (h : Detected formats path name) :
    ∃ registry : Registry, registry.Perm (ofFormats formats) ∧
      registry.detect? path = some name := by
  obtain ⟨file, extension, named, ⟨format, last, member⟩, ends, most⟩ := h
  -- The entry comes last, since of equally long extensions the last one is taken.
  let others : Registry := Fields.remove (ofFormats formats) name
  have kept : (others ++ [(name, format)]).Perm (ofFormats formats) :=
    Fields.remove_concat_perm (distinct_ofFormats formats) ((get?_ofFormats formats name).trans last)
  have split : candidates (others ++ [(name, format)]) file =
      candidates others file ++ candidates [(name, format)] file := List.flatMap_append
  have offered : (extension, name) ∈ candidates [(name, format)] file := by
    simpa [candidates, latest?_name last, hasExtension_iff] using ⟨member, ends⟩
  have shorter : ∀ other ∈ candidates others file,
      other.1.utf8ByteSize ≤ extension.utf8ByteSize := by
    rintro ⟨longer, other⟩ among
    obtain ⟨provides, fits⟩ := (mem_candidates kept).mp (split ▸ List.mem_append_left _ among)
    exact (size_le_iff ends fits).mpr (most other longer provides fits)
  refine ⟨others ++ [(name, format)], kept, detect?_eq_some_iff.mpr ?_⟩
  cases found : longest (candidates [(name, format)] file) with
  | none => rw [longest_eq_none.mp found] at offered; cases offered
  | some best =>
    obtain ⟨longer, other⟩ := best
    have belongs : name = other := by
      have among := (longest_spec found).1
      simp only [candidates, List.flatMap_cons, List.flatMap_nil, List.append_nil, List.mem_map,
        Prod.mk.injEq, latest?_name last] at among
      obtain ⟨_, _, _, same⟩ := among
      exact same
    refine ⟨file, longer, named, ?_⟩
    rw [split, longest_append offered shorter, found, belongs]

/-! ## Every look-up -/

structure Follows (registry : Registry) (formats : List Format) : Prop where
  has : ∀ name, Fields.has registry name = true ↔ ∃ format ∈ formats, format.name = name
  find : ∀ name,
    registry.find name = (latest? formats name).elim (.error (.unknownFormat name)) .ok
  parse : ∀ name source, registry.parse name source =
    (latest? formats name).elim (.error (.unknownFormat name)) fun format =>
      if format.reads then format.parse source else .error (.unsupported (.reading name))
  write : ∀ name options component, registry.write name options component =
    (latest? formats name).elim (.error (.unknownFormat name)) fun format =>
      if format.writes then format.writeWith options component
      else .error (.unsupported (.writing name))
  ordered : registry.formatNames.Pairwise (· < ·)
  listed : ∀ name, name ∈ registry.formatNames ↔ ∃ format ∈ formats, format.name = name
  undetected : ∀ path, registry.detect? path = none ↔ ∀ file name extension, Names path file →
    Provides formats name extension → ¬EndsIn file extension
  detected : Apart formats → ∀ path name,
    registry.detect? path = some name ↔ Detected formats path name

/-- The order in which a registry keeps its entries does not matter. -/
theorem follows_of_perm (kept : registry.Perm (ofFormats formats)) : Follows registry formats where
  has := has_kept kept
  find := find_kept kept
  parse name source := by
    rw [parse, find_kept kept]
    cases latest? formats name <;> rfl
  write name options component := by
    rw [write, find_kept kept]
    cases latest? formats name <;> rfl
  ordered := (formatNames_kept kept).1
  listed := (formatNames_kept kept).2
  undetected _ := detect?_eq_none_iff kept
  detected apart _ _ := detect?_iff_detected kept apart

/-- Look-ups depend on the last registration of each name only. Formats that are replaced leave
nothing behind, and where extensions are shared the formats that can be detected are those with
the longest extension of the file. -/
theorem lookups_follow_latest (formats : List Format) :
    (∀ others, (∀ name, latest? formats name = latest? others name) →
      (ofFormats formats).Perm (ofFormats others)) ∧
    (∀ earlier replaced later, formats = earlier ++ replaced :: later →
      replaced.name ∈ later.map Format.name →
      (ofFormats formats).Perm (ofFormats (earlier ++ later))) ∧
    (∀ registry : Registry, registry.Perm (ofFormats formats) → Follows registry formats) ∧
    ∀ path name, Detected formats path name ↔
      ∃ registry : Registry, registry.Perm (ofFormats formats) ∧
        registry.detect? path = some name := by
  refine ⟨fun others same => ofFormats_perm same, ?_, fun registry => follows_of_perm, ?_⟩
  · rintro earlier replaced later rfl again
    exact ofFormats_perm (latest?_replaced earlier later again)
  · refine fun path name => ⟨exists_detect?_of_detected, ?_⟩
    rintro ⟨registry, kept, found⟩
    exact detected_of_detect? kept found

/-- A format that gave up an extension when it was registered again, and one that has it now. -/
def notes : List Format :=
  [{ name := "note", extensions := ["md", "day.md"] }, { name := "text", extensions := ["md"] },
    { name := "note", extensions := ["day.md"] }]

theorem provides_notes {extension : String} (h : Provides notes name extension) :
    (name = "note" ∧ extension = "day.md") ∨ (name = "text" ∧ extension = "md") := by
  obtain ⟨format, last, member⟩ := h
  by_cases note : "note" = name
  · subst note
    obtain rfl := Option.some.inj last
    exact .inl ⟨rfl, by simpa using member⟩
  · by_cases text : "text" = name
    · subst text
      obtain rfl := Option.some.inj last
      exact .inr ⟨rfl, by simpa using member⟩
    · simp [latest?, notes, note, text] at last

theorem notes_apart : Apart notes := by
  intro first second extension provided provides
  rcases provides_notes provided with ⟨rfl, rfl⟩ | ⟨rfl, rfl⟩ <;>
    rcases provides_notes provides with ⟨rfl, same⟩ | ⟨rfl, same⟩ <;> simp_all

theorem notes_detected : Detected notes "week/one.day.md/." "note" := by
  refine ⟨"one.day.md".toList, "day.md", ?_, ⟨_, rfl, by decide⟩, ?_, ?_⟩
  · refine ⟨by decide, by unfold IsPassed; decide, by decide, "week/".toList, .inr (by decide),
      [['.']], ?_, by decide⟩
    simp [IsPassed]
  · exact ⟨"one".toList, by decide, by decide⟩
  · intro name longer provided _
    rcases provides_notes provided with ⟨_, rfl⟩ | ⟨_, rfl⟩ <;> decide

theorem latest?_notes (name : String) : latest? notes name = latest? notes.tail.reverse name := by
  by_cases note : "note" = name
  · subst note
    rfl
  · by_cases text : "text" = name
    · subst text
      rfl
    · simp [latest?, notes, note, text]

theorem notes_followed :
    (ofFormats notes).Perm (ofFormats notes.tail) ∧
      (ofFormats notes).Perm (ofFormats notes.tail.reverse) ∧
      detect? (ofFormats notes).reverse "week/one.day.md/." = some "note" := by
  obtain ⟨same, unreplaced, follows, _⟩ := lookups_follow_latest notes
  refine ⟨unreplaced [] _ notes.tail rfl (by decide), same _ latest?_notes, ?_⟩
  exact ((follows _ (List.reverse_perm _)).detected notes_apart _ _).mpr notes_detected

end Registry

end BlockLoom
