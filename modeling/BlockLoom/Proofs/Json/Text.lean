import BlockLoom.Json.Writer
import BlockLoom.Proofs.Json.Scalar
import BlockLoom.Proofs.Json.Settled

/-!
The text of a value reads back as the value. The numbers of the value must be
integers, since floating-point arithmetic is not reasoned about, and the value
must not be nested deeper than a reader follows. An object that was written with
repeated members is read with the last value of each.
-/

namespace BlockLoom.Json

/-! ## Values that can be read back -/

mutual

/-- Whether every number of a value is an admitted integer. -/
def isIntegral : Json → Bool
  | .number value => decide value.IsInteger
  | .array items => areIntegral items
  | .object members => haveIntegral members
  | _ => true

def areIntegral : List Json → Bool
  | [] => true
  | item :: items => isIntegral item && areIntegral items

def haveIntegral : List (String × Json) → Bool
  | [] => true
  | (_, value) :: members => isIntegral value && haveIntegral members

end

mutual

/-- How many brackets are open at once in the text of a value. -/
def nesting : Json → Nat
  | .array items => nestingItems items + 1
  | .object members => nestingMembers members + 1
  | _ => 0

def nestingItems : List Json → Nat
  | [] => 0
  | item :: items => max (nesting item) (nestingItems items)

def nestingMembers : List (String × Json) → Nat
  | [] => 0
  | (_, value) :: members => max (nesting value) (nestingMembers members)

end

/-! ## White space -/

theorem skipBlank_cons {c : Char} (h : isBlank c = false) (rest : List Char) :
    skipBlank (c :: rest) = c :: rest := by
  rw [skipBlank, h]
  rfl

theorem skipBlank_append {blanks : List Char} (h : ∀ c ∈ blanks, isBlank c = true)
    (rest : List Char) : skipBlank (blanks ++ rest) = skipBlank rest := by
  induction blanks with
  | nil => rfl
  | cons c blanks ih =>
    rw [List.cons_append, skipBlank, h c List.mem_cons_self, if_pos rfl]
    exact ih fun d hd => h d (List.mem_cons_of_mem _ hd)

theorem isBlank_newline {layout : Layout} {at' : Nat} {c : Char}
    (h : c ∈ (layout.newline at').toList) : isBlank c = true := by
  cases layout with
  | compact => simp [Layout.newline] at h
  | indented =>
    have split : c = '\n' ∨ c = ' ' := by
      simp [Layout.newline, List.mem_replicate] at h
      tauto
    rcases split with rfl | rfl <;> rfl

theorem skipBlank_newline (layout : Layout) (at' : Nat) (rest : List Char) :
    skipBlank ((layout.newline at').toList ++ rest) = skipBlank rest :=
  skipBlank_append (fun _ => isBlank_newline) rest

theorem endsNumber_newline (layout : Layout) (at' : Nat) {rest : List Char}
    (h : EndsNumber rest) : EndsNumber ((layout.newline at').toList ++ rest) := by
  intro c tail heq
  cases hnew : (layout.newline at').toList with
  | nil =>
    rw [hnew] at heq
    exact h c tail heq
  | cons d blanks =>
    rw [hnew] at heq
    cases heq
    have blank : isBlank c = true := isBlank_newline (hnew ▸ List.mem_cons_self)
    simp only [isBlank, Bool.or_eq_true, beq_iff_eq] at blank
    rcases blank with ((rfl | rfl) | rfl) | rfl <;> decide

/-! ## The beginning of a value -/

/-- A value starts with a character that is no white space and closes nothing. -/
def Opens (text : List Char) : Prop :=
  ∃ c rest, text = c :: rest ∧ isBlank c = false ∧ c ≠ ']'

theorem opens_of_digit {c : Char} (rest : List Char) (h : c.isDigit = true) :
    Opens (c :: rest) := by
  refine ⟨c, rest, rfl, ?_, ?_⟩
  · simp only [isBlank, Bool.or_eq_false_iff, beq_eq_false_iff_ne]
    refine ⟨⟨⟨?_, ?_⟩, ?_⟩, ?_⟩ <;> rintro rfl <;> exact absurd h (by decide)
  · rintro rfl
    exact absurd h (by decide)

theorem toList_ofNat (n : Nat) : (toString (n : Int)).toList = Nat.toDigits 10 n :=
  Nat.toList_repr

theorem toList_negSucc (n : Nat) :
    (toString (Int.negSucc n)).toList = '-' :: Nat.toDigits 10 (n + 1) := by
  have spelled : toString (Int.negSucc n) = "-" ++ Nat.repr (n + 1) := rfl
  rw [spelled, String.toList_append, Nat.toList_repr]
  rfl

theorem toDigits_opens (n : Nat) (rest : List Char) : Opens (Nat.toDigits 10 n ++ rest) := by
  cases h : Nat.toDigits 10 n with
  | nil => exact absurd h Nat.toDigits_ne_nil
  | cons c digits => exact opens_of_digit _ (isDigit_toDigits (h ▸ List.mem_cons_self))

private theorem opens_literal {c : Char} (rest : List Char) (blank : isBlank c = false)
    (bracket : c ≠ ']') : Opens (c :: rest) :=
  ⟨c, rest, rfl, blank, bracket⟩

private theorem integer_opens (value : Int) (rest : List Char) :
    Opens ((toString value).toList ++ rest) := by
  cases value with
  | ofNat n =>
    rw [Int.ofNat_eq_natCast, toList_ofNat]
    exact toDigits_opens n rest
  | negSucc n =>
    rw [toList_negSucc]
    exact opens_literal _ rfl (by decide)

theorem render_opens (layout : Layout) (at' : Nat) {value : Json} (h : value.isIntegral = true)
    (rest : List Char) : Opens ((render layout at' value).toList ++ rest) := by
  match value with
  | .number (.integer whole) =>
    rw [render, Number.text]
    exact integer_opens whole rest
  | .number (.binary bits) => cases (of_decide_eq_true h : False)
  | .string text =>
    rw [render, toList_quote]
    exact opens_literal _ rfl (by decide)
  | .null | .bool true | .bool false | .array [] | .object [] | .array (_ :: _)
  | .object (_ :: _) =>
    simp only [render, String.toList_append, List.append_assoc, String.reduceToList,
      List.cons_append]
    exact opens_literal _ rfl (by decide)

theorem Opens.skipBlank {text : List Char} (h : Opens text) : skipBlank text = text := by
  obtain ⟨c, rest, rfl, blank, -⟩ := h
  exact skipBlank_cons blank rest

/-! ## Between the values -/

theorem nextItem_first (layout : Layout) (at' : Nat) {text : List Char} (h : Opens text) :
    nextItem true ((layout.newline at').toList ++ text) = .ok (some text) := by
  obtain ⟨c, rest, rfl, blank, bracket⟩ := h
  rw [nextItem, skipBlank_newline, skipBlank_cons blank]
  split
  · simp_all
  · simp_all
  · simp_all

theorem nextItem_next (layout : Layout) (at' : Nat) {text : List Char} (h : Opens text) :
    nextItem false (',' :: ((layout.newline at').toList ++ text)) = .ok (some text) := by
  obtain ⟨c, rest, rfl, blank, bracket⟩ := h
  have behind : skipBlank ((layout.newline at').toList ++ c :: rest) = c :: rest := by
    rw [skipBlank_newline, skipBlank_cons blank]
  rw [nextItem, skipBlank_cons (by decide)]
  split
  · simp_all
  · simp_all
  · next comma =>
    obtain ⟨rfl, rfl⟩ := List.cons.inj comma
    rw [if_neg Bool.false_ne_true, if_pos rfl, behind]
    split
    · simp_all
    · simp_all
    · rfl

theorem nextItem_closing (layout : Layout) (at' : Nat) (first : Bool) (rest : List Char) :
    nextItem first ((layout.newline at').toList ++ ']' :: rest) = .ok none := by
  rw [nextItem, skipBlank_newline, skipBlank_cons (by decide)]
  rfl

theorem closeList_closing (layout : Layout) (at' : Nat) (rest : List Char) :
    (closeList ((layout.newline at').toList ++ ']' :: rest)).1 = .ok rest := by
  rw [closeList, skipBlank_newline, skipBlank_cons (by decide)]
  rfl

/-- A key that stands between quotes at the place reached. -/
private theorem keyAt (key : String) (rest : List Char) :
    (match readString (key.toList.flatMap escapeChar ++ '"' :: rest) with
      | .ok read => .ok (some read)
      | .error fault => .error fault : Except Fault (Option (String × List Char))) =
      .ok (some (key, rest)) := by
  rw [readString_quote]

theorem toList_quote_append (key : String) (rest : List Char) :
    (quote key).toList ++ rest = '"' :: (key.toList.flatMap escapeChar ++ '"' :: rest) := by
  simp [toList_quote]

theorem nextKey_first (layout : Layout) (at' : Nat) (key : String) (rest : List Char) :
    nextKey true ((layout.newline at').toList ++ ((quote key).toList ++ rest)) =
      .ok (some (key, rest)) := by
  rw [nextKey, skipBlank_newline, toList_quote_append, skipBlank_cons (by decide)]
  exact keyAt key rest

theorem nextKey_next (layout : Layout) (at' : Nat) (key : String) (rest : List Char) :
    nextKey false (',' :: ((layout.newline at').toList ++ ((quote key).toList ++ rest))) =
      .ok (some (key, rest)) := by
  have behind : skipBlank ((layout.newline at').toList ++ ((quote key).toList ++ rest)) =
      '"' :: (key.toList.flatMap escapeChar ++ '"' :: rest) := by
    rw [skipBlank_newline, toList_quote_append, skipBlank_cons (by decide)]
  rw [nextKey, skipBlank_cons (by decide)]
  dsimp only
  split
  · simp_all
  · simp_all
  · next comma =>
    obtain ⟨rfl, rfl⟩ := List.cons.inj comma
    rw [if_neg Bool.false_ne_true, if_pos rfl, behind]
    exact keyAt key rest

theorem nextKey_closing (layout : Layout) (at' : Nat) (first : Bool) (rest : List Char) :
    nextKey first ((layout.newline at').toList ++ '\x7d' :: rest) = .ok none := by
  rw [nextKey, skipBlank_newline, skipBlank_cons (by decide)]
  rfl

theorem closeObject_closing (layout : Layout) (at' : Nat) (rest : List Char) :
    (closeObject ((layout.newline at').toList ++ '\x7d' :: rest)).1 = .ok rest := by
  rw [closeObject, skipBlank_newline, skipBlank_cons (by decide)]
  rfl

/-- Behind the colon, white space aside, stands what follows it. -/
theorem readColon_colon (layout : Layout) {text : List Char} (h : Opens text) :
    ∃ after, readColon (layout.colon.toList ++ text) = .ok after ∧ skipBlank after = text := by
  cases layout with
  | compact => exact ⟨text, rfl, h.skipBlank⟩
  | indented => exact ⟨' ' :: text, rfl, h.skipBlank⟩

/-! ## Values -/

theorem readAny_digit (deeper : Option (List Char → Reading Json)) {text : List Char}
    (h : startsWithDigit text = true) :
    readAny deeper text = (readNumber true text).map .number := by
  cases text with
  | nil => cases h
  | cons c rest =>
    have digit : c.isDigit = true := h
    rw [readAny.eq_def]
    split <;> simp_all +decide

/-- The text of an admitted integer is read as that integer. -/
theorem readAny_integer (deeper : Option (List Char → Reading Json)) {value : Int}
    {rest : List Char} (h : (Number.integer value).IsInteger) (hr : EndsNumber rest) :
    readAny deeper ((toString value).toList ++ rest) =
      .ok (.number (.integer value), rest) := by
  obtain ⟨least, greatest⟩ := h
  cases value with
  | ofNat n =>
    rw [Int.ofNat_eq_natCast] at greatest ⊢
    have digits : startsWithDigit (Nat.toDigits 10 n ++ rest) = true := by
      cases htext : Nat.toDigits 10 n with
      | nil => exact absurd htext Nat.toDigits_ne_nil
      | cons c digits => exact isDigit_toDigits (htext ▸ List.mem_cons_self)
    rw [toList_ofNat, readAny_digit deeper digits, readNumber_toDigits true n greatest hr]
    rfl
  | negSucc n =>
    have small : ((n + 1 : Nat) : Int) ≤ Number.greatestInteger := by
      rw [Int.negSucc_eq] at least
      unfold Number.leastInteger at least
      unfold Number.greatestInteger
      omega
    rw [toList_negSucc, List.cons_append]
    change (readNumber false (Nat.toDigits 10 (n + 1) ++ rest)).map Json.number = _
    rw [readNumber_toDigits false (n + 1) small hr, wholeNumber_neg (Nat.succ_pos n)]
    · rfl
    · rw [Int.negSucc_eq] at least
      simpa using least

variable {schema : Schema}

/-- The reader of free data that may open as many containers as given. -/
def readDeeper (schema : Schema) : Nat → Option (List Char → Reading Json)
  | 0 => none
  | limit + 1 => some (Shape.read schema limit .any)

theorem read_any (limit : Nat) {text rest : List Char} {c : Char}
    (h : skipBlank text = c :: rest) :
    Shape.read schema limit .any text = readAny (readDeeper schema limit) (c :: rest) := by
  cases limit with
  | zero =>
    rw [Shape.read, Shape.readWith, h]
    rfl
  | succ limit =>
    rw [Shape.read, Shape.readWith, h]
    rfl

theorem length_renderItems (layout : Layout) (at' : Nat) (items : List Json) :
    items.length ≤ (renderItems layout at' items).toList.length := by
  induction items with
  | nil => exact Nat.zero_le _
  | cons item items ih =>
    simp only [renderItems, String.toList_append, List.length_append, List.length_cons]
    have comma : ",".toList.length = 1 := rfl
    omega

theorem length_renderMembers (layout : Layout) (at' : Nat) (members : List (String × Json)) :
    members.length ≤ (renderMembers layout at' members).toList.length := by
  induction members with
  | nil => exact Nat.zero_le _
  | cons member members ih =>
    simp only [renderMembers, String.toList_append, List.length_append, List.length_cons]
    have comma : ",".toList.length = 1 := rfl
    omega

/-- A scalar that is one word, or an empty container, is read at any depth. -/
private theorem readAny_short (deeper : Option (List Char → Reading Json)) (rest : List Char) :
    readAny deeper ('n' :: 'u' :: 'l' :: 'l' :: rest) = .ok (.null, rest) ∧
      readAny deeper ('t' :: 'r' :: 'u' :: 'e' :: rest) = .ok (.bool true, rest) ∧
      readAny deeper ('f' :: 'a' :: 'l' :: 's' :: 'e' :: rest) = .ok (.bool false, rest) :=
  ⟨rfl, rfl, rfl⟩

/-- A comma may follow a number. -/
private theorem endsNumber_comma (rest : List Char) : EndsNumber (',' :: rest) :=
  endsNumber_cons rest (by decide)

theorem endsNumber_items (layout : Layout) (at' : Nat) (items : List Json)
    {closing : List Char} (h : EndsNumber closing) :
    EndsNumber ((renderItems layout at' items).toList ++ closing) := by
  cases items with
  | nil => simpa [renderItems] using h
  | cons item items =>
    simp only [renderItems, String.toList_append, List.append_assoc, String.reduceToList,
      List.cons_append]
    exact endsNumber_comma _

theorem endsNumber_members (layout : Layout) (at' : Nat) (members : List (String × Json))
    {closing : List Char} (h : EndsNumber closing) :
    EndsNumber ((renderMembers layout at' members).toList ++ closing) := by
  cases members with
  | nil => simpa [renderMembers] using h
  | cons member members =>
    simp only [renderMembers, String.toList_append, List.append_assoc, String.reduceToList,
      List.cons_append]
    exact endsNumber_comma _

theorem endsNumber_bracket (layout : Layout) (at' : Nat) (rest : List Char) :
    EndsNumber ((layout.newline at').toList ++ ']' :: rest) :=
  endsNumber_newline layout at' (endsNumber_cons rest (by decide))

theorem endsNumber_brace (layout : Layout) (at' : Nat) (rest : List Char) :
    EndsNumber ((layout.newline at').toList ++ '\x7d' :: rest) :=
  endsNumber_newline layout at' (endsNumber_cons rest (by decide))

theorem areIntegral_iff {items : List Json} :
    areIntegral items = true ↔ ∀ item ∈ items, item.isIntegral = true := by
  induction items with
  | nil => simp [areIntegral]
  | cons item items ih => simp [areIntegral, ih]

theorem haveIntegral_iff {members : List (String × Json)} :
    haveIntegral members = true ↔ ∀ member ∈ members, member.2.isIntegral = true := by
  induction members with
  | nil => simp [haveIntegral]
  | cons member members ih => simp [haveIntegral, ih]

/-! ## Containers -/

/-- A reader takes the text of a value at some depth, whatever stands before and
after it, and yields the given data. -/
def Takes (reader : List Char → Reading Json) (layout : Layout) (at' : Nat)
    (value found : Json) : Prop :=
  ∀ text rest, skipBlank text = (render layout at' value).toList ++ rest → EndsNumber rest →
    reader text = .ok (found, rest)

theorem eq_ok_of_toOption {ε α : Type} {result : Except ε α} {value : α}
    (h : result.toOption = some value) : result = .ok value := by
  cases result with
  | error _ => cases h
  | ok found => exact congrArg Except.ok (Option.some.inj h)

/-- A reader finds the given reading of a value in its text, whatever stands before and
after it, or fails if there is none. -/
def Finds (reader : List Char → Reading Json) (layout : Layout) (at' : Nat) (value : Json)
    (found : Option Json) : Prop :=
  ∀ text rest, skipBlank text = (render layout at' value).toList ++ rest → EndsNumber rest →
    (reader text).toOption = found.map fun value => (value, rest)

theorem Takes.finds {reader : List Char → Reading Json} {layout : Layout} {at' : Nat}
    {value found : Json} (h : Takes reader layout at' value found) :
    Finds reader layout at' value (some found) := by
  intro text rest place ends
  rw [h text rest place ends]
  rfl

variable {reader : List Char → Reading Json} {reading : Json → Option Json}

theorem readItems_step {fuel : Nat} {first : Bool} {text item : List Char}
    (next : nextItem first text = .ok (some item)) :
    (readItems reader (fuel + 1) first text).toOption =
      (reader item).toOption.bind fun read =>
        (readItems reader fuel false read.2).toOption.map fun others =>
          (read.1 :: others.1, others.2) := by
  rw [readItems, next]
  dsimp only
  cases reader item with
  | error fault => rfl
  | ok read =>
    obtain ⟨value, after⟩ := read
    dsimp only
    change _ = (readItems reader fuel false after).toOption.map fun others =>
      (value :: others.1, others.2)
    cases readItems reader fuel false after <;> rfl

theorem readMembers_step {fuel : Nat} {first : Bool} {text behind item : List Char} {key : String}
    (next : nextKey first text = .ok (some (key, behind))) (colon : readColon behind = .ok item) :
    (readMembers reader (fuel + 1) first text).toOption =
      (reader item).toOption.bind fun read =>
        (readMembers reader fuel false read.2).toOption.map fun others =>
          ((key, read.1) :: others.1, others.2) := by
  rw [readMembers, next]
  simp only [readMember, colon]
  cases reader item with
  | error fault => rfl
  | ok read =>
    obtain ⟨value, after⟩ := read
    dsimp only
    change _ = (readMembers reader fuel false after).toOption.map fun others =>
      ((key, value) :: others.1, others.2)
    cases readMembers reader fuel false after <;> rfl

theorem close_toOption {α : Type} (closing : List Char → Except Fault (List Char) × List Char)
    (outcome : Outcome α) :
    (close closing outcome).toOption =
      outcome.toOption.bind fun read =>
        (closing read.2).1.toOption.map fun rest => (read.1, rest) := by
  cases outcome with
  | error refusal => cases refusal <;> rfl
  | ok read =>
    obtain ⟨value, text⟩ := read
    rw [close]
    change _ = Option.map (fun rest => (value, rest)) (closing text).1.toOption
    cases (closing text).1 <;> rfl

theorem render_array_opens (layout : Layout) (at' : Nat) (items : List Json) (rest : List Char) :
    ∃ inner, (render layout at' (.array items)).toList ++ rest = '[' :: inner := by
  cases items with
  | nil => exact ⟨']' :: rest, by simp [render]⟩
  | cons item items =>
    simp only [render, String.toList_append, List.append_assoc, String.reduceToList,
      List.cons_append, List.nil_append]
    exact ⟨_, rfl⟩

theorem render_object_opens (layout : Layout) (at' : Nat) (members : List (String × Json))
    (rest : List Char) :
    ∃ inner, (render layout at' (.object members)).toList ++ rest = '\x7b' :: inner := by
  cases members with
  | nil => exact ⟨'\x7d' :: rest, by simp [render]⟩
  | cons member members =>
    simp only [render, String.toList_append, List.append_assoc, String.reduceToList,
      List.cons_append, List.nil_append]
    exact ⟨_, rfl⟩

def readingOfMembers (reading : Json → Option Json) (members : List (String × Json)) :
    Option (List (String × Json)) :=
  members.mapM fun member => (reading member.2).map fun value => (member.1, value)

theorem readingOfMembers_cons (key : String) (value : Json) (members : List (String × Json)) :
    readingOfMembers reading ((key, value) :: members) =
      (reading value).bind fun value =>
        (readingOfMembers reading members).map fun members => (key, value) :: members := by
  rw [readingOfMembers, List.mapM_cons]
  cases reading value with
  | none => rfl
  | some value =>
    change Option.bind (readingOfMembers reading members) _ = _
    cases readingOfMembers reading members <;> rfl

/-- Items are read one by one up to the closing bracket, or up to one that cannot be read. -/
theorem readItems_finds (layout : Layout) (at' : Nat) (items : List Json) {fuel : Nat}
    {closing : List Char}
    (opens : ∀ item ∈ items, ∀ rest, Opens ((render layout at' item).toList ++ rest))
    (finds : ∀ item ∈ items, Finds reader layout at' item (reading item))
    (enough : items.length < fuel) (closes : nextItem false closing = .ok none)
    (ends : EndsNumber closing) :
    (readItems reader fuel false ((renderItems layout at' items).toList ++ closing)).toOption =
      (items.mapM reading).map fun read => (read, closing) := by
  induction items generalizing fuel with
  | nil =>
    obtain ⟨fuel, rfl⟩ : ∃ less, fuel = less + 1 := ⟨fuel - 1, by omega⟩
    simp only [renderItems, String.reduceToList, List.nil_append]
    rw [readItems, closes]
    rfl
  | cons item items ih =>
    obtain ⟨fuel, rfl⟩ : ∃ less, fuel = less + 1 := ⟨fuel - 1, by omega⟩
    obtain ⟨first, others⟩ := List.forall_mem_cons.mp finds
    obtain ⟨opening, openings⟩ := List.forall_mem_cons.mp opens
    have opens := opening ((renderItems layout at' items).toList ++ closing)
    simp only [renderItems, String.toList_append, List.append_assoc, String.reduceToList,
      List.cons_append, List.nil_append]
    rw [readItems_step (nextItem_next layout at' opens), List.mapM_cons,
      first _ _ opens.skipBlank (endsNumber_items layout at' items ends)]
    cases reading item with
    | none => rfl
    | some value =>
      change Option.map _ (readItems reader fuel false _).toOption = _
      rw [ih openings others (Nat.lt_of_succ_lt_succ enough)]
      cases items.mapM reading <;> rfl

/-- Members are read one by one up to the closing brace, or up to one that cannot be read. -/
theorem readMembers_finds (layout : Layout) (at' : Nat) (members : List (String × Json))
    {fuel : Nat} {closing : List Char}
    (opens : ∀ member ∈ members, ∀ rest, Opens ((render layout at' member.2).toList ++ rest))
    (finds : ∀ member ∈ members, Finds reader layout at' member.2 (reading member.2))
    (enough : members.length < fuel) (closes : nextKey false closing = .ok none)
    (ends : EndsNumber closing) :
    (readMembers reader fuel false ((renderMembers layout at' members).toList ++
        closing)).toOption =
      (readingOfMembers reading members).map fun read => (read, closing) := by
  induction members generalizing fuel with
  | nil =>
    obtain ⟨fuel, rfl⟩ : ∃ less, fuel = less + 1 := ⟨fuel - 1, by omega⟩
    simp only [renderMembers, String.reduceToList, List.nil_append]
    rw [readMembers, closes]
    rfl
  | cons member members ih =>
    obtain ⟨fuel, rfl⟩ : ∃ less, fuel = less + 1 := ⟨fuel - 1, by omega⟩
    obtain ⟨key, value⟩ := member
    obtain ⟨first, others⟩ := List.forall_mem_cons.mp finds
    obtain ⟨opening, openings⟩ := List.forall_mem_cons.mp opens
    obtain ⟨after, colon, stands⟩ := readColon_colon layout (opening
      ((renderMembers layout at' members).toList ++ closing))
    simp only [renderMembers, String.toList_append, List.append_assoc, String.reduceToList,
      List.cons_append, List.nil_append]
    rw [readMembers_step (nextKey_next layout at' key _) colon, readingOfMembers_cons,
      first _ _ stands (endsNumber_members layout at' members ends)]
    cases reading value with
    | none => rfl
    | some found =>
      change Option.map _ (readMembers reader fuel false _).toOption = _
      rw [ih openings others (Nat.lt_of_succ_lt_succ enough)]
      cases readingOfMembers reading members <;> rfl

/-- What stands behind the opening bracket of a list is read as its items. -/
theorem readItems_array_finds (layout : Layout) (at' : Nat) (items : List Json)
    {inner rest : List Char}
    (opens : ∀ item ∈ items, ∀ rest, Opens ((render layout (at' + 1) item).toList ++ rest))
    (finds : ∀ item ∈ items, Finds reader layout (at' + 1) item (reading item))
    (place : (render layout at' (.array items)).toList ++ rest = '[' :: inner) :
    (close closeList (readItems reader inner.length.succ true inner)).toOption =
      (items.mapM reading).map fun read => (read, rest) := by
  cases items with
  | nil =>
    simp only [render, String.reduceToList, List.cons_append, List.nil_append, List.cons.injEq,
      true_and] at place
    subst place
    rfl
  | cons item items =>
    obtain ⟨first, others⟩ := List.forall_mem_cons.mp finds
    obtain ⟨opening, openings⟩ := List.forall_mem_cons.mp opens
    simp only [render, String.toList_append, List.append_assoc, String.reduceToList,
      List.cons_append, List.nil_append, List.cons.injEq, true_and] at place
    have opens := opening
      ((renderItems layout (at' + 1) items).toList ++ ((layout.newline at').toList ++ ']' :: rest))
    have ends := endsNumber_bracket layout at' rest
    have short := length_renderItems layout (at' + 1) items
    have enough : items.length < inner.length := by
      simp only [← place, List.length_append, List.length_cons]
      omega
    have behind := readItems_finds layout (at' + 1) items openings others enough
      (nextItem_closing layout at' false rest) ends
    rw [close_toOption, readItems_step (place ▸ nextItem_first layout _ opens), List.mapM_cons,
      first _ _ opens.skipBlank (endsNumber_items layout _ items ends)]
    cases reading item with
    | none => rfl
    | some value =>
      change Option.bind (Option.map _ (readItems reader inner.length false _).toOption) _ = _
      rw [behind]
      cases items.mapM reading with
      | none => rfl
      | some values =>
        change Option.map _ (closeList ((layout.newline at').toList ++ ']' :: rest)).1.toOption = _
        rw [closeList_closing]
        rfl

/-- What stands behind the opening brace of an object is read as its members. -/
theorem readMembers_object_finds (layout : Layout) (at' : Nat) (members : List (String × Json))
    {inner rest : List Char}
    (opens : ∀ member ∈ members, ∀ rest,
      Opens ((render layout (at' + 1) member.2).toList ++ rest))
    (finds : ∀ member ∈ members, Finds reader layout (at' + 1) member.2 (reading member.2))
    (place : (render layout at' (.object members)).toList ++ rest = '\x7b' :: inner) :
    (close closeObject (readMembers reader inner.length.succ true inner)).toOption =
      (readingOfMembers reading members).map fun read => (read, rest) := by
  cases members with
  | nil =>
    simp only [render, String.reduceToList, List.cons_append, List.nil_append, List.cons.injEq,
      true_and] at place
    subst place
    rfl
  | cons member members =>
    obtain ⟨key, value⟩ := member
    obtain ⟨first, others⟩ := List.forall_mem_cons.mp finds
    obtain ⟨opening, openings⟩ := List.forall_mem_cons.mp opens
    simp only [render, String.toList_append, List.append_assoc, String.reduceToList,
      List.cons_append, List.nil_append, List.cons.injEq, true_and] at place
    obtain ⟨after, colon, stands⟩ := readColon_colon layout (opening
      ((renderMembers layout (at' + 1) members).toList ++
        ((layout.newline at').toList ++ '\x7d' :: rest)))
    have ends := endsNumber_brace layout at' rest
    have short := length_renderMembers layout (at' + 1) members
    have enough : members.length < inner.length := by
      simp only [← place, List.length_append, List.length_cons]
      omega
    have behind := readMembers_finds layout (at' + 1) members openings others enough
      (nextKey_closing layout at' false rest) ends
    rw [close_toOption, readMembers_step (place ▸ nextKey_first layout _ key _) colon,
      readingOfMembers_cons, first _ _ stands (endsNumber_members layout _ members ends)]
    cases reading value with
    | none => rfl
    | some found =>
      change Option.bind (Option.map _ (readMembers reader inner.length false _).toOption) _ = _
      rw [behind]
      cases readingOfMembers reading members with
      | none => rfl
      | some read =>
        change Option.map _ (closeObject ((layout.newline at').toList ++
          '\x7d' :: rest)).1.toOption = _
        rw [closeObject_closing]
        rfl

/-- Items that a reader takes are read up to the closing bracket. -/
theorem readItems_array {convert : Json → Json} (layout : Layout) (at' : Nat) (items : List Json)
    {inner rest : List Char} (integral : areIntegral items = true)
    (takes : ∀ item ∈ items, Takes reader layout (at' + 1) item (convert item))
    (place : (render layout at' (.array items)).toList ++ rest = '[' :: inner) :
    close closeList (readItems reader inner.length.succ true inner) =
      .ok (items.map convert, rest) := by
  have opens : ∀ item ∈ items, ∀ rest, Opens ((render layout (at' + 1) item).toList ++ rest) :=
    fun item member => render_opens layout _ (areIntegral_iff.mp integral item member)
  have finds := readItems_array_finds layout at' items opens
    (fun item member => (takes item member).finds) place
  have read : items.mapM (fun item => some (convert item)) = some (items.map convert) :=
    List.mapM_pure
  rw [read] at finds
  exact eq_ok_of_toOption finds

/-- Members whose values a reader takes are read up to the closing brace. -/
theorem readMembers_object {convert : Json → Json} (layout : Layout) (at' : Nat)
    (members : List (String × Json)) {inner rest : List Char}
    (integral : haveIntegral members = true)
    (takes : ∀ member ∈ members, Takes reader layout (at' + 1) member.2 (convert member.2))
    (place : (render layout at' (.object members)).toList ++ rest = '\x7b' :: inner) :
    close closeObject (readMembers reader inner.length.succ true inner) =
      .ok (Fields.mapValues convert members, rest) := by
  have opens : ∀ member ∈ members, ∀ rest,
      Opens ((render layout (at' + 1) member.2).toList ++ rest) :=
    fun member stored => render_opens layout _ (haveIntegral_iff.mp integral member stored)
  have finds := @readMembers_object_finds _ (fun value => some (convert value)) layout at' members
    _ _ opens (fun member stored => (takes member stored).finds) place
  have read : readingOfMembers (fun value => some (convert value)) members =
      some (Fields.mapValues convert members) := List.mapM_pure
  rw [read] at finds
  exact eq_ok_of_toOption finds

/-! ## Values -/

theorem nesting_le_of_mem {items : List Json} {item : Json} (h : item ∈ items) :
    item.nesting ≤ nestingItems items := by
  induction items with
  | nil => cases h
  | cons other items ih =>
    rw [nestingItems]
    rcases List.mem_cons.mp h with rfl | h
    · exact Nat.le_max_left _ _
    · exact Nat.le_trans (ih h) (Nat.le_max_right _ _)

theorem nesting_le_of_member {members : List (String × Json)} {member : String × Json}
    (h : member ∈ members) : member.2.nesting ≤ nestingMembers members := by
  induction members with
  | nil => cases h
  | cons other members ih =>
    rw [nestingMembers]
    rcases List.mem_cons.mp h with rfl | h
    · exact Nat.le_max_left _ _
    · exact Nat.le_trans (ih h) (Nat.le_max_right _ _)

theorem sizeOf_member {members : List (String × Json)} {member : String × Json}
    (h : member ∈ members) : sizeOf member.2 < 1 + sizeOf members := by
  have outer := List.sizeOf_lt_of_mem h
  have inner : sizeOf member.2 < sizeOf member := by
    cases member
    simp only [Prod.mk.sizeOf_spec]
    omega
  omega

/-- The text of a value is read as the value, in either layout, whatever stands before and behind
it. The induction is on the value; containers reduce to their items and members by the lemmas
above. -/
theorem read_render (layout : Layout) (at' : Nat) (value : Json) {limit : Nat}
    (integral : value.isIntegral = true) (deep : value.nesting ≤ limit) :
    Takes (Shape.read schema limit .any) layout at' value value.settled := by
  match value, limit with
  | .null, limit =>
    intro text rest place ends
    simp only [render, String.reduceToList, List.cons_append, List.nil_append] at place
    rw [read_any limit place]
    exact (readAny_short _ rest).1
  | .bool true, limit =>
    intro text rest place ends
    simp only [render, String.reduceToList, List.cons_append, List.nil_append] at place
    rw [read_any limit place]
    exact (readAny_short _ rest).2.1
  | .bool false, limit =>
    intro text rest place ends
    simp only [render, String.reduceToList, List.cons_append, List.nil_append] at place
    rw [read_any limit place]
    exact (readAny_short _ rest).2.2
  | .number (.binary bits), _ => cases (of_decide_eq_true integral : False)
  | .number (.integer whole), limit =>
    intro text rest place ends
    obtain ⟨c, tail, htext, -⟩ := integer_opens whole rest
    rw [render, Number.text] at place
    rw [read_any limit (place.trans htext), ← htext]
    exact readAny_integer _ (of_decide_eq_true integral) ends
  | .string value, limit =>
    intro text rest place ends
    rw [render, toList_quote_append] at place
    rw [read_any limit place]
    change (readString (value.toList.flatMap escapeChar ++ '"' :: rest)).map Json.string = _
    rw [readString_quote]
    rfl
  | .array _, 0 | .object _, 0 => simp [nesting] at deep
  | .array items, limit + 1 =>
    intro text rest place ends
    obtain ⟨inner, opened⟩ := render_array_opens layout at' items rest
    have takes : ∀ item ∈ items,
        Takes (Shape.read schema limit .any) layout (at' + 1) item item.settled := by
      intro item member
      have smaller := List.sizeOf_lt_of_mem member
      exact read_render layout (at' + 1) item (areIntegral_iff.mp integral item member)
        (Nat.le_trans (nesting_le_of_mem member) (Nat.le_of_succ_le_succ deep))
    rw [read_any _ (place.trans opened)]
    change (close closeList (readItems _ inner.length.succ true inner)).map Json.array = _
    rw [readItems_array layout at' items integral takes opened, settled, settledItems_eq]
    rfl
  | .object members, limit + 1 =>
    intro text rest place ends
    obtain ⟨inner, opened⟩ := render_object_opens layout at' members rest
    have takes : ∀ member ∈ members,
        Takes (Shape.read schema limit .any) layout (at' + 1) member.2 member.2.settled := by
      intro member stored
      have smaller := sizeOf_member stored
      exact read_render layout (at' + 1) member.2 (haveIntegral_iff.mp integral member stored)
        (Nat.le_trans (nesting_le_of_member stored) (Nat.le_of_succ_le_succ deep))
    rw [read_any _ (place.trans opened)]
    change (close closeObject (readMembers _ inner.length.succ true inner)).map
      (fun read => Json.object (Fields.ofEntries read)) = _
    rw [readMembers_object layout at' members integral takes opened, settled, settledMembers_eq]
    rfl
termination_by sizeOf value

/-- What a reader takes for the text of a value is what the whole text is parsed as. -/
theorem Shape.parse_of_takes {shape : Shape} {layout : Layout} {value found : Json}
    (integral : value.isIntegral = true)
    (takes : Takes (shape.read schema maxDepth) layout 0 value found) :
    shape.parse schema (render layout 0 value) = .ok found := by
  have opens := render_opens layout 0 integral []
  rw [List.append_nil] at opens
  have read := takes _ [] (by rw [opens.skipBlank, List.append_nil]) endsNumber_nil
  rw [Shape.parse]
  simp only [read]
  rfl

/-- A text written in some layout reads back as the value, settled. -/
theorem parse_render (layout : Layout) {value : Json} (integral : value.isIntegral = true)
    (deep : value.nesting ≤ maxDepth) : parse (render layout 0 value) = .ok value.settled :=
  Shape.parse_of_takes integral (read_render layout 0 value integral deep)

end BlockLoom.Json
