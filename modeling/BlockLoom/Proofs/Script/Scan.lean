import BlockLoom.Script.Grammar
import Mathlib.Data.List.Forall2

/-!
How scanners move the cursor. A scanner reads a text if, whatever acceptable text
follows, it moves exactly past that text; the combinators of the grammar read the
texts that their parts read, one after the other.
-/

namespace BlockLoom.Script

namespace Scan

variable {α β : Type}

/-! ## Steps -/

theorem run_then {scan : Scan α} {next : α → Scan β} {here there : Cursor} {value : α}
    (h : scan.run here = some (value, there)) :
    (scan >>= next).run here = (next value).run there := by
  rw [StateT.run_bind, h]
  rfl

theorem run_stuck {scan : Scan α} {here : Cursor} (next : α → Scan β)
    (h : scan.run here = none) : (scan >>= next).run here = none := by
  rw [StateT.run_bind, h]
  rfl

/-- Of two scanners in a row both have run if there is a result. -/
theorem exists_of_run_bind {scan : Scan α} {next : α → Scan β} {here there : Cursor} {value : β}
    (h : (scan >>= next).run here = some (value, there)) :
    ∃ first mid, scan.run here = some (first, mid) ∧
      (next first).run mid = some (value, there) := by
  rw [StateT.run_bind] at h
  obtain ⟨⟨first, mid⟩, read, rest⟩ := Option.bind_eq_some_iff.mp h
  exact ⟨first, mid, read, rest⟩

theorem run_first {first : Scan α} {here : Cursor} {found : α × Cursor} (second : Scan α)
    (h : first.run here = some found) : (first <|> second).run here = some found := by
  change (first.run here <|> second.run here) = some found
  rw [h]
  rfl

theorem run_second {first : Scan α} {here : Cursor} (second : Scan α)
    (h : first.run here = none) : (first <|> second).run here = second.run here := by
  change (first.run here <|> second.run here) = second.run here
  rw [h]
  rfl

theorem optional?_reads {scan : Scan α} {here there : Cursor} {value : α}
    (h : scan.run here = some (value, there)) :
    (optional? scan).run here = some (some value, there) :=
  run_first _ (run_then h)

theorem optional?_stuck {scan : Scan α} {here : Cursor} (h : scan.run here = none) :
    (optional? scan).run here = some (none, here) :=
  run_second _ (run_stuck _ h)

theorem accepts_reads {scan : Scan α} {here there : Cursor} {value : α}
    (h : scan.run here = some (value, there)) :
    (accepts scan).run here = some (true, there) :=
  run_first _ (run_then h)

theorem accepts_stuck {scan : Scan α} {here : Cursor} (h : scan.run here = none) :
    (accepts scan).run here = some (false, here) :=
  run_second _ (run_stuck _ h)

theorem absent_stuck {scan : Scan α} {here : Cursor} (h : scan.run here = none) :
    (absent scan).run here = some ((), here) := by
  unfold absent
  rw [run_then (show (get : Scan Cursor).run here = some (here, here) from rfl),
    run_then (accepts_stuck h)]
  rfl

/-! ## The next token -/

/-- A text that starts with a token: neither a blank nor a comment. -/
def StartsToken (text : List Char) : Prop :=
  ∃ c rest, text = c :: rest ∧ isBlank c = false ∧ c ≠ '/'

def Blanks (text : List Char) : Prop :=
  ∀ c ∈ text, isBlank c = true

theorem blanks_nil : Blanks [] := by
  intro c mem
  cases mem

theorem blanks_space : Blanks [' '] := by
  intro c mem
  rw [List.mem_singleton.mp mem]
  decide

theorem skip_blanks {blanks text : List Char} (offset : Nat) (hb : Blanks blanks)
    (ht : StartsToken text) :
    Cursor.skip ⟨offset, blanks ++ text⟩ = ⟨offset + blanks.length, text⟩ := by
  obtain ⟨c, rest, rfl, solid, slash⟩ := ht
  have taken : (blanks ++ c :: rest).takeWhile isBlank = blanks := by
    rw [List.takeWhile_append_of_pos hb, List.takeWhile_cons_of_neg (by simp [solid]),
      List.append_nil]
  have comment : comment? (c :: rest) = none := by
    rw [comment?.eq_def]
    split <;> simp_all
  have length : triviaLength (blanks ++ c :: rest).length (blanks ++ c :: rest) =
      blanks.length := by
    rw [List.length_append, List.length_cons, ← Nat.add_assoc]
    simp only [triviaLength, taken, List.drop_left, comment]
  simp only [Cursor.skip, Cursor.advance, length, List.drop_left]

theorem skip_token {text : List Char} (offset : Nat) (ht : StartsToken text) :
    Cursor.skip ⟨offset, text⟩ = ⟨offset, text⟩ :=
  skip_blanks offset blanks_nil ht

theorem run_trivia (here : Cursor) : trivia.run here = some ((), here.skip) := rfl

theorem run_look (here : Cursor) : look.run here = some (here.skip.rest, here.skip) := rfl

theorem run_pass (here : Cursor) (count : Nat) :
    (pass count).run here = some ((), here.advance count) := rfl

theorem run_get (here : Cursor) : (get : Scan Cursor).run here = some (here, here) := rfl

/-- The check that a statement goes on fails, or moves nothing. -/
theorem run_continues (here : Cursor) :
    continues.run here = none ∨ continues.run here = some ((), here) := by
  unfold continues
  rw [run_then (run_get here)]
  split
  · exact .inl rfl
  · exact .inr rfl

theorem continues_stuck {next : Unit → Scan α} {here : Cursor} (h : (next ()).run here = none) :
    (continues >>= next).run here = none := by
  rcases run_continues here with stuck | passed
  · exact run_stuck _ stuck
  · rw [run_then passed, h]

/-- At a token that is no closing brace no statement ends by itself. -/
theorem impliedEnd?_token {c : Char} {rest : List Char} (offset : Nat)
    (solid : isBlank c = false) (slash : c ≠ '/') (brace : c ≠ '\x7d') :
    impliedEnd? true ((c :: rest).length + 1) ⟨offset, c :: rest⟩ = none := by
  have plain : isPlainBlank c = false := by
    by_contra blank
    rw [Bool.not_eq_false, isPlainBlank, Bool.or_eq_true, beq_iff_eq] at blank
    rcases blank with code | rfl
    · simp [isBlank, code] at solid
    · exact absurd solid (by decide)
  have line : c ≠ '\n' := by
    rintro rfl
    exact absurd solid (by decide)
  have open' : endsHere true (c :: rest) = false := by
    rw [endsHere.eq_def]
    split
    · next heq => cases heq
    · next heq => exact absurd (List.cons.inj heq).1 line
    · next heq =>
      obtain ⟨rfl, rfl⟩ := List.cons.inj heq
      simp [brace, plain]
  have uncommented : comment? (c :: rest) = none := by
    rw [comment?.eq_def]
    split
    · next heq => exact absurd (List.cons.inj heq).1 slash
    · next heq => exact absurd (List.cons.inj heq).1 slash
    · rfl
  rw [impliedEnd?]
  simp only [open', Bool.false_eq_true, if_false]
  rw [List.takeWhile_cons_of_neg (by simp [solid]), List.length_nil, List.drop_zero, uncommented]

theorem run_continues_token {c : Char} {rest : List Char} (offset : Nat)
    (solid : isBlank c = false) (slash : c ≠ '/') (brace : c ≠ '\x7d') :
    continues.run ⟨offset, c :: rest⟩ = some ((), ⟨offset, c :: rest⟩) := by
  unfold continues
  rw [run_then (run_get _), impliedEnd?_token offset solid slash brace]
  rfl

/-- A check that passes changes nothing. -/
theorem run_guarded {next : Unit → Scan α} {here : Cursor} (guard : Bool)
    (passed : continues.run here = some ((), here)) :
    (if guard = true then continues >>= next else next ()).run here = (next ()).run here := by
  split
  · rw [run_then passed]
  · rfl

/-- Where nothing can be read, nothing can be read after a check either. -/
theorem guarded_stuck {next : Unit → Scan α} {here : Cursor} (guard : Bool)
    (h : (next ()).run here = none) :
    (if guard = true then continues >>= next else next ()).run here = none := by
  split
  · exact continues_stuck h
  · exact h

/-! ## Tokens -/

theorem symbol_reads {token : String} {c : Char} {blanks rest : List Char} (offset : Nat)
    (hb : Blanks blanks) (ht : StartsToken (c :: rest)) (h : token.toList = [c]) :
    (symbol token).run ⟨offset, blanks ++ c :: rest⟩ =
      some ((), ⟨offset + blanks.length + 1, rest⟩) := by
  unfold symbol
  have one : token.length = 1 := by rw [← String.length_toList, h]; rfl
  rw [run_then (run_look _), skip_blanks offset hb ht, h, one]
  simp [List.isPrefixOf, run_pass, Cursor.advance]

theorem symbol_next {token : String} {c : Char} {rest : List Char} (offset : Nat)
    (ht : StartsToken (c :: rest)) (h : token.toList = [c]) :
    (symbol token).run ⟨offset, c :: rest⟩ = some ((), ⟨offset + 1, rest⟩) :=
  symbol_reads offset blanks_nil ht h

theorem symbol_stuck {token : String} {c d : Char} {others : List Char} {here : Cursor}
    (ht : here.skip.rest.head? = some c) (h : token.toList = d :: others) (different : d ≠ c) :
    (symbol token).run here = none := by
  unfold symbol
  rw [run_then (run_look _), h]
  match hrest : here.skip.rest with
  | [] => rw [hrest] at ht; cases ht
  | e :: rest =>
    rw [hrest] at ht
    cases ht
    have unequal : (d == c) = false := beq_eq_false_iff_ne.mpr different
    simp only [List.isPrefixOf, unequal, Bool.false_and, Bool.false_eq_true, if_false]
    rfl

/-! ## Characters of fixed texts -/

/-- What holds of the characters of a text is decided for one after the other. Without
the detour over the check it might be decided for all characters there are. -/
theorem forall_mem_of_all {p : Char → Prop} [DecidablePred p] {text : List Char}
    (h : text.all (fun c => decide (p c)) = true) : ∀ c ∈ text, p c :=
  fun c mem => of_decide_eq_true (List.all_eq_true.mp h c mem)

/-! ## Words -/

/-- A text that does not go on with a word. -/
def EndsWord (text : List Char) : Prop :=
  ∀ c rest, text = c :: rest → isWordPart c = false ∧ c ≠ '\\'

theorem endsWord_cons {c : Char} (part : isWordPart c = false) (escape : c ≠ '\\')
    (rest : List Char) : EndsWord (c :: rest) := by
  rintro d tail ⟨⟩
  exact ⟨part, escape⟩

theorem wordEscape?_of_ne {c : Char} (rest : List Char) (h : c ≠ '\\') :
    wordEscape? (c :: rest) = none := by
  rw [wordEscape?.eq_def]
  split <;> simp_all

theorem wordLength_stuck {c : Char} (rest : List Char) (start : isWordStart c = false)
    (escape : c ≠ '\\') : wordLength (c :: rest) = 0 := by
  simp [wordLength, start, wordEscape?_of_ne rest escape]

theorem wordRest_reads (name : List Char) {rest : List Char} (fuel : Nat)
    (parts : ∀ c ∈ name, isWordPart c = true) (ends : EndsWord rest)
    (enough : name.length ≤ fuel) : wordRest fuel (name ++ rest) = name.length := by
  induction name generalizing fuel with
  | nil =>
    match fuel, rest with
    | 0, _ => rfl
    | _ + 1, [] => rfl
    | fuel + 1, c :: rest =>
      obtain ⟨part, escape⟩ := ends c rest rfl
      simp [wordRest, part, wordEscape?_of_ne rest escape]
  | cons c name ih =>
    obtain ⟨fuel, rfl⟩ : ∃ less, fuel = less + 1 := ⟨fuel - 1, by simp at enough; omega⟩
    rw [List.cons_append, wordRest, if_pos (parts c List.mem_cons_self),
      ih fuel (fun d mem => parts d (List.mem_cons_of_mem _ mem)) (by simpa using enough),
      List.length_cons]

/-- A word is as long as its characters, whatever ends it. -/
theorem wordLength_reads {c : Char} {name rest : List Char} (start : isWordStart c = true)
    (parts : ∀ d ∈ name, isWordPart d = true) (ends : EndsWord rest) :
    wordLength (c :: name ++ rest) = (c :: name).length := by
  rw [List.cons_append, wordLength, if_pos start, wordRest_reads name _ parts ends, List.length_cons]
  simp only [List.length_cons, List.length_append]
  omega

theorem startsToken_word {c : Char} (rest : List Char) (start : isWordStart c = true) :
    StartsToken (c :: rest) := by
  simp only [isWordStart, isWordPart, Bool.and_eq_true, Bool.not_eq_true'] at start
  refine ⟨c, rest, rfl, start.1.1.2, ?_⟩
  rintro rfl
  exact absurd start.1.2 (by decide)

theorem ne_of_isWordStart {c d : Char} (start : isWordStart c = true) (mark : d ∈ punctuation) :
    c ≠ d := by
  simp only [isWordStart, isWordPart, Bool.and_eq_true, Bool.not_eq_true'] at start
  rintro rfl
  have free := start.1.2
  rw [List.contains_eq_mem, decide_eq_false_iff_not] at free
  exact free mark

def IsWord (text : List Char) : Prop :=
  ∃ c name, text = c :: name ∧ isWordStart c = true ∧ ∀ d ∈ name, isWordPart d = true

theorem run_peekWord (here : Cursor) :
    peekWord.run here =
      some (String.ofList (here.skip.rest.take (wordLength here.skip.rest)), here.skip) := rfl

theorem word_stuck {here : Cursor} (h : wordLength here.skip.rest = 0) : word.run here = none := by
  unfold word
  rw [run_then (run_peekWord here), h]
  rfl

theorem peekWord_reads {c : Char} {name rest : List Char} (offset : Nat)
    (start : isWordStart c = true) (parts : ∀ d ∈ name, isWordPart d = true)
    (ends : EndsWord rest) :
    peekWord.run ⟨offset, c :: name ++ rest⟩ =
      some (String.ofList (c :: name), ⟨offset, c :: name ++ rest⟩) := by
  have token : StartsToken (c :: name ++ rest) := startsToken_word _ start
  rw [run_peekWord, skip_token offset token, wordLength_reads start parts ends, List.take_left]

theorem word_reads {c : Char} {name rest : List Char} (offset : Nat)
    (start : isWordStart c = true) (parts : ∀ d ∈ name, isWordPart d = true)
    (ends : EndsWord rest) :
    word.run ⟨offset, c :: name ++ rest⟩ =
      some (String.ofList (c :: name), ⟨offset + (c :: name).length, rest⟩) := by
  unfold word
  have some_word : (String.ofList (c :: name)).isEmpty = false := by simp
  rw [run_then (peekWord_reads offset start parts ends), some_word]
  have length : (String.ofList (c :: name)).length = (c :: name).length := String.length_ofList
  simp only [Bool.false_eq_true, if_false, length]
  change some (_, Cursor.advance _ _) = _
  simp only [Cursor.advance, List.drop_left]

/-! ## Nodes -/

theorem spanned_reads {kind : Kind} {scan : Scan (List Tree)} {text rest : List Char}
    {children : List Tree} (offset : Nat) (ht : StartsToken (text ++ rest))
    (h : scan.run ⟨offset, text ++ rest⟩ = some (children, ⟨offset + text.length, rest⟩)) :
    (spanned kind scan).run ⟨offset, text ++ rest⟩ =
      some (⟨kind, offset, text, children⟩, ⟨offset + text.length, rest⟩) := by
  unfold spanned
  rw [run_then (run_trivia _), skip_token offset ht, run_then (run_get _), run_then h]
  change some (Tree.mk _ _ (List.take _ _) _, _) = _
  simp only [Nat.add_sub_cancel_left, List.take_left]

theorem spanned_stuck {kind : Kind} {scan : Scan (List Tree)} {here : Cursor}
    (h : scan.run here.skip = none) : (spanned kind scan).run here = none := by
  unfold spanned
  rw [run_then (run_trivia _), run_then (run_get _), run_stuck _ h]

theorem leaf_reads {kind : Kind} {scan : Scan Unit} {text rest : List Char} (offset : Nat)
    (ht : StartsToken (text ++ rest))
    (h : scan.run ⟨offset, text ++ rest⟩ = some ((), ⟨offset + text.length, rest⟩)) :
    (leaf kind scan).run ⟨offset, text ++ rest⟩ =
      some (⟨kind, offset, text, []⟩, ⟨offset + text.length, rest⟩) :=
  spanned_reads offset ht (run_then h)

theorem leaf_stuck {kind : Kind} {scan : Scan Unit} {here : Cursor}
    (h : scan.run here.skip = none) : (leaf kind scan).run here = none :=
  spanned_stuck (run_stuck _ h)

/-! ## Repetition -/

/-- A scanner runs some number of times, each time from where it stopped before,
until it fails. -/
inductive Repeats (scan : Scan α) : Cursor → List α → Cursor → Prop where
  | stop {here : Cursor} : scan.run here = none → Repeats scan here [] here
  | more {here there stop : Cursor} {value : α} {values : List α} :
      scan.run here = some (value, there) → Repeats scan there values stop →
        Repeats scan here (value :: values) stop

theorem manyUpTo_repeats {scan : Scan α} {here stop : Cursor} {values : List α} {count : Nat}
    (h : Repeats scan here values stop) (enough : values.length ≤ count) :
    (manyUpTo count scan).run here = some (values, stop) := by
  induction h generalizing count with
  | stop stuck =>
    match count with
    | 0 => rfl
    | count + 1 =>
      unfold manyUpTo
      rw [run_then (optional?_stuck stuck)]
      rfl
  | more reads _ ih =>
    obtain ⟨count, rfl⟩ : ∃ less, count = less + 1 := ⟨count - 1, by simp at enough; omega⟩
    unfold manyUpTo
    rw [run_then (optional?_reads reads)]
    exact run_then (ih (by simpa using enough))

theorem many_repeats {scan : Scan α} {here stop : Cursor} {values : List α}
    (h : Repeats scan here values stop) (enough : values.length ≤ here.rest.length) :
    (many scan).run here = some (values, stop) := by
  unfold many
  rw [run_then (run_get _)]
  exact manyUpTo_repeats h (by omega)

theorem many_stuck {scan : Scan α} {here : Cursor} (h : scan.run here = none) :
    (many scan).run here = some ([], here) :=
  many_repeats (.stop h) (Nat.zero_le _)

/-! ## Elements between commas -/

/-- A scanner reads a text before any of the given texts and yields a value of it. -/
def Reads (follows : List Char → Prop) (scan : Scan α) (text : List Char) (yields : α → Prop) :
    Prop :=
  ∀ offset rest, follows rest → ∃ value,
    scan.run ⟨offset, text ++ rest⟩ = some (value, ⟨offset + text.length, rest⟩) ∧ yields value

/-- Elements with commas before them follow what they may follow, if the text behind them does. -/
theorem follows_elements {ι : Type} {follows : List Char → Prop} {text : ι → List Char}
    {last : List Char} {items : List ι}
    (comma : ∀ item ∈ items, ∀ rest, follows rest → follows (',' :: (text item ++ rest)))
    (closes : follows last) : follows ((items.flatMap fun item => ',' :: text item) ++ last) := by
  induction items with
  | nil => exact closes
  | cons item items ih =>
    rw [List.flatMap_cons, List.append_assoc, List.cons_append]
    exact comma item List.mem_cons_self _ (ih fun other mem => comma other (List.mem_cons_of_mem _ mem))

/-- What is read after the first element: each further one behind its comma, then `last`. -/
theorem repeats_elements {ι : Type} {follows : List Char → Prop} {scan : Scan α}
    {text : ι → List Char} {yields : ι → α → Prop} {last : List Char} {ending : List (Option α)}
    {stop : Cursor} (items : List ι)
    (reads : ∀ item ∈ items, Reads follows scan (text item) (yields item))
    (comma : ∀ item ∈ items, ∀ rest, follows rest → follows (',' :: (text item ++ rest)))
    (closes : follows last) (offset : Nat)
    (h : Repeats (do symbol ","; optional? scan)
      ⟨offset + (items.flatMap fun item => ',' :: text item).length, last⟩ ending stop) :
    ∃ values, Repeats (do symbol ","; optional? scan)
        ⟨offset, (items.flatMap fun item => ',' :: text item) ++ last⟩ (values.map some ++ ending)
        stop ∧
      List.Forall₂ yields items values := by
  induction items generalizing offset with
  | nil => exact ⟨[], h, .nil⟩
  | cons item items ih =>
    have others : ∀ other ∈ items, ∀ rest, follows rest → follows (',' :: (text other ++ rest)) :=
      fun other mem => comma other (List.mem_cons_of_mem _ mem)
    have followed := follows_elements others closes
    obtain ⟨value, run, yielded⟩ := reads item List.mem_cons_self (offset + 1) _ followed
    obtain ⟨values, repeats, all⟩ :=
      ih (fun other mem => reads other (List.mem_cons_of_mem _ mem)) others
        (offset + 1 + (text item).length) (by simpa [Nat.add_assoc, Nat.add_comm 1] using h)
    refine ⟨value :: values, .more ?_ repeats, .cons yielded all⟩
    rw [List.flatMap_cons, List.append_assoc, List.cons_append]
    exact (run_then (symbol_next offset ⟨',', _, rfl, by decide, by decide⟩ rfl)).trans
      (optional?_reads run)

private theorem length_le_separated {ι : Type} (text : ι → List Char) (items : List ι) :
    items.length ≤ (items.flatMap fun item => ',' :: text item).length := by
  induction items with
  | nil => simp
  | cons item items ih =>
    simp only [List.flatMap_cons, List.length_append, List.length_cons]
    omega

theorem length_le_flatMap {ι : Type} (text : ι → List Char) {items : List ι} {item : ι}
    (mem : item ∈ items) :
    (text item).length ≤ (items.flatMap fun item => ',' :: text item).length := by
  induction items with
  | nil => cases mem
  | cons other items ih =>
    rw [List.flatMap_cons, List.length_append, List.length_cons]
    rcases List.mem_cons.mp mem with rfl | mem
    · omega
    · have least := ih mem
      omega

/-- Each element between brackets is shorter than the whole. -/
theorem length_lt_bracketed {ι : Type} (text : ι → List Char) {item other : ι} {items : List ι}
    (mem : other ∈ item :: items) (bracket : Char) (closing : List Char) :
    (text other).length < (bracket ::
      (text item ++ ((items.flatMap fun item => ',' :: text item) ++ closing))).length := by
  simp only [List.length_cons, List.length_append]
  rcases List.mem_cons.mp mem with rfl | mem
  · omega
  · have least := length_le_flatMap text mem
    omega

/-- Elements with commas between them are read up to the closing bracket, if each of them is read
before what stands behind it: a comma and the next element, or the bracket itself. -/
theorem elements_reads {ι : Type} {follows : List Char → Prop} {scan : Scan α} {closing : String}
    {text : ι → List Char} {yields : ι → α → Prop} {last : List Char} {ending : List (Option α)}
    {stop done : Cursor} (item : ι) (items : List ι)
    (reads : ∀ other ∈ item :: items, Reads follows scan (text other) (yields other))
    (comma : ∀ other ∈ items, ∀ rest, follows rest → follows (',' :: (text other ++ rest)))
    (closes : follows last) (offset : Nat)
    (h : Repeats (do symbol ","; optional? scan)
      ⟨offset + (text item).length + (items.flatMap fun item => ',' :: text item).length, last⟩
      ending stop)
    (few : ending.length ≤ last.length)
    (closed : (symbol closing).run stop = some ((), done)) :
    ∃ values,
      (elements scan closing).run
          ⟨offset, text item ++ ((items.flatMap fun item => ',' :: text item) ++ last)⟩ =
        some (values ++ ending.filterMap id, done) ∧
      List.Forall₂ yields (item :: items) values := by
  obtain ⟨value, run, yielded⟩ :=
    reads item List.mem_cons_self offset _ (follows_elements comma closes)
  obtain ⟨values, repeats, all⟩ :=
    repeats_elements items (fun other mem => reads other (List.mem_cons_of_mem _ mem)) comma closes
      (offset + (text item).length) h
  refine ⟨value :: values, ?_, .cons yielded all⟩
  have enough : (values.map some ++ ending).length ≤
      ((items.flatMap fun item => ',' :: text item) ++ last).length := by
    have least := length_le_separated text items
    simp only [List.length_append, List.length_map, ← all.length_eq]
    omega
  unfold elements
  rw [run_then (optional?_reads run), run_then (many_repeats repeats enough), run_then closed]
  change some (List.filterMap _ _, _) = _
  simp [List.filterMap_append, List.filterMap_map]

end Scan

end BlockLoom.Script
