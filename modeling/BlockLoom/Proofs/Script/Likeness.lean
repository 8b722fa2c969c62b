import BlockLoom.Proofs.Script.Program

/-!
What scanners cannot tell apart. A scanner sees the text from its place on and nothing
else: not how many characters stand before, and not how deep the grammar has been unrolled
if that is deep enough for the text. A likeness relates the places and the trees of two
runs; scanners that are built from the same steps run alike at like places.
-/

namespace BlockLoom.Script

open Scan

variable {α β : Type}

/-- A relation between places with the same text and between trees of the same kind that
moving on and making nodes preserve. -/
structure Likeness where
  place : Cursor → Cursor → Prop
  tree : Tree → Tree → Prop
  rest {here here' : Cursor} : place here here' → here.rest = here'.rest
  advance {here here' : Cursor} (count : Nat) : place here here' →
    place (here.advance count) (here'.advance count)
  kind {tree₁ tree₂ : Tree} : tree tree₁ tree₂ → tree₁.kind = tree₂.kind
  node {kind : Kind} {start start' stop stop' : Cursor} {children children' : List Tree} :
    kind ≠ .broken → place start start' → place stop stop' →
      List.Forall₂ tree children children' →
        tree ⟨kind, start.offset, start.rest.take (stop.offset - start.offset), children⟩
          ⟨kind, start'.offset, start'.rest.take (stop'.offset - start'.offset), children'⟩

/-- Like outcomes of two runs: both fail, or both yield like values and leave like places
with a text shorter than `after`. -/
def Outcomes (L : Likeness) (after : Nat) (like : α → α → Prop)
    (found found' : Option (α × Cursor)) : Prop :=
  (found = none ∧ found' = none) ∨ ∃ value value' there there',
    found = some (value, there) ∧ found' = some (value', there') ∧ like value value' ∧
      L.place there there' ∧ there.rest.length < after

/-- Two scanners run alike on texts shorter than `before`: they have like outcomes at like
places. -/
def Scans (L : Likeness) (before after : Nat) (like : α → α → Prop) (scan scan' : Scan α) : Prop :=
  ∀ here here', L.place here here' → here.rest.length < before →
    Outcomes L after like (scan.run here) (scan'.run here')

theorem Outcomes.found {L : Likeness} {after : Nat} {like : α → α → Prop} {value value' : α}
    {there there' : Cursor} (h : like value value') (place : L.place there there')
    (short : there.rest.length < after) :
    Outcomes L after like (some (value, there)) (some (value', there')) :=
  .inr ⟨_, _, _, _, rfl, rfl, h, place, short⟩

theorem Outcomes.none {L : Likeness} {after : Nat} {like : α → α → Prop} :
    Outcomes L after like none none :=
  .inl ⟨rfl, rfl⟩

theorem Outcomes.bind {L : Likeness} {between after : Nat} {like : α → α → Prop}
    {likewise : β → β → Prop} {scan scan' : Scan α} {next next' : α → Scan β}
    {here here' : Cursor} (h : Outcomes L between like (scan.run here) (scan'.run here'))
    (k : ∀ value value', like value value' →
      Scans L between after likewise (next value) (next' value')) :
    Outcomes L after likewise ((scan >>= next).run here) ((scan' >>= next').run here') := by
  rcases h with ⟨stuck, stuck'⟩ | ⟨_, _, _, _, read, read', alike, there, left⟩
  · rw [run_stuck _ stuck, run_stuck _ stuck']
    exact .none
  · rw [run_then read, run_then read']
    exact k _ _ alike _ _ there left

private theorem markup?_pos {text : List Char} {length : Nat} (h : markup? text = some length) :
    text ≠ [] ∧ length ≠ 0 := by
  unfold markup? at h
  split at h
  · next starts =>
    match text with
    | [] => exact absurd starts (by decide)
    | c :: rest =>
      have open' : c = '<' ∨ c = '-' := by
        simp [List.isPrefixOf] at starts
        rcases starts with ⟨rfl, -⟩ | ⟨rfl, -⟩
        · exact .inl rfl
        · exact .inr rfl
      refine ⟨List.cons_ne_nil _ _, ?_⟩
      obtain rfl := Option.some.inj h
      rcases open' with rfl | rfl <;> simp
  · cases h

namespace Scans

variable {L : Likeness} {before between after size : Nat} {like : α → α → Prop}
  {likewise : β → β → Prop} {scan scan' : Scan α}

/-! ## Steps -/

theorem mono {less more : Nat} (h : Scans L before after like scan scan') (earlier : less ≤ before)
    (later : after ≤ more) : Scans L less more like scan scan' := by
  intro here here' place short
  rcases h here here' place (by omega) with stuck | ⟨_, _, _, _, read, read', alike, next, left⟩
  · exact .inl stuck
  · exact .inr ⟨_, _, _, _, read, read', alike, next, by omega⟩

/-- A scanner that moves on also stays within the shorter texts. -/
theorem stay (h : Scans L (size + 1) size like scan scan') : Scans L size size like scan scan' :=
  h.mono (Nat.le_succ _) (Nat.le_refl _)

/-- A scanner that moves on also stays within the longer texts. -/
theorem keep (h : Scans L (size + 1) size like scan scan') :
    Scans L (size + 1) (size + 1) like scan scan' :=
  h.mono (Nat.le_refl _) (Nat.le_succ _)

/-- A scanner that moves on in all shorter texts stays within them. -/
theorem of_forall (h : ∀ less < size, Scans L (less + 1) less like scan scan') :
    Scans L size size like scan scan' := by
  intro here here' place short
  have moves := (h here.rest.length short).mono (Nat.le_refl _) (Nat.le_of_lt short)
  exact moves here here' place (Nat.lt_succ_self _)

theorem result {value value' : α} (h : like value value') :
    Scans L before before like (pure value) (pure value') :=
  fun _ _ place short => .found h place short

theorem fail : Scans L before after like (failure : Scan α) failure :=
  fun _ _ _ _ => .none

theorem bind {next next' : α → Scan β} (h : Scans L before between like scan scan')
    (k : ∀ value value', like value value' →
      Scans L between after likewise (next value) (next' value')) :
    Scans L before after likewise (scan >>= next) (scan' >>= next') :=
  fun here here' place short => (h here here' place short).bind k

/-- One scanner after another, whatever the first one yields. -/
theorem seq {next next' : Scan β} (h : Scans L before between like scan scan')
    (k : Scans L between after likewise next next') :
    Scans L before after likewise (scan >>= fun _ => next) (scan' >>= fun _ => next') :=
  bind h fun _ _ _ => k

/-- One scanner after another that stays where it is allowed to be. -/
theorem within {first first' : Scan Unit} {next next' : Scan β}
    (h : Scans L before before Eq first first') (k : Scans L before after likewise next next') :
    Scans L before after likewise (first >>= fun _ => next) (first' >>= fun _ => next') :=
  seq h k

theorem orElse {other other' : Scan α} (h : Scans L before after like scan scan')
    (h' : Scans L before after like other other') :
    Scans L before after like (scan <|> other) (scan' <|> other') := by
  intro here here' place short
  rcases h here here' place short with
    ⟨stuck, stuck'⟩ | ⟨_, _, _, _, read, read', alike, there, left⟩
  · rw [run_second _ stuck, run_second _ stuck']
    exact h' here here' place short
  · rw [run_first _ read, run_first _ read']
    exact .found alike there left

/-- A scanner that fails if a condition is met. -/
theorem failIf {condition : Bool} {next next' : Unit → Scan α}
    (h : Scans L before after like (next ()) (next' ())) :
    Scans L before after like (if condition then failure >>= next else next ())
      (if condition then failure >>= next' else next' ()) := by
  split
  · exact within fail h
  · exact h

/-- A step that is only made if a condition is met. -/
theorem step {condition : Bool} {next next' : Scan β}
    (h : Scans L before before like scan scan') (k : Scans L before after likewise next next') :
    Scans L before after likewise (if condition then scan >>= fun _ => next else next)
      (if condition then scan' >>= fun _ => next' else next') := by
  split
  · exact seq h k
  · exact k

theorem ite {condition : Bool} {other other' : Scan α}
    (h : Scans L before after like scan scan') (h' : Scans L before after like other other') :
    Scans L before after like (if condition then scan else other)
      (if condition then scan' else other') := by
  split
  · exact h
  · exact h'

theorem get {next next' : Cursor → Scan α}
    (h : ∀ here here', L.place here here' → here.rest.length < before →
      Scans L before after like (next here) (next' here')) :
    Scans L before after like (MonadState.get >>= next) (MonadState.get >>= next') :=
  fun here here' place short => h here here' place short here here' place short

/-- A return to a place, whatever has been read in between. -/
theorem set {here here' : Cursor} (place : L.place here here') (short : here.rest.length < after) :
    Scans L before after Eq (MonadStateOf.set here) (MonadStateOf.set here') :=
  fun _ _ _ _ => .found rfl place short

/-! ## The next token -/

theorem place_skip {here here' : Cursor} (place : L.place here here') :
    L.place here.skip here'.skip ∧ here.skip.rest.length ≤ here.rest.length := by
  refine ⟨?_, ?_⟩
  · unfold Cursor.skip
    rw [← L.rest place]
    exact L.advance _ place
  · simp [Cursor.skip, Cursor.advance]

theorem trivia : Scans L before before Eq Scan.trivia Scan.trivia := by
  intro here here' place short
  obtain ⟨skipped, least⟩ := place_skip place
  exact .found rfl skipped (Nat.lt_of_le_of_lt least short)

theorem look : Scans L before before Eq Scan.look Scan.look := by
  intro here here' place short
  obtain ⟨skipped, least⟩ := place_skip place
  exact .found (L.rest skipped) skipped (Nat.lt_of_le_of_lt least short)

/-- A scanner that goes on with the text at its place. -/
theorem lookAt {next next' : List Char → Scan α}
    (h : ∀ here here', L.place here here' → here.skip = here → here.rest.length < before →
      Outcomes L after like ((next here.rest).run here) ((next' here.rest).run here')) :
    Scans L before after like (Scan.look >>= next) (Scan.look >>= next') := by
  intro here here' place short
  obtain ⟨skipped, least⟩ := place_skip place
  rw [run_then (run_look here), run_then (run_look here'), ← L.rest skipped]
  exact h _ _ skipped (skip_skip here) (Nat.lt_of_le_of_lt least short)

theorem advance (count : Nat) :
    Scans L before before Eq (Scan.pass count) (Scan.pass count) := by
  intro here here' place short
  refine .found rfl (L.advance count place) ?_
  simp only [Cursor.advance, List.length_drop]
  omega

/-- Where there is text, passing some of it shortens it. -/
theorem pass {here here' : Cursor} {count : Nat} (place : L.place here here')
    (short : here.rest.length < size + 1) (filled : here.rest ≠ []) (some : count ≠ 0) :
    Outcomes L size Eq ((Scan.pass count).run here) ((Scan.pass count).run here') := by
  refine .found rfl (L.advance count place) ?_
  have positive := List.length_pos_of_ne_nil filled
  simp only [Cursor.advance, List.length_drop]
  omega

/-! ## Tokens -/

theorem symbol {token : String} (filled : token ≠ "") :
    Scans L (size + 1) size Eq (Scan.symbol token) (Scan.symbol token) := by
  have positive : token.length ≠ 0 := fun none => filled (String.length_eq_zero_iff.mp none)
  refine lookAt fun here here' place still short => ?_
  split
  · next starts =>
    refine pass place short ?_ positive
    intro empty
    rw [empty] at starts
    have none : token.toList = [] := by simpa using starts
    exact filled (String.toList_eq_nil_iff.mp none)
  · exact .none

/-- A token that may be empty, of which only the staying matters. -/
theorem symbolStays {token : String} :
    Scans L before before Eq (Scan.symbol token) (Scan.symbol token) := by
  refine lookAt fun here here' place still short => ?_
  split
  · exact advance _ here here' place short
  · exact .none

/-- A token before a text that is not longer than expected. -/
private theorem notLonger {token : String} {longer : List Char}
    (h : Scans L before after Eq (Scan.symbol token) (Scan.symbol token)) :
    Scans L before after Eq (Scan.symbolUnless token longer)
      (Scan.symbolUnless token longer) := by
  unfold Scan.symbolUnless
  refine bind h fun _ _ _ => get fun here here' place short => ?_
  rw [← L.rest place]
  split
  · exact ite fail (result rfl)
  · exact result rfl

theorem symbolUnless {token : String} {longer : List Char} (filled : token ≠ "") :
    Scans L (size + 1) size Eq (Scan.symbolUnless token longer)
      (Scan.symbolUnless token longer) :=
  notLonger (symbol filled)

theorem symbolUnlessStays {token : String} {longer : List Char} :
    Scans L before before Eq (Scan.symbolUnless token longer)
      (Scan.symbolUnless token longer) :=
  notLonger symbolStays

theorem peekWord : Scans L before before Eq Scan.peekWord Scan.peekWord :=
  bind look fun _ _ same => result (by rw [same])

theorem word : Scans L (size + 1) size Eq Scan.word Scan.word := by
  intro here here' place short
  obtain ⟨skipped, least⟩ := place_skip place
  unfold Scan.word
  rw [run_then (run_peekWord here), run_then (run_peekWord here'), ← L.rest skipped]
  split
  · exact .none
  · next some =>
    have filled : here.skip.rest ≠ [] := by
      intro empty
      simp [empty] at some
    have positive : (String.ofList (here.skip.rest.take (wordLength here.skip.rest))).length ≠ 0 := by
      intro zero
      exact some (by simp [String.length_eq_zero_iff.mp zero])
    exact (pass skipped (Nat.lt_of_le_of_lt least short) filled positive).bind
      fun _ _ _ => result rfl

theorem keyword (expected : String) :
    Scans L (size + 1) size Eq (Scan.keyword expected) (Scan.keyword expected) := by
  unfold Scan.keyword
  refine bind word fun found _ same => ?_
  rw [← same]
  split
  · exact fail
  · exact result rfl

theorem keywordIn (expected : List String) :
    Scans L (size + 1) size Eq (Scan.keywordIn expected) (Scan.keywordIn expected) := by
  unfold Scan.keywordIn
  refine bind word fun found _ same => ?_
  rw [← same]
  exact ite fail (result rfl)

/-! ## Alternatives and repetition -/

theorem optional? (h : Scans L before before like scan scan') :
    Scans L before before (Option.Rel like) (Scan.optional? scan) (Scan.optional? scan') :=
  orElse (bind h fun _ _ alike => result (.some alike)) (result .none)

theorem accepts (h : Scans L before before like scan scan') :
    Scans L before before Eq (Scan.accepts scan) (Scan.accepts scan') :=
  orElse (bind h fun _ _ _ => result rfl) (result rfl)

/-- A scanner of which only the moves matter, if it succeeds. -/
theorem tried (h : Scans L before before Eq scan scan') :
    Scans L before before Eq (Scan.accepts scan) (Scan.accepts scan') :=
  accepts h

/-- A scanner that goes on in one of two ways, after the first one or without it. -/
theorem acceptsThen {next next' : Bool → Scan β} (h : Scans L before between like scan scan')
    (yes : Scans L between after likewise (next true) (next' true))
    (no : Scans L before after likewise (next false) (next' false)) :
    Scans L before after likewise (Scan.accepts scan >>= next) (Scan.accepts scan' >>= next') := by
  intro here here' place short
  rcases h here here' place short with
    ⟨stuck, stuck'⟩ | ⟨_, _, _, _, read, read', -, there, left⟩
  · rw [run_then (accepts_stuck stuck), run_then (accepts_stuck stuck')]
    exact no here here' place short
  · rw [run_then (accepts_reads read), run_then (accepts_reads read')]
    exact yes _ _ there left

/-- A scanner that goes on with what the first one yields, or without it. -/
theorem optionalThen {next next' : Option α → Scan β} (h : Scans L before between like scan scan')
    (found : ∀ value value', like value value' →
      Scans L between after likewise (next (some value)) (next' (some value')))
    (missing : Scans L before after likewise (next none) (next' none)) :
    Scans L before after likewise (Scan.optional? scan >>= next)
      (Scan.optional? scan' >>= next') := by
  intro here here' place short
  rcases h here here' place short with
    ⟨stuck, stuck'⟩ | ⟨_, _, _, _, read, read', alike, there, left⟩
  · rw [run_then (optional?_stuck stuck), run_then (optional?_stuck stuck')]
    exact missing here here' place short
  · rw [run_then (optional?_reads read), run_then (optional?_reads read')]
    exact found _ _ alike _ _ there left

theorem absent {scan scan' : Scan Unit} (h : Scans L before before Eq scan scan') :
    Scans L before before Eq (Scan.absent scan) (Scan.absent scan') := by
  unfold Scan.absent
  refine get fun here here' place short => bind (accepts h) fun found _ same => ?_
  rw [← same]
  exact ite (bind (set place short) fun _ _ _ => fail) (result rfl)

theorem manyUpTo (h : Scans L before before like scan scan') (count : Nat) :
    Scans L before before (List.Forall₂ like) (Scan.manyUpTo count scan)
      (Scan.manyUpTo count scan') := by
  induction count with
  | zero => exact result .nil
  | succ count ih =>
    unfold Scan.manyUpTo
    refine bind (optional? h) fun value value' alike => ?_
    cases alike with
    | none => exact result .nil
    | some alike => exact bind ih fun _ _ others => result (.cons alike others)

theorem many (h : Scans L before before like scan scan') :
    Scans L before before (List.Forall₂ like) (Scan.many scan) (Scan.many scan') := by
  unfold Scan.many
  refine get fun here here' place _ => ?_
  rw [← L.rest place]
  exact manyUpTo h _

/-- A scanner of which only the moves matter, as often as it succeeds. -/
theorem repeated (h : Scans L before before Eq scan scan') :
    Scans L before before (List.Forall₂ Eq) (Scan.many scan) (Scan.many scan') :=
  many h

/-! ## Nodes -/

theorem node {kind : Kind} {start start' : Cursor} {children children' : List Tree}
    (fits : kind ≠ .broken) (place : L.place start start')
    (h : List.Forall₂ L.tree children children') :
    Scans L before before L.tree (Scan.node kind start children)
      (Scan.node kind start' children') :=
  get fun _ _ there _ => result (L.node fits place there h)

theorem spanned {kind : Kind} {scan scan' : Scan (List Tree)} (fits : kind ≠ .broken)
    (h : Scans L before after (List.Forall₂ L.tree) scan scan') :
    Scans L before after L.tree (Scan.spanned kind scan) (Scan.spanned kind scan') :=
  seq trivia <| get fun _ _ place _ => bind h fun _ _ all => node fits place all

theorem leaf {kind : Kind} {scan scan' : Scan Unit} (fits : kind ≠ .broken)
    (h : Scans L before after Eq scan scan') :
    Scans L before after L.tree (Scan.leaf kind scan) (Scan.leaf kind scan') :=
  spanned fits (seq h (result .nil))

/-! ## Ends of statements -/

theorem impliedEnd? (operators : Bool) (fuel : Nat) {here here' : Cursor}
    (place : L.place here here') :
    (Script.impliedEnd? operators fuel here = none ∧
      Script.impliedEnd? operators fuel here' = none) ∨
    ∃ stop stop', Script.impliedEnd? operators fuel here = some stop ∧
      Script.impliedEnd? operators fuel here' = some stop' ∧ L.place stop stop' ∧
      stop.rest.length ≤ here.rest.length := by
  induction fuel generalizing here here' with
  | zero => exact .inl ⟨rfl, rfl⟩
  | succ fuel ih =>
    unfold Script.impliedEnd?
    rw [← L.rest place]
    split
    · exact .inr ⟨here, here', rfl, rfl, place, Nat.le_refl _⟩
    · dsimp only
      split
      · next length _ =>
        rcases ih (L.advance ((here.rest.takeWhile isBlank).length + length) place) with
          stuck | ⟨stop, stop', found, found', there, left⟩
        · exact .inl stuck
        · refine .inr ⟨stop, stop', found, found', there, Nat.le_trans left ?_⟩
          simp [Cursor.advance]
      · exact .inl ⟨rfl, rfl⟩

theorem continues : Scans L before before Eq Scan.continues Scan.continues := by
  unfold Scan.continues
  refine get fun here here' place _ => ?_
  rw [← L.rest place]
  rcases impliedEnd? true (here.rest.length + 1) place with
    ⟨stuck, stuck'⟩ | ⟨_, _, found, found', -, -⟩
  · rw [stuck, stuck']
    exact result rfl
  · rw [found, found']
    exact fail

/-- The end of a statement by a semicolon or otherwise. -/
theorem endOr {operators : Bool} {other other' : Scan Unit}
    (h : Scans L before before Eq other other') :
    Scans L before before Eq
      (do
        let here ← MonadState.get
        match Script.impliedEnd? operators (here.rest.length + 1) here with
        | some stop => MonadStateOf.set stop
        | none => other)
      (do
        let here ← MonadState.get
        match Script.impliedEnd? operators (here.rest.length + 1) here with
        | some stop => MonadStateOf.set stop
        | none => other') := by
  refine get fun here here' place short => ?_
  rw [← L.rest place]
  rcases impliedEnd? operators (here.rest.length + 1) place with
    ⟨stuck, stuck'⟩ | ⟨_, _, found, found', there, left⟩
  · rw [stuck, stuck']
    exact h
  · rw [found, found']
    exact set there (Nat.lt_of_le_of_lt left short)

theorem statementEnd (operators : Bool) :
    Scans L before before Eq (Scan.statementEnd operators) (Scan.statementEnd operators) := by
  apply endOr
  exact symbolStays

/-- A token of which the length is known makes a leaf. -/
theorem leafPass {kind : Kind} {here here' : Cursor} {count : Nat} (fits : kind ≠ .broken)
    (place : L.place here here') (still : here.skip = here)
    (short : here.rest.length < size + 1) (filled : here.rest ≠ []) (some : count ≠ 0) :
    Outcomes L size L.tree ((Scan.leaf kind (Scan.pass count)).run here)
      ((Scan.leaf kind (Scan.pass count)).run here') := by
  obtain ⟨skipped, -⟩ := place_skip place
  rw [still] at skipped
  have token : Outcomes L size (List.Forall₂ L.tree)
      ((do Scan.pass count; return []).run here) ((do Scan.pass count; return []).run here'.skip) :=
    (pass skipped short filled some).bind fun _ _ _ => result .nil
  unfold Scan.leaf Scan.spanned
  rw [run_then (run_trivia here), run_then (run_trivia here'), still, run_then (run_get _),
    run_then (run_get _)]
  exact token.bind fun _ _ all => node fits skipped all

theorem markup : Scans L (size + 1) size L.tree Scan.markup Scan.markup := by
  refine lookAt fun here here' place still short => ?_
  split
  · next length found =>
    obtain ⟨filled, some⟩ := markup?_pos found
    exact leafPass nofun place still short filled some
  · exact .none

/-! ## Lists -/

theorem forall₂_filterMap {values values' : List (Option α)}
    (h : List.Forall₂ (Option.Rel like) values values') :
    List.Forall₂ like (values.filterMap id) (values'.filterMap id) := by
  induction h with
  | nil => exact .nil
  | cons first _ ih =>
    cases first with
    | none => exact ih
    | some alike => exact .cons alike ih

theorem elements {closing : String} (h : Scans L before before like scan scan') :
    Scans L before before (List.Forall₂ like) (Scan.elements scan closing)
      (Scan.elements scan' closing) := by
  have item : Scans L before before (Option.Rel like)
      (do Scan.symbol ","; Scan.optional? scan) (do Scan.symbol ","; Scan.optional? scan') :=
    bind symbolStays fun _ _ _ => optional? h
  refine bind (optional? h) fun _ _ first => bind (many item) fun _ _ others => ?_
  exact bind symbolStays fun _ _ _ => result (forall₂_filterMap (.cons first others))

/-- A scanner between separators runs like another one. More may be asked of its first run than of
the others, so that the whole moves on if the first run does. -/
theorem separated {comma : String} (h : Scans L before after like scan scan')
    (inner : Scans L after after like scan scan') :
    Scans L before after (List.Forall₂ like) (Scan.separated scan comma)
      (Scan.separated scan' comma) := by
  have item : Scans L after after like (do Scan.symbol comma; scan)
      (do Scan.symbol comma; scan') :=
    bind symbolStays fun _ _ _ => inner
  exact bind h fun _ _ first => bind (many item) fun _ _ others => result (.cons first others)

theorem separatedInside {comma : String} (h : Scans L before before like scan scan') :
    Scans L before before (List.Forall₂ like) (Scan.separated scan comma)
      (Scan.separated scan' comma) :=
  separated h h

theorem listed {comma : String} (h : Scans L before before Eq scan scan') :
    Scans L before before (List.Forall₂ Eq) (Scan.separated scan comma)
      (Scan.separated scan' comma) :=
  separatedInside h

theorem closed {closing : String} (h : Scans L before before like scan scan') :
    Scans L before before (List.Forall₂ like) (Scan.closed scan closing)
      (Scan.closed scan' closing) := by
  have items : Scans L before before (List.Forall₂ like)
      (do
        let items ← Scan.separated scan ","
        let _ ← Scan.accepts (Scan.symbol ",")
        Scan.symbol closing
        return items)
      (do
        let items ← Scan.separated scan' ","
        let _ ← Scan.accepts (Scan.symbol ",")
        Scan.symbol closing
        return items) :=
    bind (separated h h) fun _ _ all =>
      bind (accepts symbolStays) fun _ _ _ => bind symbolStays fun _ _ _ => result all
  unfold Scan.closed
  refine bind (accepts symbolStays) fun empty _ same => ?_
  rw [← same]
  exact ite (result .nil) items

end Scans

/-! ## Grammars -/

/-- Grammars of which all parts run alike on texts shorter than `size`, and move on there. -/
structure Grammars (L : Likeness) (size : Nat) (g g' : Grammar) : Prop where
  expressions (context : Context) : ∀ less < size,
    Scans L (less + 1) less L.tree (g.expression context) (g'.expression context)
  statements : ∀ less < size, Scans L (less + 1) less L.tree g.statement g'.statement
  blocks : ∀ less < size, Scans L (less + 1) less L.tree g.block g'.block
  types : ∀ less < size, Scans L (less + 1) less Eq g.type g'.type
  patterns : ∀ less < size, Scans L (less + 1) less L.tree g.pattern g'.pattern
  signatures : ∀ less < size,
    Scans L (less + 1) less (List.Forall₂ L.tree) g.signature g'.signature

namespace Grammars

variable {L : Likeness} {size : Nat} {g g' : Grammar}

theorem expression (h : Grammars L size g g') (context : Context) :
    Scans L size size L.tree (g.expression context) (g'.expression context) :=
  .of_forall (h.expressions context)

theorem statement (h : Grammars L size g g') : Scans L size size L.tree g.statement g'.statement :=
  .of_forall h.statements

theorem block (h : Grammars L size g g') : Scans L size size L.tree g.block g'.block :=
  .of_forall h.blocks

theorem type (h : Grammars L size g g') : Scans L size size Eq g.type g'.type :=
  .of_forall h.types

theorem pattern (h : Grammars L size g g') : Scans L size size L.tree g.pattern g'.pattern :=
  .of_forall h.patterns

theorem signature (h : Grammars L size g g') :
    Scans L size size (List.Forall₂ L.tree) g.signature g'.signature :=
  .of_forall h.signatures

theorem mono {less : Nat} (h : Grammars L size g g') (fewer : less ≤ size) :
    Grammars L less g g' where
  expressions context least small := h.expressions context least (by omega)
  statements least small := h.statements least (by omega)
  blocks least small := h.blocks least (by omega)
  types least small := h.types least (by omega)
  patterns least small := h.patterns least (by omega)
  signatures least small := h.signatures least (by omega)

end Grammars

end BlockLoom.Script
