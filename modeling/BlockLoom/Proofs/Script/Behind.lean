import BlockLoom.Proofs.Script.Constant
import BlockLoom.Proofs.Script.Slice

/-!
What stands behind a statement of a script. A statement is read from the next token on, whatever
stands before it, so that the text behind a statement is a script of its own: the statements in
it are the same, and it is well formed if the whole script is. So is any text that is read as
statements up to there.
-/

namespace BlockLoom.Script

open Scan

variable {α β : Type}

/-! ## The next token -/

/-- A scanner that starts with the next token. -/
def FromToken (scan : Scan α) : Prop :=
  ∀ here, scan.run here = scan.run here.skip

theorem FromToken.bind {scan : Scan α} (h : FromToken scan) (next : α → Scan β) :
    FromToken (scan >>= next) := by
  intro here
  rw [StateT.run_bind, StateT.run_bind, h here]

theorem fromToken_look : FromToken look := by
  intro here
  rw [run_look, run_look, skip_skip]

theorem fromToken_markup : FromToken markup :=
  fromToken_look.bind _

/-- A scanner that moves on whenever it reads something. -/
def Moves (scan : Scan α) : Prop :=
  ∀ here value there, scan.run here = some (value, there) → there.rest.length < here.rest.length

theorem Scans.moves {L : Likeness} {like : α → α → Prop} {scan : Scan α}
    (place : ∀ here, L.place here here) (h : ∀ size, Scans L (size + 1) size like scan scan) :
    Moves scan := by
  intro here value there read
  rcases h here.rest.length here here (place here) (Nat.lt_succ_self _) with
    ⟨stuck, -⟩ | ⟨_, _, _, _, found, -, -, -, short⟩
  · cases read.symm.trans stuck
  · cases read.symm.trans found
    exact short

/-! ## Repetition -/

/-- What is repeated fails where the repetition stops. -/
theorem Scan.Repeats.stuck {scan : Scan α} {here there : Cursor} {values : List α}
    (h : Repeats scan here values there) : scan.run there = none := by
  induction h with
  | stop stuck => exact stuck
  | more _ _ ih => exact ih

namespace Moves

variable {scan : Scan α} {here there : Cursor} {values : List α}

theorem repeats_of_manyUpTo (moves : Moves scan) {count : Nat} (enough : here.rest.length < count)
    (h : (manyUpTo count scan).run here = some (values, there)) :
    Repeats scan here values there := by
  induction count generalizing here values with
  | zero => exact absurd enough (Nat.not_lt_zero _)
  | succ count ih =>
    unfold manyUpTo at h
    cases read : scan.run here with
    | none =>
      rw [run_then (optional?_stuck read)] at h
      cases h
      exact .stop read
    | some found =>
      obtain ⟨value, next⟩ := found
      have short := moves here value next read
      rw [run_then (optional?_reads read)] at h
      obtain ⟨others, stop, rest⟩ := manyUpTo_total scan count next
      rw [run_then rest] at h
      cases h
      exact .more read (ih (by omega) rest)

theorem repeats (moves : Moves scan) (h : (many scan).run here = some (values, there)) :
    Repeats scan here values there := by
  unfold many at h
  rw [run_then (run_get _)] at h
  exact moves.repeats_of_manyUpTo (Nat.lt_succ_self _) h

theorem many (moves : Moves scan) (h : Repeats scan here values there) :
    (many scan).run here = some (values, there) := by
  have fewer : values.length ≤ here.rest.length := by
    induction h with
    | stop _ => exact Nat.zero_le _
    | more read _ ih =>
      have short := moves _ _ _ read
      rw [List.length_cons]
      omega
  exact many_repeats h fewer

/-- A repetition is found from the next token on, if what follows it starts with a token too. -/
theorem fromToken (moves : Moves scan) (token : FromToken scan) {next : List α → Scan β}
    (h : ∀ values, FromToken (next values)) : FromToken (Scan.many scan >>= next) := by
  intro here
  obtain ⟨values, there, read⟩ := manyUpTo_total scan (here.rest.length + 1) here
  have all := moves.repeats_of_manyUpTo (Nat.lt_succ_self _) read
  cases all with
  | stop stuck =>
    rw [run_then (many_stuck stuck), run_then (many_stuck ((token here).symm.trans stuck))]
    exact h [] here
  | more first others =>
    have first' := (token here).symm.trans first
    rw [run_then (moves.many (.more first others)), run_then (moves.many (.more first' others))]

end Moves

/-! ## Statements -/

/-- Places with the same text. -/
def sameText : Likeness where
  place here here' := here.rest = here'.rest
  tree tree tree' := tree.kind = tree'.kind
  rest same := same
  advance count same := congrArg (List.drop count) same
  kind same := same
  node _ _ _ _ := rfl

/-- A grammar runs like itself on every text. -/
theorem grammars_self (L : Likeness) (size level : Nat) :
    Grammars L size (grammar level) (grammar level) := by
  induction level with
  | zero =>
    exact ⟨fun _ _ _ => .fail, fun _ _ => .fail, fun _ _ => .fail, fun _ _ => .fail,
      fun _ _ => .fail, fun _ _ => .fail⟩
  | succ level ih => exact ih.next

theorem moves_statement (level : Nat) : Moves (grammar level).statement :=
  Scans.moves (fun _ => rfl) fun size =>
    (grammars_self sameText (size + 1) level).statements size (Nat.lt_succ_self _)

theorem moves_markup : Moves markup :=
  Scans.moves (fun _ => rfl) fun _ => Scans.markup (L := sameText)

theorem fromToken_statement (level : Nat) : FromToken (grammar level).statement := by
  cases level with
  | zero => exact fun _ => rfl
  | succ level => exact moves_markup.fromToken fromToken_markup fun _ => fromToken_look.bind _

/-- A scanner that yields a node from the next token to where it stops. -/
def IsNode (scan : Scan Tree) : Prop :=
  ∀ here tree there, scan.run here = some (tree, there) → tree.start = here.skip.offset ∧
    tree.text = here.skip.rest.take (there.offset - here.skip.offset)

/-- A scanner that does not pass over the next token. -/
def Stays (scan : Scan α) : Prop :=
  ∀ here value there, scan.run here = some (value, there) → there.skip = here.skip

theorem stays_look : Stays look := by
  intro here value there read
  cases read
  exact skip_skip here

theorem stays_peekWord : Stays peekWord := by
  intro here value there read
  cases read
  exact skip_skip here

/-- A scanner that ends with a node from the given place to where it stops. -/
def EndsNode (start : Cursor) (scan : Scan Tree) : Prop :=
  ∀ here tree there, scan.run here = some (tree, there) → tree.start = start.offset ∧
    tree.text = start.rest.take (there.offset - start.offset)

theorem endsNode_node (kind : Kind) (start : Cursor) (children : List Tree) :
    EndsNode start (node kind start children) := by
  intro here tree there h
  cases h
  exact ⟨rfl, rfl⟩

theorem EndsNode.bind {start : Cursor} {first : Scan α} {next : α → Scan Tree}
    (h : ∀ value, EndsNode start (next value)) : EndsNode start (first >>= next) := by
  intro here tree there read
  obtain ⟨value, mid, -, rest⟩ := exists_of_run_bind read
  exact h value mid tree there rest

namespace IsNode

variable {scan other : Scan Tree}

theorem of_ends {scan : Cursor → Scan Tree} (h : ∀ start, EndsNode start (scan start)) :
    IsNode (trivia >>= fun _ => get >>= scan) := by
  intro here tree there read
  rw [run_then (run_trivia here), run_then (run_get _)] at read
  exact h here.skip here.skip tree there read

theorem spanned (kind : Kind) (scan : Scan (List Tree)) : IsNode (spanned kind scan) :=
  of_ends fun start => .bind fun children => endsNode_node kind start children

theorem orElse (h : IsNode scan) (h' : IsNode other) : IsNode (scan <|> other) := by
  intro here tree there read
  cases first : scan.run here with
  | none =>
    rw [run_second _ first] at read
    exact h' here tree there read
  | some found =>
    rw [run_first _ first] at read
    exact h here tree there (first.trans read)

theorem ite {condition : Bool} (h : IsNode scan) (h' : IsNode other) :
    IsNode (if condition then scan else other) := by
  split
  · exact h
  · exact h'

/-- What stays at the next token does not change what is read from it. -/
theorem bind {first : Scan α} {next : α → Scan Tree} (stays : Stays first)
    (h : ∀ value, IsNode (next value)) : IsNode (first >>= next) := by
  intro here tree there read
  obtain ⟨value, mid, before, rest⟩ := exists_of_run_bind read
  have node := h value mid tree there rest
  rwa [stays here value mid before] at node

theorem expressionStatement (g : Grammar) : IsNode (expressionStatement g) :=
  of_ends fun start => .bind fun _ => .bind fun _ => endsNode_node .expressionStatement start _

/-- A member of an object is a node, whichever of its forms it has. -/
theorem objectMember (g : Grammar) : IsNode (objectMember g) := by
  have method : IsNode (objectMethod g) := by
    refine of_ends fun start => ?_
    iterate 5 refine .bind fun _ => ?_
    refine .bind fun access => ?_
    have signed (role : Role) : EndsNode start (do
        let key ← memberKey g
        let _ ← accepts (symbol "?")
        let given ← g.signature
        let body ← g.block
        node (.method role) start (key :: given ++ [body])) :=
      .bind fun _ => .bind fun _ => .bind fun _ => .bind fun _ => endsNode_node _ start _
    cases access with
    | none => exact .bind fun _ => signed _
    | some word => exact signed _
  refine .bind stays_look fun text => ?_
  split
  · exact .spanned .spread _
  · exact .orElse (.spanned .pair _) (.orElse method (.spanned .shorthand _))

end IsNode

/-- What returns to the place where it started stays there, whether it succeeds or not. -/
theorem stays_tried {next : Cursor → Scan Unit}
    (h : ∀ here there value stop, (next here).run there = some (value, stop) → stop = here) :
    Stays (accepts (get >>= next)) := by
  intro here value there read
  cases tried : (next here).run here with
  | none =>
    have stuck : (get >>= next).run here = none := (run_then (run_get here)).trans tried
    rw [accepts_stuck stuck] at read
    cases read
    rfl
  | some found =>
    obtain ⟨⟨⟩, stop⟩ := found
    obtain rfl := h here here () stop tried
    have back : (get >>= next).run stop = some ((), stop) := (run_then (run_get stop)).trans tried
    rw [accepts_reads back] at read
    cases read
    rfl

/-- A scanner that ends with a return ends at the place to which it returns. -/
theorem returns_seq {first : Scan α} {next : α → Scan Unit} {here : Cursor}
    (h : ∀ value there found stop, (next value).run there = some (found, stop) → stop = here)
    {there : Cursor} {value : Unit} {stop : Cursor}
    (read : (first >>= next).run there = some (value, stop)) : stop = here := by
  obtain ⟨_, _, -, rest⟩ := exists_of_run_bind read
  exact h _ _ _ _ rest

theorem IsNode.wordStatement (g : Grammar) (name : String) : IsNode (wordStatement g name) := by
  have form (scan : Scan (List Tree)) : IsNode (Scan.spanned .other scan) := .spanned .other scan
  have plain : IsNode (labelled g <|> Script.expressionStatement g) :=
    .orElse (.spanned .other _) (.expressionStatement g)
  have returns {here there stop : Cursor} {value : Unit}
      (read : (set here : Scan Unit).run there = some (value, stop)) : stop = here := by
    cases read
    rfl
  unfold Script.wordStatement
  dsimp only
  -- Most words make a form of their own, or may also start an expression.
  split <;> try with_reducible first
    | exact form _
    | exact plain
    | exact .orElse (form _) plain
    | exact .orElse (form _) (.expressionStatement g)
  · refine .bind (stays_tried fun here there value stop read => ?_) fun declared =>
      .ite (form _) (.expressionStatement g)
    exact returns_seq (fun _ _ _ _ => returns_seq fun _ _ _ _ =>
      returns_seq fun _ _ _ _ => returns) read
  · refine .bind (stays_tried fun here there value stop read => ?_) fun declared =>
      .ite (form _) (.expressionStatement g)
    exact returns_seq (fun _ _ _ _ => returns_seq fun _ _ _ _ => returns) read
  · refine .bind (stays_tried fun here there value stop read => ?_) fun declared =>
      .ite (form _) plain
    exact returns_seq (fun _ _ _ _ => returns_seq fun _ _ _ _ => returns_seq fun _ _ _ _ =>
      returns_seq fun _ _ _ _ => returns) read

/-- A statement is the text from its first token to where it stops, comments in markup syntax
before it aside, and is read from that token on as well. -/
theorem statement_node {level : Nat} {here there : Cursor} {tree : Tree}
    (h : (grammar level).statement.run here = some (tree, there)) :
    ∃ marks mid, (many markup).run here = some (marks, mid) ∧ tree.start = mid.skip.offset ∧
      tree.text = mid.skip.rest.take (there.offset - mid.skip.offset) ∧
      (grammar level).statement.run mid.skip = some (tree, there) := by
  match level with
  | 0 => cases h
  | level + 1 =>
    obtain ⟨marks, mid, marked⟩ := manyUpTo_total markup (here.rest.length + 1) here
    have markups : (many markup).run here = some (marks, mid) := by
      unfold many
      rw [run_then (run_get _)]
      exact marked
    have block : IsNode (grammar level).block := by
      cases level with
      | zero =>
        intro _ _ _ read
        cases read
      | succ level => exact .spanned .other _
    have again : (many markup).run mid = some ([], mid) :=
      many_stuck (moves_markup.repeats markups).stuck
    have same : (grammar (level + 1)).statement.run mid =
        (grammar (level + 1)).statement.run here := by
      change (readStatement (grammar level)).run mid = (readStatement (grammar level)).run here
      unfold readStatement
      rw [run_then markups, run_then again]
    have fromMid := (fromToken_statement _ mid).symm.trans (same.trans h)
    change (readStatement (grammar level)).run here = some (tree, there) at h
    unfold readStatement at h
    rw [run_then markups] at h
    have forms := IsNode.bind stays_look (fun text => ?_) mid tree there h
    · exact ⟨marks, mid, markups, forms.1, forms.2, fromMid⟩
    split
    · intro _ _ _ read
      cases read
    · exact .spanned .other _
    · exact .orElse block (.expressionStatement _)
    · exact .orElse (.spanned .other _) (.expressionStatement _)
    · exact .ite (.bind stays_peekWord fun name => .wordStatement _ name) (.expressionStatement _)

/-! ## Scripts -/

theorem fromToken_statements (level : Nat) : FromToken (statements (grammar level)) :=
  (moves_statement level).fromToken (fromToken_statement level) fun _ =>
    moves_markup.fromToken fromToken_markup fun _ => fromToken_look.bind _

variable {level : Nat} {here mid there : Cursor} {tree : Tree} {trees : List Tree}
  {text rest : List Char}

/-- A script is its statements and comments in markup syntax, with nothing behind them. -/
theorem statements_eq_some : (statements (grammar level)).run here = some (trees, there) ↔
    ∃ stop, Repeats (grammar level).statement here trees stop ∧
      (many markup >>= fun _ => look).run stop = some ([], there) := by
  have moves := moves_statement level
  obtain ⟨found, stop, read⟩ := manyUpTo_total (grammar level).statement (here.rest.length + 1) here
  have all := moves.repeats_of_manyUpTo (Nat.lt_succ_self _) read
  obtain ⟨marks, last, marked⟩ := manyUpTo_total markup (stop.rest.length + 1) stop
  have markups := moves_markup.many (moves_markup.repeats_of_manyUpTo (Nat.lt_succ_self _) marked)
  have ended : (many markup >>= fun _ => look).run stop = some (last.skip.rest, last.skip) := by
    rw [run_then markups, run_look]
  unfold statements
  rw [run_then (moves.many all), run_then markups, run_then (run_look _)]
  constructor
  · intro h
    split at h
    · next nothing =>
      cases h
      exact ⟨stop, all, by rw [ended, nothing]⟩
    · cases h
  · rintro ⟨other, repeated, nothing⟩
    obtain ⟨rfl, rfl⟩ := Prod.mk.inj (Option.some.inj ((moves.many all).symm.trans (moves.many repeated)))
    obtain ⟨empty, rfl⟩ := Prod.mk.inj (Option.some.inj (ended.symm.trans nothing))
    rw [empty]
    rfl

/-- The statements of a script are its first one and those behind it. -/
theorem statements_cons : (statements (grammar level)).run here = some (tree :: trees, there) ↔
    ∃ next, (grammar level).statement.run here = some (tree, next) ∧
      (statements (grammar level)).run next = some (trees, there) := by
  simp only [statements_eq_some]
  constructor
  · rintro ⟨stop, all, ended⟩
    cases all with
    | more read others => exact ⟨_, read, stop, others, ended⟩
  · rintro ⟨next, read, stop, others, ended⟩
    exact ⟨stop, .more read others, ended⟩

/-- No statements start with the mark of a line that names an interpreter. -/
theorem statements_hashBang (level offset : Nat) (rest : List Char) :
    (statements (grammar level)).run ⟨offset, '#' :: '!' :: rest⟩ = none := by
  have opens : OpensPlain '#' := ⟨by decide, by decide, by decide⟩
  have token (offset : Nat) : Cursor.skip ⟨offset, '#' :: '!' :: rest⟩ =
      ⟨offset, '#' :: '!' :: rest⟩ := skip_token offset (opens.token _)
  have barren : Barren ('#' :: '!' :: rest) := by
    refine ⟨⟨'#', _, rfl, opens, by decide, by decide⟩, fun g context start offset => ?_⟩
    have noName : (leaf .other (do
        symbol "#"
        let _ ← word)).run ⟨offset, '#' :: '!' :: rest⟩ = none := by
      have passed : (symbol "#").run ⟨offset, '#' :: '!' :: rest⟩ =
          some ((), ⟨offset + 1, '!' :: rest⟩) := symbol_next offset (opens.token _) rfl
      have bang : StartsToken ('!' :: rest) := ⟨'!', rest, rfl, by decide, by decide⟩
      have stuck : word.run ⟨offset + 1, '!' :: rest⟩ = none := by
        refine word_stuck ?_
        rw [skip_token _ bang, wordLength_stuck rest (by decide) (by decide)]
      refine leaf_stuck ?_
      rw [token, run_then passed]
      exact run_stuck _ stuck
    unfold bareOperand
    rw [run_then (run_look _), token]
    exact run_stuck _ noName
  unfold statements
  rw [run_then (many_stuck (barren.statement level (by simp) (by simp) offset)),
    run_then (barren.markup offset), run_then (run_look _), token]
  rfl

/-- A script is read as a whole just if it is read as its statements. -/
theorem readProgram?_eq_some {text : List Char} {program : Tree}
    (h : readProgram? text = some program) : hasForeign text = false ∧ ∃ here there,
      hashBang.run (Cursor.skip ⟨0, text⟩) = some ((), here) ∧
      (statements (grammarFor text.length)).run here = some (program.children, there) := by
  unfold readProgram? at h
  dsimp only at h
  split at h
  · cases h
  · next admitted =>
    refine ⟨by simpa using admitted, ?_⟩
    obtain ⟨⟨tree, stop⟩, read, rfl⟩ := Option.map_eq_some_iff.mp h
    change ((do hashBang; statements (grammarFor text.length)) >>= fun children =>
      node .program (Cursor.skip ⟨0, text⟩) children).run (Cursor.skip ⟨0, text⟩) = _ at read
    obtain ⟨children, last, inner, made⟩ := exists_of_run_bind read
    obtain ⟨⟨⟩, here, banged, rest⟩ := exists_of_run_bind inner
    cases made
    exact ⟨here, _, banged, rest⟩

theorem isBroken_of_statements {text : List Char} (admitted : hasForeign text = false)
    {here there : Cursor} {trees : List Tree}
    (banged : hashBang.run (Cursor.skip ⟨0, text⟩) = some ((), here))
    (h : (statements (grammarFor text.length)).run here = some (trees, there)) :
    (readProgram text).isBroken = false := by
  obtain ⟨program, whole⟩ : ∃ program, readProgram? text = some program := by
    unfold readProgram?
    dsimp only
    rw [admitted]
    exact ⟨_, congrArg (Option.map Prod.fst)
      (run_then ((run_then banged).trans h) : ((do
        hashBang
        statements (grammarFor text.length)) >>= fun children =>
          node .program (Cursor.skip ⟨0, text⟩) children).run (Cursor.skip ⟨0, text⟩) = _)⟩
  have same : readProgram text = program := by
    unfold readProgram
    rw [whole]
  rw [isBroken_readProgram, same, whole]

/-- What a scanner leaves of a text is the text from there on: offsets and what is left to read stay
in step. -/
theorem Scans.place {text : List Char} {like : α → α → Prop} {scan : Scan α}
    (h : ∀ size, Scans (inText text) (size + 1) (size + 1) like scan scan) {here there : Cursor}
    {value : α} (place : here.rest = text.drop here.offset) (read : scan.run here = some (value, there)) :
    there.rest = text.drop there.offset := by
  rcases h here.rest.length here here ⟨rfl, place⟩ (Nat.lt_succ_self _) with
    ⟨stuck, -⟩ | ⟨_, _, _, _, found, -, -, ⟨-, next⟩, -⟩
  · cases read.symm.trans stuck
  · cases read.symm.trans found
    exact next

/-- What stands behind a statement is the text from the end of its node on, whatever comments in
markup syntax were passed over before it. -/
theorem drop_statement {next : Cursor} (place : here.rest = text.drop here.offset)
    (read : (grammar level).statement.run here = some (tree, next)) :
    text.drop tree.stop = next.rest := by
  obtain ⟨marks, mid, marked, starts, source, again⟩ := statement_node read
  have after : next.rest = text.drop next.offset :=
    Scans.place (fun size => (grammars_self (inText text) (size + 1) level).statement) place read
  have between : mid.rest = text.drop mid.offset :=
    Scans.place (fun _ => .many (.keep .markup)) place marked
  have opens : mid.skip.rest = text.drop mid.skip.offset :=
    (Scans.place_skip (L := inText text) ⟨rfl, between⟩).1.2
  have onward : mid.skip.offset ≤ next.offset := by
    have shorter := moves_statement level _ _ _ again
    rw [after, opens, List.length_drop, List.length_drop] at shorter
    omega
  rw [Tree.stop, starts, source, ← List.drop_drop, ← opens, drop_length_take, opens,
    List.drop_drop, after, Nat.add_sub_cancel' onward]

/-! ## Statement by statement -/

/-- Statements are read one after another from one place to another. -/
inductive Passes (level : Nat) : Cursor → Cursor → Prop where
  | done (here : Cursor) : Passes level here here
  | more {here mid there : Cursor} {tree : Tree} :
      (grammar level).statement.run here = some (tree, mid) → Passes level mid there →
        Passes level here there

namespace Passes

theorem place (passes : Passes level here there) (h : here.rest = text.drop here.offset) :
    there.rest = text.drop there.offset := by
  induction passes with
  | done => exact h
  | more read _ ih =>
    exact ih (Scans.place (fun size => (grammars_self (inText text) (size + 1) level).statement) h
      read)

theorem length_le (passes : Passes level here there) : there.rest.length ≤ here.rest.length := by
  induction passes with
  | done => exact Nat.le_refl _
  | more read _ ih => exact Nat.le_trans ih (Nat.le_of_lt (moves_statement level _ _ _ read))

/-- What is read up to a place and from there on is read as a whole. -/
theorem statements (passes : Passes level here mid)
    (h : (statements (grammar level)).run mid = some (trees, there)) :
    ∃ all, (Script.statements (grammar level)).run here = some (all, there) := by
  induction passes with
  | done => exact ⟨trees, h⟩
  | more read _ ih =>
    obtain ⟨others, rest⟩ := ih h
    exact ⟨_ :: others, statements_cons.mpr ⟨_, read, rest⟩⟩

end Passes

/-- The statements before others are read first. -/
theorem statements_append {before : List Tree}
    (h : (statements (grammar level)).run here = some (before ++ trees, there)) :
    ∃ mid, Passes level here mid ∧ (statements (grammar level)).run mid = some (trees, there) := by
  induction before generalizing here with
  | nil => exact ⟨here, .done here, h⟩
  | cons tree before ih =>
    obtain ⟨next, read, rest⟩ := statements_cons.mp h
    obtain ⟨mid, passes, behind⟩ := ih rest
    exact ⟨mid, .more read passes, behind⟩

/-- The text behind a statement of a well-formed script is itself read as statements. -/
theorem statements_behind {before after : List Tree}
    (fits : (readProgram text).isBroken = false)
    (children : (readProgram text).children = before ++ tree :: after) :
    hasForeign text = false ∧ ∃ next there, next.rest = text.drop tree.stop ∧
      (statements (grammarFor text.length)).run next = some (after, there) := by
  obtain ⟨admitted, here, there, banged, read⟩ :=
    readProgram?_eq_some (isBroken_readProgram.mp fits)
  rw [children] at read
  have place : here.rest = text.drop here.offset :=
    Scans.place (fun _ => hashBang_alike)
      (Scans.place_skip (L := inText text) ⟨rfl, rfl⟩).1.2 banged
  obtain ⟨mid, passes, read⟩ := statements_append read
  obtain ⟨next, statement, read⟩ := statements_cons.mp read
  exact ⟨admitted, next, there, (drop_statement (passes.place place) statement).symm, read⟩

/-- A text that is read as statements up to the given end of it. Of that end only the tokens count,
not the blanks and comments before them. -/
def LeadsTo (text rest : List Char) : Prop :=
  ∃ here there, hashBang.run (Cursor.skip ⟨0, text⟩) = some ((), here) ∧
    Passes (4 * text.length + 8) here there ∧ there.skip.rest = (Cursor.skip ⟨0, rest⟩).rest

theorem LeadsTo.length_le (h : LeadsTo text rest) :
    (Cursor.skip ⟨0, rest⟩).rest.length ≤ text.length := by
  obtain ⟨here, there, banged, passes, same⟩ := h
  have skip (here : Cursor) : here.skip.rest.length ≤ here.rest.length :=
    (@Scans.place_skip sameText here here rfl).2
  have bang : here.rest.length ≤ (Cursor.skip ⟨0, text⟩).rest.length := by
    rcases @hashBang_alike sameText ((Cursor.skip ⟨0, text⟩).rest.length + 1) _ _ rfl
      (Nat.lt_succ_self _) with ⟨stuck, -⟩ | ⟨_, _, _, _, found, -, -, -, short⟩
    · cases banged.symm.trans stuck
    · cases banged.symm.trans found
      exact Nat.le_of_lt_succ short
  rw [← same]
  exact (skip there).trans (passes.length_le.trans (bang.trans (skip ⟨0, text⟩)))

section Behind

variable {left blanks : List Char} {before after : List Tree}
  (fits : (readProgram text).isBroken = false)
  (children : (readProgram text).children = before ++ tree :: after) (hb : Blanks blanks)
  (behind : text.drop tree.stop = blanks ++ rest)

include fits children hb behind

/-- What stands behind a statement of a well-formed script is read from its first token on. -/
private theorem statements_skip : ∃ next there, next.rest = (Cursor.skip ⟨0, rest⟩).rest ∧
    (statements (grammarFor text.length)).run next = some (after, there) := by
  obtain ⟨-, next, there, left, read⟩ := statements_behind fits children
  have opened : next = ⟨next.offset, blanks ++ rest⟩ := by rw [← behind, ← left]
  refine ⟨next.skip, there, ?_, (fromToken_statements _ next).symm.trans read⟩
  rw [opened]
  exact skip_rest_blanks hb rest next.offset 0

/-- Nothing need be read before the text behind a statement. -/
theorem leadsTo_behind : LeadsTo rest rest := by
  obtain ⟨next, there, same, read⟩ := statements_skip fits children hb behind
  refine ⟨_, _, ?_, .done _, congrArg Cursor.rest (skip_skip _)⟩
  unfold hashBang
  rw [run_then (run_get _)]
  split
  · next line mark =>
    have opened : next = ⟨next.offset, '#' :: '!' :: line⟩ := by rw [← mark, ← same]
    rw [opened] at read
    cases (statements_hashBang _ _ _).symm.trans read
  · rfl

/-- A text that is read as statements up to the text behind a statement of a well-formed script is a
well-formed script as well: from there on it is read like that script. -/
theorem isBroken_behind (admitted : hasForeign left = false) (leads : LeadsTo left rest) :
    (readProgram left).isBroken = false := by
  obtain ⟨next, there, same, read⟩ := statements_skip fits children hb behind
  have few := leads.length_le
  obtain ⟨here, stop, banged, passes, reached⟩ := leads
  have token : next.rest = stop.skip.rest := same.trans reached.symm
  have shorter : next.rest.length ≤ text.length := by
    have cut := congrArg List.length behind
    have least : (Cursor.skip ⟨0, rest⟩).rest.length ≤ rest.length :=
      (@Scans.place_skip sameText ⟨0, rest⟩ ⟨0, rest⟩ rfl).2
    rw [List.length_drop, List.length_append] at cut
    rw [same]
    omega
  rw [← same] at few
  have enough : 3 * (next.rest.length + 1) ≤ 4 * text.length + 8 := by omega
  have enough' : 3 * (next.rest.length + 1) ≤ 4 * left.length + 8 := by omega
  have alike := statements_alike
    (grammars_alike (L := sameText) (next.rest.length + 1) enough enough')
  rcases alike next stop.skip token (Nat.lt_succ_self _) with
    ⟨stuck, -⟩ | ⟨_, _, _, _, -, found, -, -, -⟩
  · cases read.symm.trans stuck
  · obtain ⟨all, whole⟩ := passes.statements ((fromToken_statements _ stop).trans found)
    exact isBroken_of_statements admitted banged whole

end Behind

end BlockLoom.Script
