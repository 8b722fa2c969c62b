import BlockLoom.Proofs.Script.Likeness.Member

/-!
Expressions run alike in like grammars. An expression may start with the parameters of a
function, so that these have to run alike on the whole of its text.
-/

namespace BlockLoom.Script

open Scan

variable {L : Likeness} {size : Nat} {g g' : Grammar}

/-! ## Operators -/

theorem operator_alike : Scans L size size Eq operator operator := by
  refine .bind .look ?_
  rintro text _ rfl
  refine .failIf ?_
  dsimp only
  split
  · exact .advance _
  · exact .stay (.keywordIn _)

theorem assignmentOperator_alike :
    Scans L size size Eq assignmentOperator assignmentOperator := by
  refine .bind .look ?_
  rintro text _ rfl
  split
  · exact .advance _
  · exact .symbolUnlessStays

theorem isAssignable_alike {tree tree' : Tree} (h : L.tree tree tree') :
    isAssignable tree = isAssignable tree' := by
  unfold isAssignable
  rw [L.kind h]

/-! ## Lists of expressions -/

theorem expressions_alike {before : Nat} {context : Context} (h : Grammars L size g g')
    (first : Scans L before size L.tree (g.expression context) (g'.expression context)) :
    Scans L before size L.tree (expressions g context) (expressions g' context) := by
  refine .seq .trivia (.get fun start start' place _ => ?_)
  refine .bind (.separated first (h.expression context)) fun items items' all => ?_
  cases all with
  | nil => exact .node nofun place .nil
  | cons item others =>
    cases others with
    | nil => exact .result item
    | cons other others => exact .node nofun place (.cons item (.cons other others))

theorem array_alike (h : Grammars L size g g') :
    Scans L (size + 1) size L.tree (array g) (array g') :=
  .spanned nofun <| .seq (.symbol (by decide)) <| .elements <| .orElse (.stay (spread_alike h)) (h.expression _)

theorem group_alike (h : Grammars L size g g') :
    Scans L (size + 1) size L.tree (group g) (group g') := by
  refine .spanned nofun (.seq (.symbol (by decide)) ?_)
  refine .bind (expressions_alike h (h.expression _)) fun _ _ inner => ?_
  refine .bind (.optional? (.leaf nofun (.stay (ascription_alike h)))) fun _ _ type => ?_
  exact .seq .symbolStays (.result (forall₂_cons_toList inner type))

/-! ## Functions -/

theorem arrowBody_alike (h : Grammars L size g g') (context : Context) :
    Scans L size size L.tree (arrowBody g context) (arrowBody g' context) := by
  refine .seq .symbolStays (.bind .look ?_)
  rintro text _ rfl
  split
  · exact .orElse h.block (h.expression context)
  · exact h.expression context

theorem arrow_alike {before : Nat} {context : Context} {start start' : Cursor}
    {given given' : Scan (List Tree)} (h : Grammars L size g g') (place : L.place start start')
    (parameters : Scans L before size (List.Forall₂ L.tree) given given') :
    Scans L before size L.tree (arrow g context start given) (arrow g' context start' given') := by
  refine .bind parameters fun _ _ given => ?_
  refine .bind (arrowBody_alike h context) fun _ _ body => ?_
  exact .node nofun place (List.rel_append given (.cons body .nil))

theorem functionRest_alike {start start' : Cursor} (h : Grammars L size g g')
    (place : L.place start start') :
    Scans L size size L.tree (functionRest g start) (functionRest g' start') := by
  refine .seq (.accepts .symbolStays) (.seq (.accepts (.stay .word)) ?_)
  refine .bind h.signature fun _ _ given => .bind h.block fun _ _ body => ?_
  exact .node nofun place (List.rel_append given (.cons body .nil))

/-! ## Classes -/

theorem classMemberEnd_alike : Scans L size size Eq classMemberEnd classMemberEnd := by
  refine .bind (.accepts (.orElse .symbolStays .symbolStays)) ?_
  rintro ended _ rfl
  exact .ite (.endOr .fail) (.result rfl)

theorem classMember_alike (h : Grammars L size g g') :
    Scans L size size L.tree (classMember g) (classMember g') := by
  have modifiers : Scans L size size (List.Forall₂ Eq) (many (modifierIn classModifiers))
      (many (modifierIn classModifiers)) :=
    .repeated (.stay (modifierIn_alike _))
  refine .orElse (.leaf nofun .symbolStays) (.orElse (.stay (decorator_alike h)) ?_)
  refine .orElse (.spanned nofun ?_) (.orElse (.leaf nofun ?_) (.spanned nofun ?_))
  · refine .seq (.stay (.keyword _)) (.bind h.block fun _ _ body => ?_)
    exact .result (.cons body .nil)
  · exact .seq modifiers (.seq (.stay (indexKey_alike h)) classMemberEnd_alike)
  · refine .seq modifiers ?_
    refine .bind (.optional? (.stay (modifierIn_alike _))) fun access access' same => ?_
    obtain rfl : access = access' := by
      cases same with
      | none => rfl
      | some same => rw [same]
    refine .step (.accepts .symbolStays) ?_
    refine .bind (.stay (memberKey_alike h)) fun _ _ key => ?_
    refine .seq (.accepts (.orElse .symbolStays .symbolUnlessStays)) (.orElse ?_ ?_)
    · refine .bind h.signature fun _ _ given => ?_
      refine .bind (.optional? h.block) fun body body' found => ?_
      cases found with
      | none => exact .seq classMemberEnd_alike (.result (.cons key given))
      | some body =>
        refine .seq (.accepts .symbolStays) (.result ?_)
        exact List.rel_append (.cons key given) (.cons body .nil)
    · refine .seq (.accepts (.stay (ascription_alike h))) ?_
      refine .bind (.optional? (.stay (initializer_alike h _))) fun _ _ value => ?_
      exact .seq classMemberEnd_alike (.result (forall₂_cons_toList key value))

theorem classBody_alike (h : Grammars L size g g') :
    Scans L (size + 1) size L.tree (classBody g) (classBody g') := by
  refine .spanned nofun (.seq (.symbol (by decide)) ?_)
  refine .bind (.many (classMember_alike h)) fun _ _ members => ?_
  exact .seq .symbolStays (.result members)

/-! ## Suffixes -/

theorem afterTypeArguments_alike :
    Scans L size size Eq afterTypeArguments afterTypeArguments := by
  refine .bind .look ?_
  rintro text _ rfl
  dsimp only
  split
  · exact .result rfl
  · exact .ite .fail (.ite .fail (.ite .fail (.result rfl)))

theorem index_alike (h : Grammars L size g g') :
    Scans L (size + 1) size L.tree (index g) (index g') := by
  refine .seq (.symbol (by decide)) ?_
  refine .bind (expressions_alike h (h.expression _)) fun _ _ found => ?_
  exact .seq .symbolStays (.result found)

theorem typedArguments_alike (h : Grammars L size g g') :
    Scans L (size + 1) size L.tree (typedArguments g) (typedArguments g') :=
  .seq (.accepts (.keep (typeArguments_alike h))) (callArguments_alike h)

theorem suffix_alike {start start' : Cursor} {base base' : Tree} (h : Grammars L size g g')
    (context : Context) (calls : Bool) (place : L.place start start') (tree : L.tree base base') :
    Scans L size size L.tree (suffix g context calls start base)
      (suffix g' context calls start' base') := by
  -- What is read behind the operand is its second part.
  have second {kind : Kind} {part part' : Scan Tree} (fits : kind ≠ .broken)
      (read : Scans L size size L.tree part part') :
      Scans L size size L.tree (do node kind start [base, ← part])
        (do node kind start' [base', ← part']) :=
    .bind read fun _ _ part => .node fits place (.cons tree (.cons part .nil))
  have first {kind : Kind} (fits : kind ≠ .broken) :
      Scans L size size L.tree (node kind start [base]) (node kind start' [base']) :=
    .node fits place (.cons tree .nil)
  refine .step .continues (.bind .look ?_)
  rintro text _ rfl
  split
  · exact .fail
  · exact .seq .symbolStays (second (by nofun) (.stay propertyName_alike))
  · refine .failIf (.seq .symbolStays (.orElse ?_ (.orElse ?_ ?_)))
    · exact second (by nofun) (.stay (typedArguments_alike h))
    · exact second (by nofun) (.stay (index_alike h))
    · exact second (by nofun) (.stay propertyName_alike)
  · exact second (by nofun) (.stay (index_alike h))
  · exact .failIf (second (by nofun) (.stay (callArguments_alike h)))
  · exact second (by nofun) (.stay (template_alike h))
  · exact .fail
  · exact .seq .symbolStays (first (by nofun))
  · exact .failIf (.seq .symbolStays (first (by nofun)))
  · exact .failIf (.seq .symbolStays (first (by nofun)))
  · refine .failIf (.seq (.stay (typeArguments_alike h)) (.orElse ?_ ?_))
    · exact second (by nofun) (.stay (callArguments_alike h))
    · refine .get fun here here' there short => ?_
      exact .seq afterTypeArguments_alike (.seq (.set there short) (first (by nofun)))
  · exact .fail

theorem suffixes_alike {start start' : Cursor} (h : Grammars L size g g') (context : Context)
    (calls : Bool) (place : L.place start start') (count : Nat) {base base' : Tree}
    (tree : L.tree base base') :
    Scans L size size L.tree (suffixes g context calls start count base)
      (suffixes g' context calls start' count base') := by
  induction count generalizing base base' with
  | zero => exact .result tree
  | succ count ih =>
    refine .bind (.optional? (suffix_alike h context calls place tree)) fun _ _ next => ?_
    cases next with
    | none => exact .result tree
    | some next => exact ih next

/-- A class that another one extends. -/
private theorem parent_alike (h : Grammars L size g g') :
    Scans L size size L.tree
      (do
        trivia
        let start ← get
        let first ← group g <|> leaf .identifier (do let _ ← word)
        let parent ← suffixes g Context.inner true start start.rest.length first
        let _ ← accepts (typeArguments g)
        return parent)
      (do
        trivia
        let start ← get
        let first ← group g' <|> leaf .identifier (do let _ ← word)
        let parent ← suffixes g' Context.inner true start start.rest.length first
        let _ ← accepts (typeArguments g')
        return parent) := by
  refine .seq .trivia (.get fun start start' place _ => ?_)
  refine .bind (.stay (.orElse (group_alike h) (wordLeaf_alike nofun))) fun _ _ first => ?_
  rw [← L.rest place]
  refine .bind (suffixes_alike h _ true place _ first) fun _ _ parent => ?_
  exact .seq (.accepts (.stay (typeArguments_alike h))) (.result parent)

theorem classRest_alike (h : Grammars L size g g') :
    Scans L size size (List.Forall₂ L.tree) (classRest g) (classRest g') := by
  refine .seq (.tried (.bind (.stay .word) ?_)) (.seq (.accepts (.stay (typeParameters_alike h))) ?_)
  · rintro name _ rfl
    exact .ite .fail (.result rfl)
  refine .bind (.optional? (.seq (.stay (.keyword _)) (.separatedInside (parent_alike h)))) ?_
  intro bases bases' found
  refine .seq (.accepts (.seq (.stay (.keyword _)) (.separatedInside h.type))) ?_
  refine .bind (.stay (classBody_alike h)) fun _ _ body => .result ?_
  cases found with
  | none => exact .cons body .nil
  | some bases => exact List.rel_append bases (.cons body .nil)

/-! ## Operands -/

/-- Parentheses may be the parameters of an arrow function, which is read from the start again. -/
theorem parenthesized_alike {start start' : Cursor} (h : Grammars L size g g')
    (deeper : Scans L (size + 1) size (List.Forall₂ L.tree) g.signature g'.signature)
    (context : Context) (place : L.place start start') (short : start.rest.length < size + 1) :
    Scans L (size + 1) size L.tree (parenthesized g context start)
      (parenthesized g' context start') := by
  have lambda : Scans L (size + 1) size L.tree (arrow g context start g.signature)
      (arrow g' context start' g'.signature) :=
    arrow_alike h place deeper
  refine .optionalThen (group_alike h) (fun _ _ found => ?_) lambda
  refine .get fun here here' there left => .bind .look ?_
  rintro text _ rfl
  split
  · exact .seq (.set place short) lambda
  · refine .ite (.seq (.set place short) (.orElse lambda ?_)) ?_
    · exact .seq (.set there left) (.result found)
    · exact .seq (.set there left) (.result found)
  · exact .seq (.set there left) (.result found)

/-- The operand of `new` before its suffixes. -/
private theorem made_alike (h : Grammars L size g g') :
    Scans L size size L.tree
      ((do
          let found ← peekWord
          if ["function", "class", "true", "false", "null", "new"].contains found then
            g.expression Context.inner
          else leaf .identifier (do let _ ← word))
        <|> group g <|> array g <|> object g <|> template g <|> string <|> number)
      ((do
          let found ← peekWord
          if ["function", "class", "true", "false", "null", "new"].contains found then
            g'.expression Context.inner
          else leaf .identifier (do let _ ← word))
        <|> group g' <|> array g' <|> object g' <|> template g' <|> string <|> number) := by
  refine .orElse (.bind .peekWord ?_) (.stay ?_)
  · rintro found _ rfl
    exact .ite (h.expression _) (.stay (wordLeaf_alike nofun))
  · refine .orElse (group_alike h) (.orElse (array_alike h) (.orElse (object_alike h) ?_))
    exact .orElse (template_alike h) (.orElse string_alike number_alike)

theorem wordOperand_alike {start start' : Cursor} (h : Grammars L size g g') (context : Context)
    (name : String) (place : L.place start start') (short : start.rest.length < size + 1) :
    Scans L (size + 1) size L.tree (wordOperand g context start name)
      (wordOperand g' context start' name) := by
  have named : Scans L (size + 1) size L.tree (leaf .identifier (do let _ ← word))
      (leaf .identifier (do let _ ← word)) :=
    (wordLeaf_alike nofun)
  -- An arrow function of which the only parameter is the word itself.
  have lambda : Scans L (size + 1) size L.tree
      (arrow g context start (do
        let _ ← word
        return []))
      (arrow g' context start' (do
        let _ ← word
        return [])) :=
    arrow_alike h place (.seq .word (.result .nil))
  unfold wordOperand
  dsimp only
  split
  · exact .leaf nofun (.keyword _)
  · exact .leaf nofun (.keyword _)
  · exact .leaf nofun (.keyword _)
  · exact .seq (.keyword _) (functionRest_alike h place)
  · refine .seq (.keyword _) (.bind (classRest_alike h) fun _ _ parts => ?_)
    exact .node nofun place parts
  · refine .orElse ?_ (.orElse ?_ named)
    · refine .seq (.keyword _) (.seq .symbolStays (.seq (.stay (.keyword _)) ?_))
      exact .node nofun place .nil
    · refine .seq (.keyword _) (.seq .trivia (.get fun inside inside' there _ => ?_))
      refine .bind (made_alike h) fun _ _ first => ?_
      rw [← L.rest there]
      refine .bind (suffixes_alike h _ false there _ first) fun _ _ made => ?_
      refine .seq (.accepts (.stay (typeArguments_alike h))) ?_
      refine .bind (.optional? (.stay (callArguments_alike h))) fun _ _ given => ?_
      exact .node nofun place (forall₂_cons_toList made given)
  · refine .seq (.keyword _) (.bind .look ?_)
    rintro text _ rfl
    split
    · exact .node nofun place .nil
    · exact .node nofun place .nil
    · exact .fail
  · refine .orElse ?_ (.orElse (.seq (.set place short) lambda) named)
    refine .seq (.keyword _) (.within ?_ (.bind h.block fun _ _ body => ?_))
    · exact .orElse (.stay dottedName_alike) (.seq (.stay string_alike) (.result rfl))
    · exact .node nofun place (.cons body .nil)
  · refine .orElse ?_ (.orElse ?_ (.orElse ?_ (.orElse lambda named)))
    · exact .seq (.keyword _) (.seq (.stay (.keyword _)) (functionRest_alike h place))
    · refine .seq (.keyword _) (arrow_alike h place ?_)
      exact .bind (.stay (wordLeaf_alike nofun)) fun _ _ parameter => .result (.cons parameter .nil)
    · exact .seq (.keyword _) (arrow_alike h place h.signature)
  iterate 5 exact .fail
  · refine .ite named (.bind named fun _ _ operand => .get fun here here' there left => ?_)
    refine .bind .look ?_
    rintro text _ rfl
    split
    · exact arrow_alike h place (.result (.cons operand .nil))
    · exact .seq (.set there left) (.result operand)

theorem bareOperand_alike {start start' : Cursor} (h : Grammars L size g g')
    (deeper : Scans L (size + 1) size (List.Forall₂ L.tree) g.signature g'.signature)
    (context : Context) (place : L.place start start') (short : start.rest.length < size + 1) :
    Scans L (size + 1) size L.tree (bareOperand g context start)
      (bareOperand g' context start') := by
  refine .bind .look ?_
  rintro text _ rfl
  split
  · exact .fail
  · refine .ite (parenthesized_alike h deeper context place short) (.ite (array_alike h) ?_)
    refine .ite (object_alike h) (.ite string_alike (.ite (template_alike h) ?_))
    refine .ite regex_alike (.ite ?_ (.ite ?_ (.ite number_alike ?_)))
    · refine .bind (.many (.keep (decorator_alike h))) fun _ _ decorators => ?_
      refine .seq (.keyword _) (.bind (classRest_alike h) fun _ _ parts => ?_)
      exact .node nofun place (List.rel_append decorators parts)
    · refine .bind hashName_alike fun _ _ name => ?_
      refine .get fun here here' there left => .seq (.stay (.keyword _)) ?_
      exact .seq (.set there left) (.result name)
    · refine .bind .peekWord ?_
      rintro name _ rfl
      exact .failIf (wordOperand_alike h context name place short)

theorem prefixSign_alike : Scans L (size + 1) size Eq prefixSign prefixSign := by
  refine .lookAt fun here here' place still short => ?_
  have passed {count : Nat} {sign : String} (filled : here.rest ≠ []) (some : count ≠ 0) :
      Outcomes L size Eq ((do pass count; return sign).run here)
        ((do pass count; return sign).run here') :=
    (Scans.pass place short filled some).bind fun _ _ _ => .result rfl
  split
  · next rest text => exact passed (by rw [text]; exact List.cons_ne_nil _ _) (by decide)
  · next rest text => exact passed (by rw [text]; exact List.cons_ne_nil _ _) (by decide)
  · next c rest _ _ text =>
    split
    · exact passed (by rw [text]; exact List.cons_ne_nil _ _) (by decide)
    · have sign : Scans L (size + 1) size Eq
          (do
            let name ← word
            if ["typeof", "void", "delete", "await"].contains name then return name else failure)
          (do
            let name ← word
            if ["typeof", "void", "delete", "await"].contains name then return name
            else failure) := by
        refine .bind .word ?_
        rintro name _ rfl
        exact .ite (.result rfl) .fail
      exact sign here here' place short
  · exact .none

theorem yielding_alike {start start' : Cursor} (h : Grammars L size g g') (context : Context)
    (place : L.place start start') :
    Scans L (size + 1) size L.tree (yielding g context start) (yielding g' context start') := by
  refine .seq (.keyword _) (.orElse ?_ (.orElse ?_ (.node nofun place .nil)))
  · refine .seq .symbolStays (.bind (h.expression _) fun _ _ value => ?_)
    exact .node nofun place (.cons value .nil)
  · refine .step .continues (.bind (h.expression _) fun _ _ value => ?_)
    exact .node nofun place (.cons value .nil)

theorem assertion_alike {start start' : Cursor} {operand operand' : Scan Tree}
    (h : Grammars L size g g') (inner : Scans L size size L.tree operand operand')
    (place : L.place start start') :
    Scans L (size + 1) size L.tree (assertion g operand start) (assertion g' operand' start') := by
  refine .seq (typeArguments_alike h) (.bind inner fun _ _ value => ?_)
  exact .node nofun place (.cons value .nil)

theorem place_alike (h : Grammars L size g g')
    (deeper : Scans L (size + 1) size (List.Forall₂ L.tree) g.signature g'.signature)
    (context : Context) :
    Scans L (size + 1) size L.tree (place g context) (place g' context) := by
  refine .seq .trivia (.get fun start start' there short => .orElse ?_ ?_)
  · refine .bind (bareOperand_alike h deeper context there short) fun _ _ base => ?_
    rw [← L.rest there]
    refine .bind (suffixes_alike h context true there _ base) fun found found' alike => ?_
    have assigned : Scans L size size L.tree
        (do
          if !isAssignable found then failure
          if context.ending then continues
          assignmentOperator
          g.expression context)
        (do
          if !isAssignable found' then failure
          if context.ending then continues
          assignmentOperator
          g'.expression context) := by
      rw [isAssignable_alike alike]
      refine .failIf (.step .continues ?_)
      exact .seq assignmentOperator_alike (h.expression context)
    refine .bind (.optional? assigned) fun _ _ value => ?_
    cases value with
    | some value => exact .node nofun there (.cons alike (.cons value .nil))
    | none =>
      refine .get fun here here' stopped left => ?_
      rw [L.kind alike]
      refine .step (.absent .symbolUnlessStays) ?_
      exact .seq (.set stopped left) (.result alike)
  · refine .bind (destructuring_alike h) fun _ _ bound => .seq .symbolUnlessStays ?_
    refine .bind (h.expression context) fun _ _ value => ?_
    exact .node nofun there (.cons bound (.cons value .nil))

def SignsAlike (L : Likeness) (sign sign' : Cursor × String) : Prop :=
  L.place sign.1 sign'.1 ∧ sign.2 = sign'.2

theorem wrapSigns_alike {signs signs' : List (Cursor × String)} {operand operand' : Tree}
    (h : List.Forall₂ (SignsAlike L) signs signs') (tree : L.tree operand operand') :
    Scans L size size L.tree (wrapSigns signs operand) (wrapSigns signs' operand') := by
  induction h with
  | nil => exact .result tree
  | @cons sign sign' _ _ first _ ih =>
    obtain ⟨start, name⟩ := sign
    obtain ⟨start', _⟩ := sign'
    obtain ⟨place, rfl⟩ := first
    refine .bind ih fun _ _ inner => .node ?_ place (.cons inner .nil)
    split <;> nofun

theorem operand_alike (h : Grammars L size g g')
    (deeper : Scans L (size + 1) size (List.Forall₂ L.tree) g.signature g'.signature)
    (context : Context) :
    Scans L (size + 1) size L.tree (operand g context) (operand g' context) := by
  have sign : Scans L (size + 1) (size + 1) (SignsAlike L)
      (do
        trivia
        let start ← get
        return (start, ← prefixSign))
      (do
        trivia
        let start ← get
        return (start, ← prefixSign)) := by
    refine .seq .trivia (.get fun start start' place _ => ?_)
    exact .bind (.keep prefixSign_alike) fun _ _ same => .result ⟨place, same⟩
  refine .bind (.many sign) fun _ _ signs => ?_
  refine .seq .trivia (.get fun start start' there short => .bind .look ?_)
  rintro text _ rfl
  split
  · refine .bind (.orElse (arrow_alike h there deeper) ?_) fun _ _ inner => wrapSigns_alike signs inner
    exact assertion_alike h (h.expression context) there
  · refine .bind .peekWord ?_
    rintro name _ rfl
    split
    · exact .bind (yielding_alike h context there) fun _ _ inner => wrapSigns_alike signs inner
    · exact .bind (place_alike h deeper context) fun _ _ inner => wrapSigns_alike signs inner

/-! ## Whole expressions -/

/-- The mark of a condition, which no access to a member starts with. -/
theorem conditionMark_alike :
    Scans L size size Eq
      (symbolUnless "?" ['?', '.'] <|> (do
        match ← look with
        | '?' :: '.' :: c :: _ => if c.isDigit then pass 1 else failure
        | _ => failure))
      (symbolUnless "?" ['?', '.'] <|> (do
        match ← look with
        | '?' :: '.' :: c :: _ => if c.isDigit then pass 1 else failure
        | _ => failure)) := by
  refine .orElse .symbolUnlessStays (.bind .look ?_)
  rintro text _ rfl
  split
  · exact .ite (.advance 1) .fail
  · exact .fail

theorem continuation_alike (h : Grammars L size g g')
    (deeper : Scans L (size + 1) size (List.Forall₂ L.tree) g.signature g'.signature)
    (context : Context) :
    Scans L size size (List.Forall₂ L.tree) (continuation g context)
      (continuation g' context) := by
  have chosen (arrowTypes : Bool) : Scans L size size L.tree
      (do
        let yes ← g.expression ⟨false, arrowTypes⟩
        symbol ":"
        return yes)
      (do
        let yes ← g'.expression ⟨false, arrowTypes⟩
        symbol ":"
        return yes) :=
    .bind (h.expression _) fun _ _ yes => .seq .symbolStays (.result yes)
  refine .step .continues (.orElse ?_ (.orElse ?_ ?_))
  · refine .seq (.stay (.keywordIn _)) (.within ?_ (.result .nil))
    exact .orElse (.stay (.keyword _)) h.type
  · refine .seq operator_alike ?_
    exact .bind (.stay (operand_alike h deeper context)) fun _ _ next => .result (.cons next .nil)
  · refine .within conditionMark_alike (.bind (.orElse (chosen true) (chosen false)) fun _ _ yes => ?_)
    exact .bind (h.expression context) fun _ _ no => .result (.cons yes (.cons no .nil))

theorem readExpression_alike (h : Grammars L size g g')
    (deeper : Scans L (size + 1) size (List.Forall₂ L.tree) g.signature g'.signature)
    (context : Context) :
    Scans L (size + 1) size L.tree (readExpression g context) (readExpression g' context) := by
  refine .bind (.many (.keep .markup)) fun skipped skipped' marks => ?_
  refine .seq .trivia (.get fun start start' place _ => ?_)
  refine .bind (operand_alike h deeper context) fun _ _ first => ?_
  refine .bind (.many (continuation_alike h deeper context)) fun _ _ others => ?_
  cases others with
  | nil =>
    have same : skipped.isEmpty = skipped'.isEmpty := by cases marks <;> rfl
    dsimp only
    rw [same]
    exact .ite (.result first) (.node nofun place (.cons first .nil))
  | cons other others =>
    exact .node nofun place (.cons first (List.rel_flatten (.cons other others)))

theorem readPattern_alike (h : Grammars L size g g') :
    Scans L (size + 1) size L.tree (readPattern g) (readPattern g') := by
  refine .orElse (.spanned nofun ?_) (.orElse (destructuring_alike h) ?_)
  · exact .seq (.symbol (by decide)) (.bind h.pattern fun _ _ inner => .result (.cons inner .nil))
  · refine .seq .trivia (.get fun start start' place _ => ?_)
    refine .bind (wordLeaf_alike nofun) fun _ _ base => ?_
    rw [← L.rest place]
    refine .bind (suffixes_alike h _ true place _ base) fun _ _ found => ?_
    rw [isAssignable_alike found]
    exact .failIf (.result found)

end BlockLoom.Script
