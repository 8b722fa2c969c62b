import BlockLoom.Proofs.Script.Likeness.Expression

/-!
Statements run alike in like grammars. A statement may start with an expression or a block,
so that these have to run alike on the whole of its text.
-/

namespace BlockLoom.Script

open Scan

variable {L : Likeness} {size : Nat} {g g' : Grammar}

/-! ## Declarations -/

theorem declarator_alike (h : Grammars L size g g') :
    Scans L size size L.tree (declarator g) (declarator g') := by
  refine .spanned nofun (.bind (.stay (binding_alike h)) fun _ _ bound => ?_)
  refine .seq (.accepts .symbolUnlessStays) (.seq (.accepts (.stay (ascription_alike h))) ?_)
  refine .bind (.optional? (.stay (initializer_alike h _))) fun _ _ value => ?_
  exact .result (forall₂_cons_toList bound value)

theorem declarators_alike (h : Grammars L size g g') :
    Scans L size size (List.Forall₂ L.tree) (declarators g) (declarators g') := by
  refine .bind (.separatedInside (declarator_alike h)) fun _ _ found => ?_
  exact .seq (.statementEnd true) (.result found)

theorem namedFunction_alike (h : Grammars L size g g') :
    Scans L size size (List.Forall₂ L.tree) (namedFunction g) (namedFunction g') := by
  refine .seq (.accepts .symbolStays) (.seq (.stay .word) ?_)
  refine .bind h.signature fun _ _ given => .bind .look ?_
  rintro text _ rfl
  split
  · exact .bind h.block fun _ _ body => .result (List.rel_append given (.cons body .nil))
  · exact .seq (.statementEnd false) (.result given)

theorem enumMember_alike (h : Grammars L size g g') :
    Scans L size size L.tree (enumMember g) (enumMember g') := by
  refine .spanned nofun (.bind (.stay (memberKey_alike h)) fun _ _ key => ?_)
  refine .bind (.optional? (.stay (initializer_alike h _))) fun _ _ value => ?_
  exact .result (forall₂_cons_toList key value)

theorem enumRest_alike (h : Grammars L size g g') :
    Scans L size size (List.Forall₂ L.tree) (enumRest g) (enumRest g') :=
  .seq (.stay .word) (.seq .symbolStays (.closed (enumMember_alike h)))

theorem interfaceRest_alike (h : Grammars L size g g') :
    Scans L size size Eq (interfaceRest g) (interfaceRest g') := by
  refine .seq (.stay .word) (.seq (.accepts (.stay (typeParameters_alike h))) ?_)
  refine .seq (.accepts (.seq (.stay (.keyword _)) (.separatedInside h.type))) ?_
  exact .stay (objectType_alike h)

theorem aliasRest_alike (h : Grammars L size g g') :
    Scans L size size Eq (aliasRest g) (aliasRest g') := by
  refine .seq (.stay .word) (.seq (.accepts (.stay (typeParameters_alike h))) ?_)
  exact .seq .symbolUnlessStays (.seq h.type (.statementEnd true))

theorem moduleRest_alike (h : Grammars L size g g') :
    Scans L size size (List.Forall₂ L.tree) (moduleRest g) (moduleRest g') := by
  refine .within (.orElse (.stay dottedName_alike) (.seq (.stay string_alike) (.result rfl))) ?_
  refine .bind (.optional? h.block) fun body body' found => ?_
  have same : body.isNone = body'.isNone := by cases found <;> rfl
  rw [same]
  exact .step (.statementEnd false) (.result (forall₂_toList found))

theorem nameFollows_alike : Scans L size size Eq nameFollows nameFollows := by
  refine .get fun here here' place short => .bind (.stay .word) ?_
  rintro name _ rfl
  exact .failIf (.set place short)

theorem valueDeclaration_alike (h : Grammars L size g g') (name : String) :
    Scans L size size (List.Forall₂ L.tree) (valueDeclaration g name)
      (valueDeclaration g' name) := by
  unfold valueDeclaration
  split
  · exact .seq (.stay (.keyword _)) (namedFunction_alike h)
  · exact .seq (.stay (.keyword _)) (.seq (.stay (.keyword _)) (namedFunction_alike h))
  · exact .seq (.stay (.keyword _)) (.seq nameFollows_alike (classRest_alike h))
  · exact .seq (.stay (.keyword _)) (.seq (.stay (.keyword _)) (classRest_alike h))
  · exact .fail

/-! ## Modules -/

theorem fromClause_alike : Scans L size size Eq fromClause fromClause :=
  .seq (.stay (.keyword _)) (.seq (.stay string_alike) (.result rfl))

theorem importAttributes_alike (h : Grammars L size g g') :
    Scans L size size Eq (importAttributes g) (importAttributes g') :=
  .seq (.stay (.keywordIn _)) (.seq (.stay (object_alike h)) (.result rfl))

theorem exportedName_alike : Scans L size size Eq exportedName exportedName :=
  .orElse (.seq (.stay string_alike) (.result rfl)) (.seq (.stay .word) (.result rfl))

theorem nameList_alike : Scans L size size Eq nameList nameList := by
  have name : Scans L size size Eq
      (do
        (do
          keywordIn ["type", "typeof"]
          exportedName) <|> exportedName
        let _ ← accepts do
          keyword "as"
          exportedName)
      (do
        (do
          keywordIn ["type", "typeof"]
          exportedName) <|> exportedName
        let _ ← accepts do
          keyword "as"
          exportedName) := by
    refine .within (.orElse (.seq (.stay (.keywordIn _)) exportedName_alike) exportedName_alike) ?_
    exact .seq (.accepts (.seq (.stay (.keyword _)) exportedName_alike)) (.result rfl)
  exact .seq .symbolStays (.seq (.closed name) (.result rfl))

/-- All names of a module under one name. -/
private theorem renamed_alike : Scans L size size Eq
    (do
      symbol "*"
      keyword "as"
      let _ ← word)
    (do
      symbol "*"
      keyword "as"
      let _ ← word) :=
  .seq .symbolStays (.seq (.stay (.keyword _)) (.seq (.stay .word) (.result rfl)))

theorem importClause_alike : Scans L size size Eq importClause importClause := by
  refine .orElse nameList_alike (.orElse renamed_alike (.seq (.stay .word) ?_))
  refine .seq (.tried (.seq .symbolStays ?_)) (.result rfl)
  exact .orElse nameList_alike renamed_alike

theorem importRest_alike (h : Grammars L size g g') :
    Scans L size size (List.Forall₂ L.tree) (importRest g) (importRest g') := by
  have ending : Scans L size size (List.Forall₂ L.tree)
      (do
        statementEnd false
        return [])
      (do
        statementEnd false
        return []) :=
    .seq (.statementEnd false) (.result .nil)
  have attributes : Scans L size size Eq (accepts (importAttributes g))
      (accepts (importAttributes g')) :=
    .accepts (importAttributes_alike h)
  refine .orElse ?_ (.orElse ?_ ?_)
  · exact .seq (.stay string_alike) (.seq attributes ending)
  · refine .seq (.tried (.seq (.stay (.keywordIn _)) (.absent fromClause_alike))) ?_
    exact .seq importClause_alike (.seq fromClause_alike (.seq attributes ending))
  · refine .seq (.accepts (.stay (.keyword _))) (.seq (.stay .word) (.seq .symbolStays ?_))
    refine .within (.orElse ?_ (.stay dottedName_alike)) ending
    refine .seq (.stay (.keyword _)) (.seq .symbolStays ?_)
    exact .seq (.stay string_alike) .symbolStays

theorem exportRest_alike (h : Grammars L size g g') :
    Scans L size size (List.Forall₂ L.tree) (exportRest g) (exportRest g') := by
  have ending : Scans L size size (List.Forall₂ L.tree)
      (do
        statementEnd false
        return [])
      (do
        statementEnd false
        return []) :=
    .seq (.statementEnd false) (.result .nil)
  have value : Scans L size size (List.Forall₂ L.tree)
      (do
        let value ← g.expression Context.last
        statementEnd true
        return [value])
      (do
        let value ← g'.expression Context.last
        statementEnd true
        return [value]) :=
    .bind (h.expression _) fun _ _ value => .seq (.statementEnd true) (.result (.cons value .nil))
  have other : Scans L size size (List.Forall₂ L.tree) (do return [← g.statement])
      (do return [← g'.statement]) :=
    .bind h.statement fun _ _ inner => .result (.cons inner .nil)
  refine .bind .peekWord ?_
  rintro name _ rfl
  split
  · refine .seq (.stay (.keyword _)) (.orElse (.bind .peekWord ?_) (.orElse ?_ value))
    · rintro name _ rfl
      exact valueDeclaration_alike h name
    · exact .seq (.stay (.keyword _)) (.seq (interfaceRest_alike h) (.result .nil))
  · refine .orElse ?_ (.orElse ?_ (.orElse (.seq .symbolUnlessStays value) other))
    · refine .seq .symbolStays ?_
      refine .seq (.accepts (.seq (.stay (.keyword _)) exportedName_alike)) ?_
      exact .seq fromClause_alike ending
    · exact .seq nameList_alike (.seq (.accepts fromClause_alike) ending)
  · refine .ite ?_ (.orElse ?_ other)
    · refine .seq (.stay (.keyword _)) (.seq (.stay (.keyword _)) ?_)
      exact .seq (.stay .word) ending
    · refine .seq (.stay (.keyword _)) (.seq nameList_alike ?_)
      exact .seq (.accepts fromClause_alike) ending

/-! ## Control -/

theorem caseBody_alike (h : Grammars L size g g') :
    Scans L size size (List.Forall₂ L.tree) (caseBody g) (caseBody g') := by
  refine .seq .symbolStays (.many (.seq (.absent ?_) (.seq (.absent ?_) h.statement)))
  · exact .seq (.stay (.keyword _)) .symbolStays
  · refine .seq (.stay (.keyword _)) (.absent (.stay ?_))
    exact .orElse (.symbol (by decide)) (.orElse (.symbol (by decide)) (.symbol (by decide)))

theorem switchCase_alike (h : Grammars L size g g') :
    Scans L size size L.tree (switchCase g) (switchCase g') := by
  refine .orElse (.spanned nofun (.seq (.stay (.keyword _)) ?_)) (.spanned nofun ?_)
  · refine .bind (expressions_alike h (h.expression _)) fun _ _ value => ?_
    exact .bind (caseBody_alike h) fun _ _ body => .result (.cons value body)
  · exact .seq (.stay (.keyword _)) (caseBody_alike h)

theorem eachHead_alike (h : Grammars L size g g') :
    Scans L size size (List.Forall₂ L.tree) (eachHead g) (eachHead g') := by
  have bound : Scans L size size (List.Forall₂ L.tree)
      ((do
          keywordIn ["var", "let", "const", "using"]
          let bound ← binding g
          let value ← optional? (initializer g Context.inner)
          return bound :: value.toList)
        <|> (do return [← g.pattern])
        <|> (do return [← group g]))
      ((do
          keywordIn ["var", "let", "const", "using"]
          let bound ← binding g'
          let value ← optional? (initializer g' Context.inner)
          return bound :: value.toList)
        <|> (do return [← g'.pattern])
        <|> (do return [← group g'])) := by
    refine .orElse (.seq (.stay (.keywordIn _)) ?_) (.orElse ?_ ?_)
    · refine .bind (.stay (binding_alike h)) fun _ _ bound => ?_
      refine .bind (.optional? (.stay (initializer_alike h _))) fun _ _ value => ?_
      exact .result (forall₂_cons_toList bound value)
    · exact .bind h.pattern fun _ _ bound => .result (.cons bound .nil)
    · exact .bind (.stay (group_alike h)) fun _ _ bound => .result (.cons bound .nil)
  refine .seq .symbolStays (.bind bound fun _ _ bound => .seq (.stay (.keywordIn _)) ?_)
  refine .bind (expressions_alike h (h.expression _)) fun _ _ items => ?_
  exact .seq .symbolStays (.result (List.rel_append bound (.cons items .nil)))

theorem countHead_alike (h : Grammars L size g g') :
    Scans L size size (List.Forall₂ L.tree) (countHead g) (countHead g') := by
  have part : Scans L size size (Option.Rel L.tree) (optional? (expressions g Context.inner))
      (optional? (expressions g' Context.inner)) :=
    .optional? (expressions_alike h (h.expression _))
  have first : Scans L size size (List.Forall₂ L.tree)
      ((do
          keywordIn ["var", "let", "const"]
          let found ← separated (declarator g) ","
          symbol ";"
          return found)
        <|> (do
          let found ← optional? (expressions g Context.inner)
          symbol ";"
          return found.toList))
      ((do
          keywordIn ["var", "let", "const"]
          let found ← separated (declarator g') ","
          symbol ";"
          return found)
        <|> (do
          let found ← optional? (expressions g' Context.inner)
          symbol ";"
          return found.toList)) := by
    refine .orElse (.seq (.stay (.keywordIn _)) ?_) ?_
    · refine .bind (.separatedInside (declarator_alike h)) fun _ _ found => ?_
      exact .seq .symbolStays (.result found)
    · exact .bind part fun _ _ found => .seq .symbolStays (.result (forall₂_toList found))
  refine .seq .symbolStays (.bind first fun _ _ first => .bind part fun _ _ test => ?_)
  refine .seq .symbolStays (.bind part fun _ _ step => .seq .symbolStays (.result ?_))
  exact List.rel_append (List.rel_append first (forall₂_toList test)) (forall₂_toList step)

theorem jumpEnd_alike : Scans L size size Eq jumpEnd jumpEnd :=
  .orElse (.statementEnd false) (.seq (.stay .word) (.statementEnd true))

/-! ## Statements -/

theorem expressionStatement_alike (h : Grammars L size g g')
    (deeper : Scans L (size + 1) size L.tree (g.expression Context.last)
      (g'.expression Context.last)) :
    Scans L (size + 1) size L.tree (expressionStatement g) (expressionStatement g') := by
  refine .seq .trivia (.get fun start start' place _ => ?_)
  refine .bind (expressions_alike h deeper) fun _ _ inner => .seq (.statementEnd true) ?_
  exact .node nofun place (.cons inner .nil)

theorem labelled_alike (h : Grammars L size g g') :
    Scans L (size + 1) size L.tree (labelled g) (labelled g') := by
  refine .spanned nofun (.seq .word (.seq .symbolStays ?_))
  exact .bind h.statement fun _ _ inner => .result (.cons inner .nil)

theorem readBlock_alike (h : Grammars L size g g') :
    Scans L (size + 1) size L.tree (readBlock g) (readBlock g') := by
  refine .spanned nofun (.seq (.symbol (by decide)) ?_)
  refine .bind (.many h.statement) fun _ _ statements => ?_
  exact .seq .symbolStays (.result statements)

/-- What is done with an exception. -/
private theorem handler_alike (h : Grammars L size g g') :
    Scans L size size (List.Forall₂ L.tree)
      (do
        keyword "catch"
        let bound ← optional? do
          symbol "("
          let bound ← binding g
          let _ ← accepts (ascription g)
          symbol ")"
          return bound
        return bound.toList ++ [← g.block])
      (do
        keyword "catch"
        let bound ← optional? do
          symbol "("
          let bound ← binding g'
          let _ ← accepts (ascription g')
          symbol ")"
          return bound
        return bound.toList ++ [← g'.block]) := by
  have bound : Scans L size size L.tree
      (do
        symbol "("
        let bound ← binding g
        let _ ← accepts (ascription g)
        symbol ")"
        return bound)
      (do
        symbol "("
        let bound ← binding g'
        let _ ← accepts (ascription g')
        symbol ")"
        return bound) := by
    refine .seq .symbolStays (.bind (.stay (binding_alike h)) fun _ _ bound => ?_)
    exact .seq (.accepts (.stay (ascription_alike h))) (.seq .symbolStays (.result bound))
  refine .seq (.stay (.keyword _)) (.bind (.optional? bound) fun _ _ bound => ?_)
  refine .bind h.block fun _ _ body => .result ?_
  exact List.rel_append (forall₂_toList bound) (.cons body .nil)

theorem wordStatement_alike (h : Grammars L size g g')
    (deeper : Scans L (size + 1) size L.tree (g.expression Context.last)
      (g'.expression Context.last)) (name : String) :
    Scans L (size + 1) size L.tree (wordStatement g name) (wordStatement g' name) := by
  have expression := expressionStatement_alike h deeper
  have plain : Scans L (size + 1) size L.tree (labelled g <|> expressionStatement g)
      (labelled g' <|> expressionStatement g') :=
    .orElse (labelled_alike h) expression
  have form {name : String} {parts parts' : Scan (List Tree)}
      (inner : Scans L size size (List.Forall₂ L.tree) parts parts') :
      Scans L (size + 1) size L.tree
        (spanned .other do
          keyword name
          parts)
        (spanned .other do
          keyword name
          parts') :=
    .spanned nofun (.seq (.keyword name) inner)
  have test : Scans L size size L.tree (condition g) (condition g') := .stay (group_alike h)
  unfold wordStatement
  dsimp only
  split
  · exact form (declarators_alike h)
  · refine form (.orElse ?_ (declarators_alike h))
    exact .seq (.stay (.keyword _)) (enumRest_alike h)
  · refine .orElse (form ?_) plain
    exact .seq (.absent (.stay (.keywordIn _))) (declarators_alike h)
  · refine form (.bind test fun _ _ test => .bind h.statement fun _ _ yes => ?_)
    refine .bind (.optional? (.seq (.stay (.keyword _)) h.statement)) fun _ _ no => ?_
    exact .result (.cons test (forall₂_cons_toList yes no))
  · refine form (.bind test fun _ _ value => .seq .symbolStays ?_)
    refine .bind (.many (switchCase_alike h)) fun _ _ cases' => ?_
    exact .seq .symbolStays (.result (.cons value cases'))
  · refine form (.seq (.accepts (.stay (.keyword _))) ?_)
    refine .bind (.orElse (eachHead_alike h) (countHead_alike h)) fun _ _ head => ?_
    exact .bind h.statement fun _ _ body => .result (List.rel_append head (.cons body .nil))
  · refine form (.bind test fun _ _ test => ?_)
    exact .bind h.statement fun _ _ body => .result (.cons test (.cons body .nil))
  · refine form (.bind h.statement fun _ _ body => .seq (.stay (.keyword _)) ?_)
    refine .bind test fun _ _ test => .seq (.accepts (.statementEnd false)) ?_
    exact .result (.cons body (.cons test .nil))
  · refine form (.bind h.block fun _ _ body => ?_)
    refine .bind (.optional? (handler_alike h)) fun _ _ handler => ?_
    refine .bind (.optional? (.seq (.stay (.keyword _)) h.block)) fun _ _ finish => .result ?_
    refine List.rel_append (.cons body ?_) (forall₂_toList finish)
    cases handler with
    | none => exact .nil
    | some handler => exact handler
  · refine form (.bind test fun _ _ value => ?_)
    exact .bind h.statement fun _ _ body => .result (.cons value (.cons body .nil))
  · exact form (.seq jumpEnd_alike (.result .nil))
  · exact form (.seq jumpEnd_alike (.result .nil))
  · exact form (.seq (.statementEnd false) (.result .nil))
  · refine form (.get fun here here' place short => ?_)
    have given : Scans L size size (List.Forall₂ L.tree)
        (do
          let value ← optional? (expressions g Context.last)
          statementEnd true
          return value.toList)
        (do
          let value ← optional? (expressions g' Context.last)
          statementEnd true
          return value.toList) := by
      refine .bind (.optional? (expressions_alike h (h.expression _))) fun _ _ value => ?_
      exact .seq (.statementEnd true) (.result (forall₂_toList value))
    rw [← L.rest place]
    rcases Scans.impliedEnd? false (here.rest.length + 1) place with
      ⟨stuck, stuck'⟩ | ⟨_, _, found, found', -, -⟩
    · rw [stuck, stuck']
      exact given
    · rw [found, found']
      exact .seq (.statementEnd false) (.result .nil)
  · refine form (.bind (expressions_alike h (h.expression _)) fun _ _ value => ?_)
    exact .seq (.statementEnd true) (.result (.cons value .nil))
  · exact .orElse (form (importRest_alike h)) expression
  · exact .orElse (form (exportRest_alike h)) plain
  · refine .bind (.tried (.get fun here here' place short => ?_)) ?_
    · refine .seq (.keep (.keyword _)) (.seq (.accepts .symbolStays) ?_)
      exact .seq (.keep .word) (.set place short)
    · rintro declared _ rfl
      exact .ite (form (namedFunction_alike h)) expression
  · refine .bind (.tried (.get fun here here' place short => ?_)) ?_
    · exact .seq (.keep (.keyword _)) (.seq nameFollows_alike (.set place short))
    · rintro declared _ rfl
      exact .ite (form (classRest_alike h)) expression
  · refine .bind (.tried (.get fun here here' place short => ?_)) ?_
    · refine .seq (.keep (.keyword _)) (.seq (.keep (.keyword _)) ?_)
      exact .seq (.accepts .symbolStays) (.seq (.keep .word) (.set place short))
    · rintro declared _ rfl
      exact .ite (form (.seq (.stay (.keyword _)) (namedFunction_alike h))) plain
  · exact form (.seq (.stay (.keyword _)) (classRest_alike h))
  · exact form (enumRest_alike h)
  · exact form (.seq (interfaceRest_alike h) (.result .nil))
  · exact .orElse (form (.seq (aliasRest_alike h) (.result .nil))) plain
  · exact .orElse (form (moduleRest_alike h)) plain
  · exact .orElse (form (moduleRest_alike h)) plain
  · refine .orElse (form (.orElse ?_ ?_)) plain
    · refine .seq (.stay (.keyword _)) (.bind h.block fun _ _ body => .result (.cons body .nil))
    · refine .seq nameFollows_alike ?_
      exact .bind h.statement fun _ _ inner => .result (.cons inner .nil)
  · exact plain

theorem readStatement_alike (h : Grammars L size g g')
    (deeper : Scans L (size + 1) size L.tree (g.expression Context.last)
      (g'.expression Context.last))
    (block : Scans L (size + 1) size L.tree g.block g'.block) :
    Scans L (size + 1) size L.tree (readStatement g) (readStatement g') := by
  have expression := expressionStatement_alike h deeper
  refine .seq (.many (.keep .markup)) (.bind .look ?_)
  rintro text _ rfl
  split
  · exact .fail
  · exact .leaf nofun (.symbol (by decide))
  · exact .orElse block expression
  · refine .orElse (.spanned nofun ?_) expression
    refine .bind (decorator_alike h) fun _ _ first => ?_
    refine .bind (.many (.stay (decorator_alike h))) fun _ _ others => ?_
    refine .bind h.statement fun _ _ inner => .result ?_
    exact List.rel_append (.cons first others) (.cons inner .nil)
  · refine .ite (.bind .peekWord ?_) expression
    rintro name _ rfl
    exact wordStatement_alike h deeper name

/-! ## The grammar -/

/-- One more level reads what the levels below read: if two grammars run alike on shorter texts, so
do the grammars that are made of them. -/
theorem Grammars.next {level level' : Nat}
    (h : Grammars L size (grammar level) (grammar level')) :
    Grammars L size (grammar (level + 1)) (grammar (level' + 1)) where
  expressions context less small :=
    readExpression_alike (h.mono (Nat.le_of_lt small)) (h.signatures less small) context
  statements less small :=
    readStatement_alike (h.mono (Nat.le_of_lt small)) (h.expressions _ less small)
      (h.blocks less small)
  blocks _ small := readBlock_alike (h.mono (Nat.le_of_lt small))
  types less small :=
    readType_alike (h.mono (Nat.le_of_lt small)) (h.signatures less small)
  patterns _ small := readPattern_alike (h.mono (Nat.le_of_lt small))
  signatures _ small := readSignature_alike (h.mono (Nat.le_of_lt small))

/-- Three more levels read one more character: the parameters that an expression may start
with, the expression that a statement may start with, and the statement. -/
theorem Grammars.deepen {level level' : Nat}
    (h : Grammars L size (grammar level) (grammar level')) :
    Grammars L (size + 1) (grammar (level + 3)) (grammar (level' + 3)) := by
  have first := h.next
  have second := first.next
  have signature : ∀ less < size + 1, Scans L (less + 1) less (List.Forall₂ L.tree)
      (grammar (level + 1)).signature (grammar (level' + 1)).signature :=
    fun less small => readSignature_alike (h.mono (Nat.le_of_lt_succ small))
  have signature' : ∀ less < size + 1, Scans L (less + 1) less (List.Forall₂ L.tree)
      (grammar (level + 2)).signature (grammar (level' + 2)).signature :=
    fun less small => readSignature_alike (first.mono (Nat.le_of_lt_succ small))
  have expression (context : Context) : ∀ less < size + 1, Scans L (less + 1) less L.tree
      ((grammar (level + 2)).expression context) ((grammar (level' + 2)).expression context) :=
    fun less small =>
      readExpression_alike (first.mono (Nat.le_of_lt_succ small)) (signature less small) context
  have block : ∀ less < size + 1, Scans L (less + 1) less L.tree
      (grammar (level + 2)).block (grammar (level' + 2)).block :=
    fun less small => readBlock_alike (first.mono (Nat.le_of_lt_succ small))
  constructor
  · intro context less small
    exact readExpression_alike (second.mono (Nat.le_of_lt_succ small)) (signature' less small)
      context
  · intro less small
    exact readStatement_alike (second.mono (Nat.le_of_lt_succ small)) (expression _ less small)
      (block less small)
  · intro less small
    exact readBlock_alike (second.mono (Nat.le_of_lt_succ small))
  · intro less small
    exact readType_alike (second.mono (Nat.le_of_lt_succ small)) (signature' less small)
  · intro less small
    exact readPattern_alike (second.mono (Nat.le_of_lt_succ small))
  · intro less small
    exact readSignature_alike (second.mono (Nat.le_of_lt_succ small))

/-- Grammars that are deep enough for a text run alike on it, however deep they are. -/
theorem grammars_alike (size : Nat) {level level' : Nat} (enough : 3 * size ≤ level)
    (enough' : 3 * size ≤ level') : Grammars L size (grammar level) (grammar level') := by
  induction size generalizing level level' with
  | zero =>
    have none {less : Nat} (small : less < 0) : False := Nat.not_lt_zero less small
    exact ⟨fun _ _ small => (none small).elim, fun _ small => (none small).elim,
      fun _ small => (none small).elim, fun _ small => (none small).elim,
      fun _ small => (none small).elim, fun _ small => (none small).elim⟩
  | succ size ih =>
    obtain ⟨level, rfl⟩ : ∃ less, level = less + 3 := ⟨level - 3, by omega⟩
    obtain ⟨level', rfl⟩ : ∃ less, level' = less + 3 := ⟨level' - 3, by omega⟩
    exact (ih (by omega) (by omega)).deepen

/-! ## Scripts -/

theorem hashBang_alike : Scans L size size Eq hashBang hashBang := by
  refine .get fun here here' place _ => ?_
  rw [← L.rest place]
  split
  · exact .advance _
  · exact .result rfl

/-- The statements up to the end of a script. -/
def statements (g : Grammar) : Scan (List Tree) := do
  let found ← many g.statement
  let _ ← many markup
  match ← look with
  | [] => return found
  | _ => failure

theorem statements_alike (h : Grammars L size g g') :
    Scans L size size (List.Forall₂ L.tree) (statements g) (statements g') := by
  refine .bind (.many h.statement) fun _ _ found => ?_
  refine .seq (.many (.stay .markup)) (.bind .look ?_)
  rintro text _ rfl
  split
  · exact .result found
  · exact .fail

/-- Scripts are read alike to their end. -/
theorem program_alike (h : Grammars L size g g') :
    Scans L size size L.tree
      (spanned .program do
        hashBang
        statements g)
      (spanned .program do
        hashBang
        statements g') :=
  .spanned nofun (.seq hashBang_alike (statements_alike h))

end BlockLoom.Script
