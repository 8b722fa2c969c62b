import BlockLoom.Proofs.Script.Likeness

/-!
Literals and types run alike in like grammars. Each scanner moves on, so that what stands
inside it is read in a shorter text.
-/

namespace BlockLoom.Script

open Scan

variable {L : Likeness} {size : Nat} {g g' : Grammar}

/-! ## Literals -/

theorem number_alike : Scans L (size + 1) size L.tree number number := by
  refine .lookAt fun here here' place still short => ?_
  dsimp only
  split
  · exact .none
  · next some =>
    refine Scans.leafPass nofun place still short ?_ some
    intro empty
    exact some (by rw [empty]; rfl)

theorem string_alike : Scans L (size + 1) size L.tree string string := by
  refine .lookAt fun here here' place still short => ?_
  split
  · exact .none
  · next quote rest text =>
    have filled : here.rest ≠ [] := by
      rw [text]
      exact List.cons_ne_nil _ _
    split
    · split
      · exact Scans.leafPass nofun place still short filled (Nat.succ_ne_zero _)
      · exact .none
    · exact .none

theorem regex_alike : Scans L (size + 1) size L.tree regex regex := by
  refine .lookAt fun here here' place still short => ?_
  split
  · next rest text =>
    have filled : here.rest ≠ [] := by
      rw [text]
      exact List.cons_ne_nil _ _
    split
    · split
      · exact .none
      · exact Scans.leafPass nofun place still short filled (by omega)
    · exact .none
  · exact .none

private theorem escapeLength?_pos {text : List Char} {length : Nat}
    (h : escapeLength? text = some length) : length ≠ 0 := by
  have word {text : List Char} (h : wordEscape? text = some length) : length ≠ 0 := by
    unfold wordEscape? at h
    dsimp only at h
    split at h
    · split at h
      · cases h
        omega
      · cases h
    · split at h
      · cases h
        decide
      · cases h
    · cases h
  unfold escapeLength? at h
  split at h
  · split at h
    · cases h
      decide
    · cases h
  · exact word h
  · cases h
  · split at h
    · cases h
      exact Nat.succ_ne_zero _
    · split at h
      · split at h
        · split at h <;>
            (cases h
             decide)
        · cases h
          decide
      · cases h
        decide
  · cases h

theorem templatePart_alike (h : Grammars L size g g') :
    Scans L (size + 1) size L.tree (templatePart g) (templatePart g') := by
  intro here here' place short
  unfold templatePart
  rw [run_then (run_get here), run_then (run_get here'), ← L.rest place]
  split
  · next rest text =>
    have filled : here.rest ≠ [] := by
      rw [text]
      exact List.cons_ne_nil _ _
    refine (Scans.pass place short filled (by decide)).bind fun _ _ _ => ?_
    refine .bind (.separatedInside (h.expression _)) fun _ _ all => ?_
    exact .seq .symbolStays (.node nofun place all)
  · next rest text =>
    have filled : here.rest ≠ [] := by
      rw [text]
      exact List.cons_ne_nil _ _
    split
    · next length found =>
      exact (Scans.pass place short filled (escapeLength?_pos found)).bind fun _ _ _ =>
        .node nofun place .nil
    · exact .none
  · dsimp only
    split
    · exact .none
    · next some =>
      have filled : here.rest ≠ [] := by
        intro empty
        exact some (by rw [empty]; rfl)
      exact (Scans.pass place short filled some).bind fun _ _ _ => .node nofun place .nil

/-- What is done at the closing mark of a template, and what is done elsewhere. -/
private theorem backtick_alike {α : Type} {like : α → α → Prop} {yes yes' no no' : Scan α}
    (h : Scans L size size like yes yes') (h' : Scans L size size like no no') :
    Scans L size size like
      (do
        match (← get).rest with
        | '\x60' :: _ => yes
        | _ => no)
      (do
        match (← get).rest with
        | '\x60' :: _ => yes'
        | _ => no') := by
  refine .get fun here here' place short => ?_
  rw [← L.rest place]
  split
  · exact h
  · exact h'

theorem template_alike (h : Grammars L size g g') :
    Scans L (size + 1) size L.tree (template g) (template g') := by
  refine .spanned nofun (.seq (.symbol (by decide)) ?_)
  refine .bind (.many (.stay (templatePart_alike h))) ?_
  intro _ _ all
  exact backtick_alike (.seq (.advance 1) (.result all)) (.within .fail (.result all))

/-! ## Types -/

theorem typeArguments_alike (h : Grammars L size g g') :
    Scans L (size + 1) size Eq (typeArguments g) (typeArguments g') := by
  refine .seq (.symbol (by decide)) ?_
  refine .seq (.separatedInside h.type) ?_
  refine .seq (.accepts .symbolStays) ?_
  exact .symbolStays

theorem typeParameters_alike (h : Grammars L size g g') :
    Scans L (size + 1) size Eq (typeParameters g) (typeParameters g') := by
  refine .seq (.symbol (by decide)) (.seq (.listed ?_) ?_)
  · refine .seq (.accepts (.within (.stay (.keyword _)) (.absent ?_))) ?_
    · refine .orElse .symbolUnlessStays (.orElse .symbolStays ?_)
      exact .orElse .symbolStays (.stay (.keyword _))
    refine .seq (.stay .word) ?_
    refine .seq (.accepts (.seq (.stay (.keyword _)) h.type)) ?_
    exact .seq (.accepts (.seq .symbolUnlessStays h.type)) (.result rfl)
  · exact .seq (.accepts .symbolStays) .symbolStays

theorem dottedName_alike : Scans L (size + 1) size Eq dottedName dottedName := by
  refine .seq .word (.seq (.repeated ?_) (.result rfl))
  exact .seq .symbolStays (.seq (.stay .word) (.result rfl))

theorem queried_alike (h : Grammars L size g g') :
    Scans L (size + 1) size Eq (queried g) (queried g') := by
  have imported : Scans L (size + 1) size Eq
      (do keyword "import"; symbol "("; let _ ← string; symbol ")"; symbol ".")
      (do keyword "import"; symbol "("; let _ ← string; symbol ")"; symbol ".") := by
    refine .seq (.keyword _) (.seq .symbolStays (.seq (.stay string_alike) ?_))
    exact .seq .symbolStays .symbolStays
  refine .seq (.accepts (.keep imported)) (.seq .word (.seq (.repeated ?_) ?_))
  · refine .orElse ?_ (.orElse ?_ ?_)
    · refine .within (.orElse .symbolStays .symbolStays) (.orElse ?_ ?_)
      · exact .seq (.stay .word) (.result rfl)
      · exact .seq .symbolStays (.seq (.stay .word) (.result rfl))
    · refine .seq .symbolStays (.seq (.stay (.orElse string_alike number_alike)) ?_)
      exact .symbolStays
    · exact .seq .symbolStays (.seq (.closed (h.expression _)) (.result rfl))
  · exact .seq (.accepts (.stay (typeArguments_alike h))) (.result rfl)

theorem memberName_alike (h : Grammars L size g g') :
    Scans L (size + 1) size Eq (memberName g) (memberName g') := by
  refine .orElse (.seq (.orElse string_alike number_alike) (.result rfl)) ?_
  refine .orElse (.seq (.symbol (by decide)) (.seq (h.expression _) .symbolStays)) ?_
  refine .orElse (.seq (.symbol (by decide)) (.seq (.stay .word) (.result rfl))) ?_
  exact .seq .word (.result rfl)

/-- A sign may stand before some words of object types. -/
private theorem sign_alike :
    Scans L size size Eq (accepts (symbol "+" <|> symbol "-"))
      (accepts (symbol "+" <|> symbol "-")) :=
  .accepts (.orElse .symbolStays .symbolStays)

theorem indexKey_alike (h : Grammars L size g g') :
    Scans L (size + 1) size Eq (indexKey g) (indexKey g') := by
  refine .seq (.accepts (.seq sign_alike (.keep (.keyword _)))) ?_
  refine .seq (.symbol (by decide)) (.seq (.stay .word) (.within (.orElse ?_ ?_) ?_))
  · refine .seq (.stay (.keyword _)) (.seq h.type ?_)
    exact .seq (.accepts (.seq (.stay (.keyword _)) h.type)) (.result rfl)
  · exact .seq .symbolStays h.type
  · refine .seq .symbolStays ?_
    refine .seq (.accepts (.seq sign_alike .symbolStays)) ?_
    exact .seq (.accepts (.seq .symbolStays h.type)) (.result rfl)

/-- A word before a member of an object type. -/
private theorem typeModifier_alike (names : List String) :
    Scans L size size Eq
      (accepts do
        keywordIn names
        absent (symbol ":" <|> symbol "(" <|> symbol "<" <|> symbol "?" <|> symbol ";" <|>
          symbol "," <|> symbol "\x7d"))
      (accepts do
        keywordIn names
        absent (symbol ":" <|> symbol "(" <|> symbol "<" <|> symbol "?" <|> symbol ";" <|>
          symbol "," <|> symbol "\x7d")) := by
  refine .accepts (.within (.stay (.keywordIn names)) (.absent ?_))
  refine .orElse .symbolStays (.orElse .symbolStays (.orElse .symbolStays ?_))
  refine .orElse .symbolStays (.orElse .symbolStays ?_)
  exact .orElse .symbolStays .symbolStays

theorem typeMember_alike (h : Grammars L size g g') :
    Scans L size size Eq (typeMember g) (typeMember g') := by
  refine .orElse (.stay (indexKey_alike h)) (.orElse ?_ ?_)
  · refine .seq (typeModifier_alike _) (.seq (typeModifier_alike _) ?_)
    refine .seq (typeModifier_alike _) (.seq (typeModifier_alike _) ?_)
    refine .seq (typeModifier_alike _) (.seq (typeModifier_alike _) ?_)
    refine .seq (.stay (memberName_alike h)) (.seq (.accepts .symbolStays) ?_)
    refine .orElse (.seq h.signature (.result rfl)) ?_
    exact .seq (.accepts (.seq .symbolStays h.type)) (.result rfl)
  · refine .seq (.accepts (.stay (.keyword _))) (.seq (.accepts (.stay (.keyword _))) ?_)
    exact .seq h.signature (.result rfl)

theorem typeMemberEnd_alike : Scans L size size Eq typeMemberEnd typeMemberEnd := by
  refine .bind (.accepts (.orElse .symbolStays .symbolStays)) fun ended _ same => ?_
  rw [← same]
  exact .ite (.endOr .fail) (.result rfl)

theorem objectType_alike (h : Grammars L size g g') :
    Scans L (size + 1) size Eq (objectType g) (objectType g') := by
  have inside (bar : Bool) : Scans L size size Eq
      (do
        let _ ← accepts (symbol "," <|> symbol ";")
        let _ ← many do
          typeMember g
          typeMemberEnd
        symbol (if bar then "|\x7d" else "\x7d"))
      (do
        let _ ← accepts (symbol "," <|> symbol ";")
        let _ ← many do
          typeMember g'
          typeMemberEnd
        symbol (if bar then "|\x7d" else "\x7d")) := by
    refine .seq (.accepts (.orElse .symbolStays .symbolStays)) ?_
    exact .seq (.many (.seq (typeMember_alike h) typeMemberEnd_alike)) .symbolStays
  exact .acceptsThen (.symbol (by decide)) (inside true) (.seq (.symbol (by decide)) (inside false))

theorem tupleMember_alike (h : Grammars L size g g') :
    Scans L size size Eq (tupleMember g) (tupleMember g') := by
  refine .orElse ?_ ?_
  · refine .seq (.accepts .symbolStays) (.seq (.stay .word) ?_)
    exact .seq (.accepts .symbolStays) (.seq .symbolStays h.type)
  · refine .seq (.accepts .symbolStays) (.seq h.type ?_)
    exact .seq (.accepts .symbolStays) (.result rfl)

/-- A part of a template of types. -/
private theorem typeTemplatePart_alike (h : Grammars L size g g') :
    Scans L size size Eq
      (do
        match (← get).rest with
        | '$' :: '\x7b' :: _ =>
          pass 2
          g.type
          symbol "\x7d"
        | text =>
          let length := templateText text
          if length = 0 then failure
          pass length)
      (do
        match (← get).rest with
        | '$' :: '\x7b' :: _ =>
          pass 2
          g'.type
          symbol "\x7d"
        | text =>
          let length := templateText text
          if length = 0 then failure
          pass length) := by
  refine .get fun here here' place short => ?_
  rw [← L.rest place]
  split
  · exact .seq (.advance 2) (.seq h.type .symbolStays)
  · dsimp only
    split
    · exact .within .fail (.advance _)
    · exact .advance _

theorem typeTemplate_alike (h : Grammars L size g g') :
    Scans L (size + 1) size Eq (typeTemplate g) (typeTemplate g') := by
  refine .seq (.symbol (by decide)) (.seq (.many (typeTemplatePart_alike h)) ?_)
  exact backtick_alike (.advance 1) .fail

theorem functionType_alike (h : Grammars L size g g')
    (deeper : Scans L (size + 1) size (List.Forall₂ L.tree) g.signature g'.signature) :
    Scans L (size + 1) size Eq (functionType g) (functionType g') := by
  refine .seq (.accepts (.keep (.keyword _))) (.seq (.accepts (.keep (.keyword _))) ?_)
  refine .seq (.accepts (.keep (typeParameters_alike h))) (.bind .look ?_)
  rintro text _ rfl
  have shape : Scans L (size + 1) size Eq
      (do
        let _ ← g.signature
        symbol "=>"
        let _ ← accepts do
          keyword "asserts"
          absent (symbol "=>")
        g.type
        let _ ← accepts do
          keyword "is"
          g.type)
      (do
        let _ ← g'.signature
        symbol "=>"
        let _ ← accepts do
          keyword "asserts"
          absent (symbol "=>")
        g'.type
        let _ ← accepts do
          keyword "is"
          g'.type) := by
    refine .seq deeper (.seq .symbolStays ?_)
    refine .seq (.tried (.seq (.stay (.keyword _)) (.absent .symbolStays))) ?_
    refine .seq h.type ?_
    exact .seq (.accepts (.seq (.stay (.keyword _)) h.type)) (.result rfl)
  split
  · exact shape
  · exact .within .fail shape

theorem primaryType_alike (h : Grammars L size g g') :
    Scans L (size + 1) size Eq (primaryType g) (primaryType g') := by
  refine .bind .look ?_
  rintro text _ rfl
  split
  · exact .seq (.symbol (by decide)) (.seq h.type .symbolStays)
  · exact objectType_alike h
  · exact .seq (.symbol (by decide)) (.seq (.closed (tupleMember_alike h)) (.result rfl))
  · exact .seq string_alike (.result rfl)
  · exact .seq string_alike (.result rfl)
  · exact typeTemplate_alike h
  · exact .seq (.symbol (by decide)) (.seq (.stay number_alike) (.result rfl))
  · exact .seq (.symbol (by decide)) (.seq (.stay number_alike) (.result rfl))
  · exact .symbol (by decide)
  · exact .seq (.symbol (by decide)) h.type
  · next c rest _ _ _ _ _ _ _ _ _ _ =>
    refine .ite (.seq number_alike (.result rfl)) (.bind .peekWord ?_)
    rintro name _ rfl
    refine .ite (.orElse (.seq (.keyword name) h.type) dottedName_alike) ?_
    refine .ite (.orElse (.seq (.keyword name) (.stay (.keyword _))) dottedName_alike) ?_
    refine .ite (.orElse ?_ dottedName_alike) ?_
    · refine .seq (.keyword name) (.seq (.stay .word) ?_)
      exact .seq (.accepts (.seq (.stay (.keyword _)) h.type)) (.result rfl)
    refine .ite (.seq (.keyword name) (.stay (queried_alike h))) ?_
    exact .seq dottedName_alike (.seq (.accepts (.stay (typeArguments_alike h))) (.result rfl))
  · exact .fail

theorem postfixType_alike (h : Grammars L size g g') :
    Scans L (size + 1) size Eq (postfixType g) (postfixType g') := by
  refine .seq (primaryType_alike h) (.seq (.repeated ?_) (.result rfl))
  exact .seq .symbolStays (.seq (.accepts h.type) .symbolStays)

theorem joinedType_alike (h : Grammars L size g g')
    (deeper : Scans L (size + 1) size (List.Forall₂ L.tree) g.signature g'.signature) :
    Scans L (size + 1) size Eq (joinedType g) (joinedType g') := by
  have join : Scans L (size + 1) size Eq
      (symbolUnless "|" ['|', '=', '\x7d'] <|> symbolUnless "&" ['&', '='])
      (symbolUnless "|" ['|', '=', '\x7d'] <|> symbolUnless "&" ['&', '=']) :=
    .orElse (.symbolUnless (by decide)) (.symbolUnless (by decide))
  refine .seq (.accepts (.keep join)) (.seq (postfixType_alike h) ?_)
  refine .seq (.repeated (.seq (.stay join) (.orElse ?_ ?_))) (.result rfl)
  · exact .stay (functionType_alike h deeper)
  · exact .stay (postfixType_alike h)

theorem readType_alike (h : Grammars L size g g')
    (deeper : Scans L (size + 1) size (List.Forall₂ L.tree) g.signature g'.signature) :
    Scans L (size + 1) size Eq (readType g) (readType g') := by
  refine .seq (.orElse (functionType_alike h deeper) (joinedType_alike h deeper)) ?_
  refine .seq (.tried (.seq (.stay (.keyword _)) (.seq h.type ?_))) (.result rfl)
  exact .seq .symbolStays (.seq h.type (.seq .symbolStays h.type))

theorem resultType_alike (h : Grammars L size g g') :
    Scans L size size Eq (resultType g) (resultType g') := by
  refine .orElse ?_ (.orElse ?_ h.type)
  · refine .seq (.stay (.keyword _)) (.seq (.stay .word) ?_)
    exact .seq (.accepts (.seq (.stay (.keyword _)) h.type)) (.result rfl)
  · exact .seq (.stay .word) (.seq (.stay (.keyword _)) h.type)

theorem ascription_alike (h : Grammars L size g g') :
    Scans L (size + 1) size Eq (ascription g) (ascription g') :=
  .seq (.symbol (by decide)) h.type

end BlockLoom.Script
