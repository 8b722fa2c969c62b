import BlockLoom.Proofs.Script.Likeness.Type

/-!
Keys, patterns, parameters and the members of objects run alike in like grammars.
-/

namespace BlockLoom.Script

open Scan

variable {L : Likeness} {size : Nat} {g g' : Grammar}

/-- A value that may be missing adds at most one node. -/
theorem forall₂_toList {tree tree' : Option Tree} (h : Option.Rel L.tree tree tree') :
    List.Forall₂ L.tree tree.toList tree'.toList := by
  cases h with
  | none => exact .nil
  | some alike => exact .cons alike .nil

/-- A node with a value that may be missing behind it. -/
theorem forall₂_cons_toList {tree tree' : Tree} {value value' : Option Tree}
    (h : L.tree tree tree') (h' : Option.Rel L.tree value value') :
    List.Forall₂ L.tree (tree :: value.toList) (tree' :: value'.toList) :=
  .cons h (forall₂_toList h')

/-! ## Keys -/

/-- A name on its own. -/
theorem wordLeaf_alike {kind : Kind} (fits : kind ≠ .broken) :
    Scans L (size + 1) size L.tree (leaf kind (do let _ ← word)) (leaf kind (do let _ ← word)) :=
  .leaf fits (.seq .word (.result rfl))

/-- The name of a private member. -/
theorem hashName_alike :
    Scans L (size + 1) size L.tree (leaf .other (do symbol "#"; let _ ← word))
      (leaf .other (do symbol "#"; let _ ← word)) :=
  .leaf nofun (.seq (.symbol (by decide)) (.seq (.stay .word) (.result rfl)))

theorem memberKey_alike (h : Grammars L size g g') :
    Scans L (size + 1) size L.tree (memberKey g) (memberKey g') := by
  refine .bind .look ?_
  rintro text _ rfl
  split
  · exact .fail
  · refine .ite string_alike (.ite (.spanned nofun ?_) (.ite hashName_alike ?_))
    · refine .seq (.symbol (by decide)) (.bind (h.expression _) fun _ _ inner => ?_)
      exact .seq .symbolStays (.result (.cons inner .nil))
    · exact .ite number_alike (wordLeaf_alike nofun)

theorem keyFollows_alike : Scans L size size Eq keyFollows keyFollows := by
  refine .bind .look ?_
  rintro text _ rfl
  split
  · exact .ite .fail (.result rfl)
  · exact .fail

theorem modifierIn_alike (names : List String) :
    Scans L (size + 1) size Eq (modifierIn names) (modifierIn names) := by
  refine .bind .word ?_
  rintro found _ rfl
  refine .failIf (.get fun here here' place short => ?_)
  exact .seq keyFollows_alike (.seq (.set place short) (.result rfl))

/-! ## Patterns -/

theorem initializer_alike (h : Grammars L size g g') (context : Context) :
    Scans L (size + 1) size L.tree (initializer g context) (initializer g' context) :=
  .seq (.symbolUnless (by decide)) (h.expression context)

theorem defaulted_alike {before : Nat} {pattern pattern' : Scan Tree} (h : Grammars L size g g')
    (bound : Scans L before size L.tree pattern pattern') :
    Scans L before size L.tree (defaulted g pattern) (defaulted g' pattern') := by
  refine .spanned nofun (.bind bound fun _ _ bound => ?_)
  refine .bind (.optional? (.stay (initializer_alike h _))) fun _ _ value => ?_
  exact .result (forall₂_cons_toList bound value)

theorem objectPattern_alike (h : Grammars L size g g') :
    Scans L (size + 1) size L.tree (objectPattern g) (objectPattern g') := by
  refine .spanned nofun (.seq (.symbol (by decide)) (.elements ?_))
  refine .orElse (.spanned nofun ?_) (.orElse (.spanned nofun ?_) ?_)
  · refine .seq .symbolStays (.bind h.pattern fun _ _ inner => ?_)
    exact .result (.cons inner .nil)
  · refine .bind (.stay (memberKey_alike h)) fun _ _ key => .seq .symbolStays ?_
    refine .bind (defaulted_alike h h.pattern) fun _ _ value => ?_
    exact .result (.cons key (.cons value .nil))
  · exact defaulted_alike h (.stay (wordLeaf_alike nofun))

theorem arrayPattern_alike (h : Grammars L size g g') :
    Scans L (size + 1) size L.tree (arrayPattern g) (arrayPattern g') :=
  .spanned nofun (.seq (.symbol (by decide)) (.elements (defaulted_alike h h.pattern)))

theorem destructuring_alike (h : Grammars L size g g') :
    Scans L (size + 1) size L.tree (destructuring g) (destructuring g') :=
  .orElse (objectPattern_alike h) (arrayPattern_alike h)

theorem binding_alike (h : Grammars L size g g') :
    Scans L (size + 1) size L.tree (binding g) (binding g') :=
  .orElse (destructuring_alike h) (wordLeaf_alike nofun)

/-! ## Arguments and decorators -/

theorem spread_alike (h : Grammars L size g g') :
    Scans L (size + 1) size L.tree (spread g) (spread g') := by
  refine .spanned nofun (.seq (.symbol (by decide)) (.bind (h.expression _) fun _ _ inner => ?_))
  exact .result (.cons inner .nil)

theorem callArguments_alike (h : Grammars L size g g') :
    Scans L (size + 1) size L.tree (callArguments g) (callArguments g') :=
  .spanned nofun <| .seq (.symbol (by decide)) <| .elements <| .orElse (.stay (spread_alike h)) (h.expression _)

theorem propertyName_alike : Scans L (size + 1) size L.tree propertyName propertyName :=
  .leaf nofun (.seq (.accepts .symbolStays) (.seq .word (.result rfl)))

theorem dotted_alike {start start' : Cursor} (place : L.place start start') (count : Nat)
    {owner owner' : Tree} (h : L.tree owner owner') :
    Scans L size size L.tree (dotted start count owner) (dotted start' count owner') := by
  induction count generalizing owner owner' with
  | zero => exact .result h
  | succ count ih =>
    refine .orElse (.seq .symbolStays ?_) (.result h)
    refine .bind (.stay propertyName_alike) fun _ _ name => ?_
    exact .bind (.node nofun place (.cons h (.cons name .nil))) fun _ _ next => ih next

theorem decorator_alike (h : Grammars L size g g') :
    Scans L (size + 1) size L.tree (decorator g) (decorator g') := by
  refine .spanned nofun (.seq (.symbol (by decide)) (.orElse ?_ ?_))
  · refine .seq .symbolStays (.bind (h.expression _) fun _ _ inner => ?_)
    exact .seq .symbolStays (.result (.cons inner .nil))
  · refine .seq .trivia (.get fun start start' place _ => ?_)
    refine .bind (.stay (wordLeaf_alike nofun)) fun _ _ name => ?_
    rw [← L.rest place]
    refine .bind (dotted_alike place _ name) fun _ _ callee => .orElse ?_ ?_
    · refine .seq (.accepts (.stay (typeArguments_alike h))) ?_
      refine .bind (.stay (callArguments_alike h)) fun _ _ given => ?_
      refine .bind (.node nofun place (.cons callee (.cons given .nil))) fun _ _ call => ?_
      exact .result (.cons call .nil)
    · exact .result (.cons callee .nil)

/-! ## Parameters -/

/-- A modifier counts as one only if a parameter can begin behind it. -/
theorem modifierBefore_alike (names : List String) :
    Scans L size size Eq
      (accepts do
        keywordIn names
        let here ← get
        match ← look with
        | c :: _ => if !(isWordStart c || c == '\x7b' || c == '[' || c == '.') then failure
        | [] => failure
        set here)
      (accepts do
        keywordIn names
        let here ← get
        match ← look with
        | c :: _ => if !(isWordStart c || c == '\x7b' || c == '[' || c == '.') then failure
        | [] => failure
        set here) := by
  refine .tried (.seq (.stay (.keywordIn names)) (.get fun here here' place short => ?_))
  refine .bind .look ?_
  rintro text _ rfl
  split
  · exact .failIf (.set place short)
  · exact .within .fail (.set place short)

theorem parameter_alike (h : Grammars L size g g') :
    Scans L size size L.tree (parameter g) (parameter g') := by
  refine .spanned nofun (.bind (.many (.stay (decorator_alike h))) fun _ _ decorators => ?_)
  refine .seq (modifierBefore_alike _) (.seq (modifierBefore_alike _) ?_)
  refine .seq (modifierBefore_alike _) ?_
  refine .bind h.pattern fun _ _ bound => .seq (.accepts .symbolUnlessStays) ?_
  refine .seq (.accepts (.stay (ascription_alike h))) ?_
  refine .bind (.optional? (.stay (initializer_alike h _))) fun _ _ value => ?_
  exact .result (List.rel_append decorators (forall₂_cons_toList bound value))

theorem parameters_alike (h : Grammars L size g g') :
    Scans L (size + 1) size (List.Forall₂ L.tree) (parameters g) (parameters g') :=
  .seq (.symbol (by decide)) (.closed (parameter_alike h))

theorem readSignature_alike (h : Grammars L size g g') :
    Scans L (size + 1) size (List.Forall₂ L.tree) (readSignature g) (readSignature g') := by
  refine .seq (.accepts (.keep (typeParameters_alike h))) ?_
  refine .bind (parameters_alike h) fun _ _ found => ?_
  exact .seq (.accepts (.seq .symbolStays (resultType_alike h))) (.result found)

/-! ## Objects -/

theorem objectMethod_alike (h : Grammars L size g g') :
    Scans L (size + 1) size L.tree (objectMethod g) (objectMethod g') := by
  have modifier (names : List String) : Scans L (size + 1) (size + 1) (Option.Rel Eq)
      (optional? (modifierIn names)) (optional? (modifierIn names)) :=
    .optional? (.keep (modifierIn_alike names))
  refine .seq .trivia (.get fun start start' place _ => ?_)
  refine .seq (modifier _) (.seq (modifier _) (.seq (modifier _) ?_))
  refine .seq (modifier _) (.seq (modifier _) (.bind (modifier _) fun access access' same => ?_))
  obtain rfl : access = access' := by cases same with | none => rfl | some same => rw [same]
  refine .step (.accepts .symbolStays) ?_
  refine .bind (memberKey_alike h) fun _ _ key => .seq (.accepts .symbolStays) ?_
  refine .bind h.signature fun _ _ given => .bind h.block fun _ _ body => ?_
  exact .node nofun place (List.rel_append (.cons key given) (.cons body .nil))

theorem objectMember_alike (h : Grammars L size g g') :
    Scans L (size + 1) size L.tree (objectMember g) (objectMember g') := by
  refine .bind .look ?_
  rintro text _ rfl
  split
  · exact spread_alike h
  · refine .orElse (.spanned nofun ?_) (.orElse (objectMethod_alike h) (wordLeaf_alike nofun))
    refine .bind (memberKey_alike h) fun _ _ key => .seq .symbolStays ?_
    exact .bind (h.expression _) fun _ _ value => .result (.cons key (.cons value .nil))

theorem object_alike (h : Grammars L size g g') :
    Scans L (size + 1) size L.tree (object g) (object g') := by
  have member : Scans L size size (List.Forall₂ L.tree)
      (do
        let before ← many markup
        return before ++ [← objectMember g])
      (do
        let before ← many markup
        return before ++ [← objectMember g']) := by
    refine .bind (.many (.stay .markup)) fun _ _ before => ?_
    refine .bind (.stay (objectMember_alike h)) fun _ _ member => ?_
    exact .result (List.rel_append before (.cons member .nil))
  refine .spanned nofun (.seq (.symbol (by decide)) ?_)
  refine .bind (.elements member) fun _ _ members => ?_
  exact .result (List.rel_flatten members)

end BlockLoom.Script
