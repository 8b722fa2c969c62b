import BlockLoom.Text.Blank
import Mathlib.Data.List.DropRight

/-!
Trimming. A text is trimmed once and for all, and only what stands between its first and
its last solid character matters.
-/

namespace BlockLoom.Text

/-- A text that starts and ends with something else has no white space to trim. -/
theorem trimList_solid {text rest inner : List Char} {c d : Char} (first : text = c :: rest)
    (last : text = inner ++ [d]) (hc : isWhiteSpace c = false)
    (hd : isWhiteSpace d = false) : trimList text = text := by
  have left : text.dropWhile isWhiteSpace = text := by
    rw [first, List.dropWhile_cons_of_neg (by simp [hc])]
  have right : text.reverse.dropWhile isWhiteSpace = text.reverse := by
    rw [last, List.reverse_append, List.reverse_singleton, List.singleton_append,
      List.dropWhile_cons_of_neg (by simp [hd])]
  rw [trimList, left, right, List.reverse_reverse]

/-- A text without white space has none to trim. -/
theorem trimList_of_forall {text : List Char} (h : ∀ c ∈ text, isWhiteSpace c = false) :
    trimList text = text := by
  have kept {text : List Char} (h : ∀ c ∈ text, isWhiteSpace c = false) :
      text.dropWhile isWhiteSpace = text := by
    cases text with
    | nil => rfl
    | cons c rest => exact List.dropWhile_cons_of_neg (by simp [h c List.mem_cons_self])
  rw [trimList, kept h, kept fun c mem => h c (List.mem_reverse.mp mem), List.reverse_reverse]

theorem trimList_blank {c : Char} (h : isWhiteSpace c = true) (text : List Char) :
    trimList (c :: text) = trimList text := by
  rw [trimList, List.dropWhile_cons_of_pos h, trimList]

theorem trimList_trimList (text : List Char) : trimList (trimList text) = trimList text := by
  have trimmed : trimList text = (text.dropWhile isWhiteSpace).rdropWhile isWhiteSpace := rfl
  have inner := List.dropWhile_eq_self_iff.mp (List.dropWhile_idempotent isWhiteSpace text)
  -- What is dropped at the end leaves the beginning as it is.
  have same : (trimList text).dropWhile isWhiteSpace = trimList text := by
    rw [trimmed]
    refine List.dropWhile_eq_self_iff.mpr fun filled => ?_
    rw [(List.rdropWhile_prefix isWhiteSpace _).getElem filled]
    exact inner _
  change ((trimList text).dropWhile isWhiteSpace).rdropWhile isWhiteSpace = _
  rw [same, trimmed, List.rdropWhile_idempotent]

/-- The end of a trimmed text is trimmed; only white space at its start can be cut off. -/
theorem takeWhile_append_trimList {text rest : List Char} (trimmed : trimList text = text)
    (suffix : rest <:+ text) : rest.takeWhile isWhiteSpace ++ trimList rest = rest := by
  have last (filled : text ≠ []) : ¬ isWhiteSpace (text.getLast filled) := by
    have again : text.rdropWhile isWhiteSpace = text := by
      rw [← trimmed]
      exact List.rdropWhile_idempotent isWhiteSpace _
    exact List.rdropWhile_eq_self_iff.mp again filled
  have kept : (rest.dropWhile isWhiteSpace).rdropWhile isWhiteSpace =
      rest.dropWhile isWhiteSpace := by
    refine List.rdropWhile_eq_self_iff.mpr fun filled => ?_
    have inner := (List.dropWhile_suffix isWhiteSpace).trans suffix
    rw [inner.getLast filled]
    exact last _
  change rest.takeWhile isWhiteSpace ++ (rest.dropWhile isWhiteSpace).rdropWhile isWhiteSpace = rest
  rw [kept, List.takeWhile_append_dropWhile]

theorem trimmed?_congr {text other : String} (h : trimList text.toList = trimList other.toList) :
    trimmed? text = trimmed? other := by
  unfold trimmed?
  rw [trim, trim, h]

theorem toList_of_trimmed? {text inner : String} (h : trimmed? text = some inner) :
    inner.toList = trimList text.toList := by
  unfold trimmed? at h
  dsimp only at h
  split at h
  · cases h
  · cases h
    rw [trim, String.toList_ofList]

/-- A text is trimmed once and for all. -/
theorem trimmed?_of_trimmed? {text inner : String} (h : trimmed? text = some inner) :
    trimmed? inner = some inner := by
  unfold trimmed? at h ⊢
  dsimp only at h ⊢
  split at h
  · cases h
  · next filled =>
    cases h
    have same : trim (trim text) = trim text := by
      rw [trim, trim, String.toList_ofList, trimList_trimList]
    rw [same, if_neg filled]

theorem isBlankText_of_trimmed? {text inner : String} (h : trimmed? text = some inner) :
    isBlankText inner = false := by
  rw [Bool.eq_false_iff]
  intro blank
  have all := List.all_eq_true.mp blank
  have empty : trimList inner.toList = [] := by
    rw [trimList, List.dropWhile_eq_nil_iff.mpr all]
    rfl
  have again := toList_of_trimmed? (trimmed?_of_trimmed? h)
  rw [empty] at again
  rw [String.toList_eq_nil_iff.mp again] at h
  have none := trimmed?_of_trimmed? h
  cases none

end BlockLoom.Text
