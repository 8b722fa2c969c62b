import BlockLoom.Format.Registry
import BlockLoom.Proofs.Fields
import Mathlib.Data.List.Infix
import Mathlib.Order.Basic
import Mathlib.Data.String.Basic

/-!
Formats after any number of registrations. A registry holds, for each name, the format that
was registered last under it, and what it answers depends on nothing else: neither on formats
that were replaced nor on the order in which the entries are kept. A file has the format with
the longest of the extensions that it ends in, provided that no two formats share one.
-/

namespace BlockLoom

namespace Format

theorem mem_sorted {texts : List String} {text : String} : text ∈ sorted texts ↔ text ∈ texts :=
  List.mem_mergeSort

/-- Texts that are apart are sorted in a strict order. -/
theorem sorted_pairwise {texts : List String} (h : texts.Nodup) :
    (sorted texts).Pairwise (· < ·) := by
  have ordered : (sorted texts).Pairwise fun left right => decide (left ≤ right) = true := by
    refine List.pairwise_mergeSort (fun first second third => ?_) (fun first second => ?_) texts
    · simp only [decide_eq_true_eq]
      exact le_trans
    · simpa using le_total first second
  have apart : (sorted texts).Nodup := (List.mergeSort_perm texts _).nodup_iff.mpr h
  refine (ordered.and apart).imp fun both => ?_
  exact lt_of_le_of_ne (of_decide_eq_true both.1) both.2

end Format

namespace Registry

variable {formats others : List Format} {registry : Registry} {format : Format}
  {name path : String}

/-! ## The last registration -/

def ofFormats (formats : List Format) : Registry :=
  formats.foldl register empty

/-- The format that is registered last under a name. -/
def latest? (formats : List Format) (name : String) : Option Format :=
  formats.reverse.find? fun format => format.name = name

theorem latest?_concat (formats : List Format) (format : Format) (name : String) :
    latest? (formats ++ [format]) name =
      if format.name = name then some format else latest? formats name := by
  rw [latest?, List.reverse_append, List.reverse_singleton, List.singleton_append, List.find?_cons]
  by_cases same : format.name = name <;> simp [same, latest?]

theorem latest?_name (h : latest? formats name = some format) : format.name = name := by
  simpa using List.find?_some h

theorem latest?_isSome : (latest? formats name).isSome ↔ ∃ format ∈ formats, format.name = name := by
  simp [latest?]

/-- A format under a name that is registered again is never the last. -/
theorem latest?_replaced (earlier later : List Format) (again : format.name ∈ later.map Format.name)
    (name : String) :
    latest? (earlier ++ format :: later) name = latest? (earlier ++ later) name := by
  rw [latest?, latest?, List.reverse_append, List.reverse_append, List.reverse_cons,
    List.find?_append, List.find?_append, List.find?_append]
  cases found : later.reverse.find? fun format => format.name = name with
  | some last => rfl
  | none =>
    have other : format.name ≠ name := by
      rintro rfl
      obtain ⟨last, member, same⟩ := List.mem_map.mp again
      exact List.find?_eq_none.mp found last (List.mem_reverse.mpr member) (by simpa using same)
    rw [List.find?_singleton, if_neg (by simpa using other)]
    rfl

theorem ofFormats_concat (formats : List Format) (format : Format) :
    ofFormats (formats ++ [format]) = (ofFormats formats).register format :=
  List.foldl_append

/-- A registry holds under each name what was registered last. -/
theorem get?_ofFormats (formats : List Format) (name : String) :
    Fields.get? (ofFormats formats) name = latest? formats name := by
  induction formats using List.reverseRecOn with
  | nil => rfl
  | append_singleton formats format ih =>
    rw [ofFormats_concat, register, Fields.get?_put, latest?_concat, ih]

theorem distinct_ofFormats (formats : List Format) : Fields.Distinct (ofFormats formats) := by
  induction formats using List.reverseRecOn with
  | nil => exact Fields.distinct_nil
  | append_singleton formats format ih =>
    rw [ofFormats_concat]
    exact ih.put _ _

theorem ofFormats_perm (same : ∀ name, latest? formats name = latest? others name) :
    (ofFormats formats).Perm (ofFormats others) := by
  refine Fields.perm_of_get? (distinct_ofFormats _) (distinct_ofFormats _) fun name => ?_
  rw [get?_ofFormats, get?_ofFormats, same]

section kept

variable (kept : registry.Perm (ofFormats formats))

include kept

theorem get?_kept (name : String) : Fields.get? registry name = latest? formats name := by
  rw [← get?_ofFormats]
  exact Fields.get?_perm ((distinct_ofFormats formats).perm kept.symm) kept name

theorem mem_kept (name : String) (format : Format) :
    (name, format) ∈ registry ↔ latest? formats name = some format := by
  rw [← get?_kept kept, Fields.get?_eq_some_iff ((distinct_ofFormats formats).perm kept.symm)]

theorem find_kept (name : String) :
    registry.find name = (latest? formats name).elim (.error (.unknownFormat name)) .ok := by
  rw [find, get?_kept kept]
  cases latest? formats name <;> rfl

theorem has_kept (name : String) :
    Fields.has registry name = true ↔ ∃ format ∈ formats, format.name = name := by
  rw [Fields.has, get?_kept kept, latest?_isSome]

theorem formatNames_kept : registry.formatNames.Pairwise (· < ·) ∧
    ∀ name, name ∈ registry.formatNames ↔ ∃ format ∈ formats, format.name = name := by
  refine ⟨Format.sorted_pairwise ((distinct_ofFormats formats).perm kept.symm), fun name => ?_⟩
  rw [formatNames, Format.mem_sorted, ← Fields.has_iff, has_kept kept]

end kept

end Registry

end BlockLoom
