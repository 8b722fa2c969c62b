import BlockLoom.Proofs.CommandLine.Arguments

/-!
Extra parameters among the arguments. They are told from all others by their marks, wherever
they stand, so that they can be given again behind the others. Two lists of arguments are the
same but for the output option if they give the same parameters and all else is the same
without the option.
-/

namespace BlockLoom.CommandLine

/-- Arguments that give parameters, each with its value. -/
def extraArguments (given : List (String × String)) : List String :=
  given.flatMap fun entry => ["--extra-" ++ entry.1, entry.2]

theorem extraKey?_extra (key : String) : extraKey? ("--extra-" ++ key) = some key := by
  have marked : Text.after? "--extra-".toList ("--extra-" ++ key).toList = some key.toList := by
    rw [Text.after?, String.toList_append, if_pos (by simp)]
    simp
  rw [extraKey?, marked]
  simp

/-- Parameters that are given are told from one another by their marks. -/
theorem separate_extraArguments {given : List (String × String)}
    (values : ∀ entry ∈ given, isDashed entry.2 = false) :
    separate (extraArguments given) = ⟨[], given⟩ := by
  induction given with
  | nil => rfl
  | cons entry given ih =>
    have rest := ih fun other member => values other (List.mem_cons_of_mem _ member)
    have value := values entry List.mem_cons_self
    rw [extraArguments, List.flatMap_cons]
    change separate (("--extra-" ++ entry.1) :: entry.2 :: extraArguments given) = _
    rw [separate, extraKey?_extra]
    dsimp only
    rw [value, if_neg Bool.false_ne_true, rest]

/-- Arguments that name no parameter can be put before others. -/
theorem separate_append {arguments others : List String}
    (unmarked : ∀ argument ∈ arguments, extraKey? argument = none) :
    separate (arguments ++ others) =
      ⟨arguments ++ (separate others).cleaned, (separate others).given⟩ := by
  induction arguments with
  | nil => rfl
  | cons argument arguments ih =>
    have rest := ih fun other member => unmarked other (List.mem_cons_of_mem _ member)
    have none := unmarked argument List.mem_cons_self
    rw [List.cons_append, List.cons_append]
    cases joined : arguments ++ others with
    | nil =>
      rw [joined] at rest
      rw [separate, none]
      dsimp only
      rw [← (Separated.mk.inj rest).1, ← (Separated.mk.inj rest).2]
    | cons next tail =>
      rw [joined] at rest
      rw [separate, none]
      dsimp only
      rw [rest]

/-- No argument that is left over names a parameter. -/
theorem extraKey?_cleaned {arguments : List String} :
    ∀ argument ∈ (separate arguments).cleaned, extraKey? argument = none := by
  fun_induction separate arguments with
  | case1 => simp
  | case2 argument key marked => simp
  | case3 argument unmarked => simpa using unmarked
  | case4 argument next rest unmarked others ih => simpa [unmarked] using ih
  | case5 argument next rest key marked dashed others ih => exact ih
  | case6 argument next rest key marked undashed others ih => exact ih

/-- No value of a parameter starts with a dash. -/
theorem isDashed_given {arguments : List String} :
    ∀ entry ∈ (separate arguments).given, isDashed entry.2 = false := by
  have noDash : isDashed "true" = false := by decide
  fun_induction separate arguments with
  | case1 => simp
  | case2 argument key marked => simpa using noDash
  | case3 argument unmarked => simp
  | case4 argument next rest unmarked others ih => exact ih
  | case5 argument next rest key marked dashed others ih =>
    exact List.forall_mem_cons.mpr ⟨noDash, ih⟩
  | case6 argument next rest key marked undashed others ih =>
    exact List.forall_mem_cons.mpr ⟨eq_false_of_ne_true undashed, ih⟩

/-! ## The same arguments without the output option -/

theorem withoutOutput_sublist (arguments : List String) :
    (withoutOutput arguments).Sublist arguments := by
  fun_induction withoutOutput arguments with
  | case1 | case2 | case6 => exact List.Sublist.refl _
  | case3 argument rest value part ih => exact ih.cons _
  | case4 argument rest name value part other ih => exact ih.cons_cons _
  | case5 argument part => exact List.nil_sublist _
  | case7 argument value rest part ih => exact (ih.cons _).cons _
  | case8 argument name part value rest other ih => exact (ih.cons_cons _).cons_cons _
  | case9 argument rest name part ih => exact ih.cons_cons _
  | case10 argument rest part ih => exact ih.cons_cons _
  | case11 argument rest stop part ih => exact ih.cons_cons _

/-- Arguments that are the same as others but for the output option. -/
structure WithoutOutput (arguments others : List String) : Prop where
  given : (separate others).given = (separate arguments).given
  cleaned : (separate others).cleaned = withoutOutput (separate arguments).cleaned

/-- The output option can be left out of any arguments. -/
theorem exists_withoutOutput (arguments : List String) :
    ∃ others, WithoutOutput arguments others := by
  let separated := separate arguments
  have unmarked : ∀ argument ∈ withoutOutput separated.cleaned, extraKey? argument = none :=
    fun argument member =>
      extraKey?_cleaned argument ((withoutOutput_sublist _).subset member)
  have others : separate (withoutOutput separated.cleaned ++ extraArguments separated.given) =
      ⟨withoutOutput separated.cleaned, separated.given⟩ := by
    rw [separate_append unmarked, separate_extraArguments isDashed_given, List.append_nil]
  exact ⟨_, by rw [others], by rw [others]⟩

end BlockLoom.CommandLine
