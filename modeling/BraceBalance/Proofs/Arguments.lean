import BraceBalance.CommandLine.Options

/-!
# Arguments

The arguments of a command are read one by one, and each is taken or ends the reading. Which of them are
taken and what is kept of them can be said of each argument alone, so what the arguments come to is a
filter, and whether they are taken is a condition on each.
-/

namespace BraceBalance

/-- What reading arguments gives: a state that holds what was kept of them, if all were taken, and
otherwise an error. -/
inductive Sifted {α : Type} (taken : Prop) (kept : α → Prop) : Except UsageError α → Prop where
  | ok {a : α} : taken → kept a → Sifted taken kept (.ok a)
  | error {e : UsageError} : ¬ taken → Sifted taken kept (.error e)

theorem Sifted.exists_eq {α : Type} {taken : Prop} {kept : α → Prop} {result : Except UsageError α}
    (h : Sifted taken kept result) :
    (∃ e, result = .error e ∧ ¬ taken) ∨ ∃ a, result = .ok a ∧ taken ∧ kept a := by
  cases h with
  | ok htaken hkept => exact .inr ⟨_, rfl, htaken, hkept⟩
  | error hno => exact .inl ⟨_, rfl, hno⟩

/-- Arguments are read one by one, up to the first that is not taken. -/
theorem Sifted.foldlM {α : Type} {step : α → String → Except UsageError α} {takes : String → Prop}
    {kept : α → List String} {keeps : String → Bool}
    (hstep : ∀ a arg, Sifted (takes arg) (fun a' => kept a' = kept a ++ [arg].filter keeps)
      (step a arg)) (args : List String) (a : α) :
    Sifted (∀ arg ∈ args, takes arg) (fun a' => kept a' = kept a ++ args.filter keeps)
      (args.foldlM step a) := by
  induction args generalizing a with
  | nil => exact .ok nofun (List.append_nil _).symm
  | cons arg args ih =>
    rw [List.foldlM_cons, List.forall_mem_cons]
    obtain ⟨e, he, hno⟩ | ⟨next, hnext, htaken, hkept⟩ := (hstep a arg).exists_eq
    · rw [he]
      exact .error fun hall => hno hall.1
    · rw [hnext]
      simp only [bind, Except.bind]
      obtain ⟨e, he, hno⟩ | ⟨last, hlast, htaken', hkept'⟩ := (ih next).exists_eq
      · rw [he]
        exact .error fun hall => hno hall.2
      · rw [hlast]
        refine .ok ⟨htaken, htaken'⟩ ?_
        rw [hkept', hkept, List.append_assoc, ← List.filter_append, List.singleton_append]

namespace CheckOptions

end CheckOptions

namespace FindOptions

end FindOptions

end BraceBalance
