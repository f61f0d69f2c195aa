import SparsePattern.Fault

/-!
# Passes over rows

`Rows.fold` visits consecutive rows and stops at the first fault; `Rows.require` is the check that
such passes are made of.  When no row faults the pass is an ordinary fold over the row numbers
(`fold_eq_foldl`); a fault of the pass is the fault of one of its rows (`exists_of_fold_eq_error`).
-/

namespace SparsePattern.Rows

/-! ### One step after another -/

/-- A chain of operations succeeds if each of them does. -/
theorem bind_eq_ok {α β : Type} {x : Except Fault α} {f : α → Except Fault β} {b : β} :
    x >>= f = .ok b ↔ ∃ a, x = .ok a ∧ f a = .ok b := by
  cases x <;> simp [bind, Except.bind]

/-- A chain of operations fails with the first of them that does. -/
theorem bind_eq_error {α β : Type} {x : Except Fault α} {f : α → Except Fault β} {fault : Fault} :
    x >>= f = .error fault ↔ x = .error fault ∨ ∃ a, x = .ok a ∧ f a = .error fault := by
  cases x <;> simp [bind, Except.bind]

@[simp] theorem ok_bind {α β : Type} (a : α) (f : α → Except Fault β) : Except.ok a >>= f = f a :=
  rfl

@[simp] theorem error_bind {α β : Type} (fault : Fault) (f : α → Except Fault β) :
    (Except.error fault : Except Fault α) >>= f = .error fault := rfl

/-- Refuses with `fault` unless `p` holds. -/
def require (p : Prop) [Decidable p] (fault : Fault) : Except Fault Unit :=
  if p then .ok () else .error fault

-- the instance is read off the goal: one found anew for `p` need not be the same term
@[simp] theorem require_eq_ok {p : Prop} {_ : Decidable p} {fault : Fault} :
    require p fault = .ok () ↔ p := by
  unfold require
  split <;> simp_all

/-- What is required fails with the fault that is named for it. -/
theorem require_eq_error {p : Prop} {_ : Decidable p} {fault refusal : Fault} :
    require p fault = .error refusal ↔ ¬ p ∧ fault = refusal := by
  unfold require
  split <;> simp_all

/-- What is required comes before all that follows. -/
theorem require_bind_eq_ok {p : Prop} {_ : Decidable p} {fault : Fault} {β : Type}
    {f : Unit → Except Fault β} {b : β} : require p fault >>= f = .ok b ↔ p ∧ f () = .ok b := by
  by_cases hp : p <;> simp [require, hp]

/-- What follows a requirement that fails does not matter. -/
theorem require_bind_of_not {p : Prop} {_ : Decidable p} {fault : Fault} {β : Type}
    {f : Unit → Except Fault β} (h : ¬ p) : require p fault >>= f = .error fault := by
  rw [require, if_neg h]
  rfl

/-! ### Passes -/

/-- Visits the rows `row, …, row + count - 1` in order, up to the first fault. -/
def fold {β : Type} (visit : β → Nat → Except Fault β) : (row count : Nat) → β → Except Fault β
  | _, 0, acc => .ok acc
  | row, count + 1, acc =>
    match visit acc row with
    | .ok acc => fold visit (row + 1) count acc
    | .error fault => .error fault

/-- A pass on which no row fails is a fold over the rows. -/
theorem fold_eq_foldl {β : Type} {visit : β → Nat → Except Fault β} {step : β → Nat → β}
    {row count : Nat} {acc : β}
    (h : ∀ acc r, row ≤ r → r < row + count → visit acc r = .ok (step acc r)) :
    fold visit row count acc = .ok ((List.range' row count).foldl step acc) := by
  induction count generalizing row acc with
  | zero => rfl
  | succ count ih =>
    rw [fold, h acc row (Nat.le_refl _) (by omega), List.range'_succ, List.foldl_cons]
    exact ih fun acc r hr hr' => h acc r (by omega) (by omega)

/-- A pass that carries nothing succeeds if every row does. -/
theorem fold_unit_eq_ok_iff {visit : Nat → Except Fault Unit} {row count : Nat} :
    fold (fun _ r => visit r) row count () = .ok () ↔
      ∀ r, row ≤ r → r < row + count → visit r = .ok () := by
  induction count generalizing row with
  | zero => simp only [fold, Nat.add_zero, true_iff]; omega
  | succ count ih =>
    rw [fold]
    constructor
    · intro h r hr hr'
      cases hv : visit row with
      | error fault => simp [hv] at h
      | ok u =>
        simp only [hv] at h
        rcases Nat.eq_or_lt_of_le hr with rfl | hlt
        · exact hv
        · exact ih.1 h r hlt (by omega)
    · intro h
      rw [h row (Nat.le_refl _) (by omega)]
      exact ih.2 fun r hr hr' => h r (by omega) (by omega)

/-- A pass that fails fails at one of its rows. -/
theorem exists_of_fold_eq_error {β : Type} {visit : β → Nat → Except Fault β} {row count : Nat}
    {acc : β} {fault : Fault} (h : fold visit row count acc = .error fault) :
    ∃ acc r, row ≤ r ∧ r < row + count ∧ visit acc r = .error fault := by
  induction count generalizing row acc with
  | zero => simp [fold] at h
  | succ count ih =>
    rw [fold] at h
    cases hv : visit acc row with
    | error fault' =>
      simp only [hv, Except.error.injEq] at h
      exact ⟨acc, row, Nat.le_refl _, by omega, h ▸ hv⟩
    | ok acc' =>
      simp only [hv] at h
      obtain ⟨acc'', r, hr, hr', he⟩ := ih h
      exact ⟨acc'', r, by omega, by omega, he⟩

end SparsePattern.Rows
