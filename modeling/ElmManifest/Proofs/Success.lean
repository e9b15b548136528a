import Mathlib.Data.List.Forall2

/-!
# Computations that succeed

Readers are sequences of steps, and any step may fail.  Such a sequence succeeds exactly if every
step does, each with what the one before it has left.

## Main Statements

* `Except.bind_eq_ok_iff`, `Except.map_eq_ok_iff`, `Except.mapError_eq_ok_iff` — a sequence of
  steps, and steps whose results or errors are converted.
* `Except.ite_throw_eq_ok_iff` — a condition under which a step fails.
* `List.mapM_eq_ok_iff`, `List.exists_first_of_mapM_eq_error` — a step that is taken for every
  element of a list.
-/

namespace ElmManifest

namespace Except

variable {ε ε' α β : Type}

/-- A sequence of two steps succeeds exactly if both do. -/
@[simp]
theorem bind_eq_ok_iff {x : Except ε α} {f : α → Except ε β} {b : β} :
    x >>= f = .ok b ↔ ∃ a, x = .ok a ∧ f a = .ok b := by
  cases x <;> simp [bind, Except.bind]

@[simp]
theorem pure_eq_ok_iff {a b : α} : (pure a : Except ε α) = .ok b ↔ a = b := by
  simp [pure, Except.pure]

@[simp]
theorem throw_ne_ok {e : ε} {a : α} : (throw e : Except ε α) ≠ .ok a := by
  simp [throw, throwThe, MonadExceptOf.throw]

@[simp]
theorem map_eq_ok_iff {x : Except ε α} {f : α → β} {b : β} :
    x.map f = .ok b ↔ ∃ a, x = .ok a ∧ f a = b := by
  cases x <;> simp [Except.map]

@[simp]
theorem functorMap_eq_ok_iff {x : Except ε α} {f : α → β} {b : β} :
    f <$> x = .ok b ↔ ∃ a, x = .ok a ∧ f a = b :=
  map_eq_ok_iff

/-- Converting the error of a step changes nothing about its success. -/
@[simp]
theorem mapError_eq_ok_iff {x : Except ε α} {f : ε → ε'} {a : α} :
    x.mapError f = .ok a ↔ x = .ok a := by
  cases x <;> simp [Except.mapError]

/-- A step whose error is converted fails exactly if the step does. -/
theorem mapError_eq_error_iff {x : Except ε α} {f : ε → ε'} {e : ε'} :
    x.mapError f = .error e ↔ ∃ fault, x = .error fault ∧ f fault = e := by
  cases x <;> simp [Except.mapError]

/-- Nothing is done behind a step that fails. -/
@[simp]
theorem throw_bind {e : ε} {f : α → Except ε β} : (throw e >>= f : Except ε β) = throw e :=
  rfl

/-- A step that has succeeded is followed by the next. -/
theorem ok_bind {a : α} {f : α → Except ε β} : (Except.ok a >>= f : Except ε β) = f a :=
  rfl

theorem exists_eq_ok_of_isSome {x : Except ε α} (h : x.toOption.isSome = true) :
    ∃ a, x = .ok a := by
  cases x with
  | error => cases h
  | ok a => exact ⟨a, rfl⟩

/-- A step that is taken under a condition only. -/
@[simp]
theorem ite_throw_eq_ok_iff {p : Prop} [Decidable p] {e : ε} {x : Except ε α} {a : α} :
    (if p then throw e else x) = .ok a ↔ ¬ p ∧ x = .ok a := by
  by_cases h : p <;> simp [h]

end Except

/-- Errors are not compared, so that something is read is decided without its error. -/
theorem eq_ok_of_toOption {ε α : Type} {x : Except ε α} {a : α} (h : x.toOption = some a) :
    x = .ok a := by
  cases x with
  | error error => cases h
  | ok value => exact congrArg _ (Option.some.inj h)

/-- Nothing is read only if there is an error, whichever it is. -/
theorem exists_eq_error_of_toOption {ε α : Type} {x : Except ε α} (h : x.toOption = none) :
    ∃ error, x = .error error := by
  cases x with
  | error error => exact ⟨error, rfl⟩
  | ok value => cases h

/-- A step that is taken for every element succeeds exactly if it does for each of them. -/
theorem List.mapM_eq_ok_iff {ε α β : Type} {f : α → Except ε β} {xs : List α} {ys : List β} :
    xs.mapM f = .ok ys ↔ List.Forall₂ (fun x y => f x = .ok y) xs ys := by
  induction xs generalizing ys with
  | nil => cases ys <;> simp
  | cons x xs ih =>
    rw [List.mapM_cons]
    constructor
    · intro h
      obtain ⟨y, hy, rest, hrest, hys⟩ := by simpa using h
      rw [← hys]
      exact .cons hy (ih.mp hrest)
    · intro h
      cases h with
      | cons hy hrest => simp [hy, ih.mpr hrest]

/-- Converting the errors of each step is converting the error of all of them. -/
theorem List.mapM_mapError {ε ε' α β : Type} (f : α → Except ε β) (g : ε → ε') (xs : List α) :
    (xs.mapM fun x => (f x).mapError g) = (xs.mapM f).mapError g := by
  induction xs with
  | nil => rfl
  | cons x xs ih =>
    rw [List.mapM_cons, List.mapM_cons, ih]
    cases f x with
    | error => rfl
    | ok => cases xs.mapM f <;> rfl

/-- Mapping over a list succeeds for some results exactly if it does for every element. -/
theorem List.exists_mapM_eq_ok_iff {ε α β : Type} {f : α → Except ε β} {xs : List α} :
    (∃ ys, xs.mapM f = .ok ys) ↔ ∀ x ∈ xs, ∃ y, f x = .ok y := by
  induction xs with
  | nil => simp
  | cons x xs ih =>
    rw [List.mapM_cons, List.forall_mem_cons, ← ih]
    constructor
    · rintro ⟨ys, h⟩
      obtain ⟨y, hy, rest, hrest, -⟩ := by simpa using h
      exact ⟨⟨y, hy⟩, rest, hrest⟩
    · rintro ⟨⟨y, hy⟩, rest, hrest⟩
      exact ⟨y :: rest, by simp [hy, hrest]⟩

/-- Mapping over a list fails with the error of the first element for which it does, and the
elements in front of it succeed. -/
theorem List.exists_first_of_mapM_eq_error {ε α β : Type} {f : α → Except ε β} {xs : List α}
    {e : ε} (h : xs.mapM f = .error e) : ∃ before x after, xs = before ++ x :: after ∧
      (∀ y ∈ before, ∃ b, f y = .ok b) ∧ f x = .error e := by
  induction xs with
  | nil => cases h
  | cons x xs ih =>
    rw [List.mapM_cons] at h
    cases hx : f x with
    | error found =>
      rw [hx] at h
      cases h
      exact ⟨[], x, xs, rfl, by simp, hx⟩
    | ok b =>
      rw [hx, Except.ok_bind] at h
      cases hrest : xs.mapM f with
      | ok bs =>
        rw [hrest] at h
        cases h
      | error found =>
        rw [hrest] at h
        cases h
        obtain ⟨before, first, after, rfl, hbefore, hfirst⟩ := ih hrest
        refine ⟨x :: before, first, after, rfl, ?_, hfirst⟩
        exact List.forall_mem_cons.mpr ⟨⟨b, hx⟩, hbefore⟩

end ElmManifest
