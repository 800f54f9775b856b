import Mathlib.Data.List.Forall2

/-!
# Results in sequence

When a sequence of fallible steps gives a value. A step that only renames its
error is transparent, and a list of results is a result: all values in order,
or the first error.
-/

namespace Results

variable {E E' A B : Type}

theorem bind_eq_ok_iff {r : Except E A} {f : A → Except E B} {b : B} :
    r >>= f = .ok b ↔ ∃ a, r = .ok a ∧ f a = .ok b := by
  cases r with
  | error e =>
    refine iff_of_false (fun ok => nomatch ok) ?_
    rintro ⟨a, ⟨⟩, -⟩
  | ok a =>
    constructor
    · intro ok
      exact ⟨a, rfl, ok⟩
    · rintro ⟨a', ⟨⟩, ok⟩
      exact ok

theorem mapError_eq_ok_iff {r : Except E A} {f : E → E'} {a : A} :
    r.mapError f = .ok a ↔ r = .ok a := by
  cases r with
  | error e => exact iff_of_false (fun ok => nomatch ok) fun ok => nomatch ok
  | ok a' =>
    constructor
    · rintro ⟨⟩
      rfl
    · rintro ⟨⟩
      rfl

/-- A result that never is a value is an error. -/
theorem exists_error_iff {r : Except E A} : (∃ e, r = .error e) ↔ ¬ ∃ a, r = .ok a := by
  cases r with
  | error e => exact iff_of_true ⟨e, rfl⟩ (by rintro ⟨a, ⟨⟩⟩)
  | ok a => exact iff_of_false (by rintro ⟨e, ⟨⟩⟩) fun none => none ⟨a, rfl⟩

section Lists

variable {f : A → Except E B}

theorem mapM_eq_ok_iff {as : List A} {bs : List B} :
    as.mapM f = .ok bs ↔ List.Forall₂ (fun a b => f a = .ok b) as bs := by
  induction as generalizing bs with
  | nil =>
    rw [List.mapM_nil, List.forall₂_nil_left_iff]
    exact ⟨fun ok => (Except.ok.inj ok).symm, fun empty => congrArg Except.ok empty.symm⟩
  | cons a as ih =>
    rw [List.mapM_cons, List.forall₂_cons_left_iff, bind_eq_ok_iff]
    constructor
    · rintro ⟨b, first, ok⟩
      obtain ⟨bs', rest, ok⟩ := bind_eq_ok_iff.mp ok
      exact ⟨b, bs', first, ih.mp rest, (Except.ok.inj ok).symm⟩
    · rintro ⟨b, bs', first, rest, rfl⟩
      exact ⟨b, first, bind_eq_ok_iff.mpr ⟨bs', ih.mpr rest, rfl⟩⟩

/-- One failing element is enough for the whole list to fail. -/
theorem exists_mapM_iff {as : List A} :
    (∃ bs, as.mapM f = .ok bs) ↔ ∀ a ∈ as, ∃ b, f a = .ok b := by
  simp only [mapM_eq_ok_iff]
  induction as with
  | nil => exact iff_of_true ⟨[], .nil⟩ fun a mem => absurd mem List.not_mem_nil
  | cons a as ih =>
    rw [List.forall_mem_cons, ← ih]
    constructor
    · rintro ⟨_, first | ⟨first, rest⟩⟩
      exact ⟨⟨_, first⟩, _, rest⟩
    · rintro ⟨⟨b, first⟩, bs, rest⟩
      exact ⟨b :: bs, .cons first rest⟩

end Lists

end Results
