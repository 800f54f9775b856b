import Mathlib.Data.List.Basic
import AsyncProcfs.ProgramRuns

/-!
# Loops over a stream of results

A loop takes a stream's results in order: a value goes to a body, which may
yield an item, and an error is yielded and ends the loop. `stages` are the
values with the states the loop reaches them in; the items of a run are read
off the stages one by one, so that two readings of the same stages can be
compared entry by entry.
-/

namespace EntryLoops

open ProgramRuns

universe u v

variable {Op : Type u} {Res : Op → Type u} {E A B ε : Type u} {σ : Type v}

def forAwait (convert : E → ε) (body : A → Prog Res (Option B)) :
    List (Except E A) → Prog Res (List (Except ε B))
  | [] => pure []
  | .error e :: _ => pure [.error (convert e)]
  | .ok a :: rest => do
    let item ← body a
    let items ← forAwait convert body rest
    return match item with
      | some b => .ok b :: items
      | none => items

/-- The values before the first error. -/
def values : List (Except E A) → List A
  | .ok a :: rest => a :: values rest
  | _ => []

/-- The first error. -/
def failure : List (Except E A) → Option E
  | [] => none
  | .error e :: _ => some e
  | .ok _ :: rest => failure rest

/-- The values, each with the state in which the loop reaches it. -/
def stages (h : Handler Res σ) (body : A → Prog Res (Option B)) : List A → σ → List (A × σ)
  | [], _ => []
  | a :: rest, s => (a, s) :: stages h body rest (run h (body a) s).2

section Loops

variable (h : Handler Res σ) (convert : E → ε) (body : A → Prog Res (Option B))

/-- The item the body yields for a value in a state. -/
def yielded (x : A × σ) : Option (Except ε B) := (run h (body x.1) x.2).1.map .ok

/-- A run yields the items of its stages in order, and then the error, if there is one. -/
theorem run_forAwait (entries : List (Except E A)) (s : σ) :
    (run h (forAwait convert body entries) s).1 =
      (stages h body (values entries) s).filterMap (yielded h body) ++
        (failure entries).toList.map fun e => .error (convert e) := by
  induction entries generalizing s with
  | nil => rfl
  | cons entry rest ih =>
    cases entry with
    | error e => rfl
    | ok a =>
      have later := ih (run h (body a) s).2
      simp only [forAwait, run_bind, run_pure, values, stages, failure, List.filterMap_cons, later,
        yielded]
      cases (run h (body a) s).1 with
      | some b => rfl
      | none => rfl

theorem map_fst_stages (as : List A) (s : σ) : (stages h body as s).map Prod.fst = as := by
  induction as generalizing s with
  | nil => rfl
  | cons a rest ih => rw [stages, List.map_cons, ih]

/-- What every round keeps holds at every stage. -/
theorem stages_kept {I : σ → Prop} (keeps : ∀ a s, I s → I (run h (body a) s).2) {as : List A}
    {s : σ} (init : I s) : ∀ x ∈ stages h body as s, I x.2 := by
  induction as generalizing s with
  | nil => exact fun x mem => absurd mem List.not_mem_nil
  | cons a rest ih => exact List.forall_mem_cons.mpr ⟨init, ih (keeps a s init)⟩

theorem values_map_ok (as : List A) : values (as.map .ok : List (Except E A)) = as := by
  induction as with
  | nil => rfl
  | cons a rest ih => rw [List.map_cons, values, ih]

theorem failure_map_ok (as : List A) : failure (as.map .ok : List (Except E A)) = none := by
  induction as with
  | nil => rfl
  | cons a rest ih => rw [List.map_cons, failure, ih]

theorem values_append_error (as : List A) (e : E) (rest : List (Except E A)) :
    values (as.map .ok ++ .error e :: rest) = as := by
  induction as with
  | nil => rfl
  | cons a as ih => rw [List.map_cons, List.cons_append, values, ih]

theorem failure_append_error (as : List A) (e : E) (rest : List (Except E A)) :
    failure (as.map .ok ++ .error e :: rest) = some e := by
  induction as with
  | nil => rfl
  | cons a as ih => rw [List.map_cons, List.cons_append, failure, ih]

end Loops

section Readings

variable {X Y : Type*} (f g : X → Option Y)

variable {f g} in
theorem length_filterMap_le {xs : List X} (part : ∀ x ∈ xs, ∀ y, g x = some y → f x = some y) :
    (xs.filterMap g).length ≤ (xs.filterMap f).length := by
  rw [List.length_filterMap_eq_countP, List.length_filterMap_eq_countP]
  refine List.countP_mono_left fun x mem found => ?_
  obtain ⟨y, found⟩ := Option.isSome_iff_exists.mp found
  rw [part x mem y found]
  rfl

variable {f g} in
/-- A reading that yields at most what another yields, in as many items, is the same. -/
theorem eq_of_length_filterMap {xs : List X}
    (part : ∀ x ∈ xs, ∀ y, g x = some y → f x = some y)
    (same : (xs.filterMap f).length = (xs.filterMap g).length) : ∀ x ∈ xs, f x = g x := by
  induction xs with
  | nil => simp
  | cons x rest ih =>
    have rest_part := fun x' mem => part x' (List.mem_cons_of_mem x mem)
    have le := length_filterMap_le rest_part
    rw [List.forall_mem_cons]
    cases second : g x with
    | some y =>
      have first := part x List.mem_cons_self y second
      rw [List.filterMap_cons_some first, List.filterMap_cons_some second, List.length_cons,
        List.length_cons] at same
      exact ⟨first, ih rest_part (by omega)⟩
    | none =>
      rw [List.filterMap_cons_none second] at same
      cases first : f x with
      | none =>
        rw [List.filterMap_cons_none first] at same
        exact ⟨rfl, ih rest_part same⟩
      | some y =>
        rw [List.filterMap_cons_some first, List.length_cons] at same
        omega

/-- Two readings agree exactly when they agree entry by entry, once the second yields what
the first does wherever it yields something of the first one's kind. -/
theorem filterMap_eq_iff (kind : Y → Prop) (first : ∀ x y, f x = some y → kind y)
    (part : ∀ x y, g x = some y → kind y → f x = some y) (xs : List X) :
    xs.filterMap f = xs.filterMap g ↔ ∀ x ∈ xs, f x = g x := by
  constructor
  · intro same
    refine eq_of_length_filterMap (fun x mem y second => part x y second ?_)
      (congrArg List.length same)
    have found : y ∈ xs.filterMap f := by
      rw [same]
      exact List.mem_filterMap.mpr ⟨x, mem, second⟩
    obtain ⟨x', -, found⟩ := List.mem_filterMap.mp found
    exact first x' y found
  · exact List.filterMap_congr

end Readings

end EntryLoops
