import Mathlib.Data.List.Induction
import Mathlib.Data.List.Pairwise

/-!
# Cells read through a history

Two ways a single cell answers a list of events: `lastWrite` keeps the newest
value written, `writeOnce` keeps the first one and never changes again.
-/

namespace Cells

/-- The value a cell holds after a list of events, some of which write it. -/
def lastWrite {E V : Type*} (writes : E → Option V) (initial : V)
    (events : List E) : V :=
  events.foldl (fun v e => (writes e).getD v) initial

section LastWrite

variable {E V : Type*} (writes : E → Option V) (initial : V)

@[simp] theorem lastWrite_snoc (events : List E) (e : E) :
    lastWrite writes initial (events ++ [e]) =
      (writes e).getD (lastWrite writes initial events) := by
  simp [lastWrite]

theorem lastWrite_mem (events : List E) :
    lastWrite writes initial events = initial ∨
      ∃ e ∈ events, writes e = some (lastWrite writes initial events) := by
  induction events using List.reverseRecOn with
  | nil => exact Or.inl rfl
  | append_singleton events e ih =>
    rw [lastWrite_snoc]
    cases written : writes e with
    | some v => exact Or.inr ⟨e, by simp, written⟩
    | none =>
      rcases ih with same | ⟨e', mem, value⟩
      · exact Or.inl same
      · exact Or.inr ⟨e', List.mem_append_left [e] mem, value⟩

/-- Events that write nothing can be left out. -/
theorem lastWrite_filter (keep : E → Bool) {events : List E}
    (silent : ∀ e ∈ events, keep e = false → writes e = none) :
    lastWrite writes initial (events.filter keep) = lastWrite writes initial events := by
  induction events using List.reverseRecOn with
  | nil => rfl
  | append_singleton events e ih =>
    have ih := ih fun e' mem => silent e' (List.mem_append_left [e] mem)
    rw [List.filter_append, lastWrite_snoc, ← ih]
    cases kept : keep e with
    | true => rw [List.filter_cons_of_pos kept, List.filter_nil, lastWrite_snoc]
    | false =>
      rw [List.filter_cons_of_neg (by simp [kept]), List.filter_nil, List.append_nil,
        silent e (by simp) kept, Option.getD_none]

/-- The last value set by the events, if any sets one. -/
def lastSet (sets : E → Option V) (events : List E) : Option V :=
  lastWrite (fun e => (sets e).map some) none events

/-- A cell of encoded values holds the encoding of the last value set. -/
theorem lastWrite_eq_lastSet {W : Type*} {sets : E → Option W} (encode : W → V)
    {events : List E} (encoded : ∀ e ∈ events, writes e = (sets e).map encode) :
    lastWrite writes initial events = ((lastSet sets events).map encode).getD initial := by
  induction events using List.reverseRecOn with
  | nil => rfl
  | append_singleton events e ih =>
    have ih := ih fun e' mem => encoded e' (List.mem_append_left [e] mem)
    rw [lastSet] at ih ⊢
    rw [lastWrite_snoc, lastWrite_snoc, encoded e (by simp), ih]
    cases sets e with
    | some v => rfl
    | none => rfl

end LastWrite

section WriteOnce

variable {V E : Type*}

/-- A cell that keeps the first value that is not `blank`, and answers with it from then on. -/
def writeOnce [DecidableEq V] (blank : V) : Option V → List (Except E V) → List (Except E V)
  | _, [] => []
  | some v, _ :: rest => .ok v :: writeOnce blank (some v) rest
  | none, .error e :: rest => .error e :: writeOnce blank none rest
  | none, .ok v :: rest =>
    .ok v :: writeOnce blank (if v = blank then none else some v) rest

theorem writeOnce_some_eq_iff [DecidableEq V] (blank v : V) (fresh : List (Except E V)) :
    writeOnce blank (some v) fresh = fresh ↔ ∀ r ∈ fresh, r = .ok v := by
  induction fresh with
  | nil => simp [writeOnce]
  | cons r rest ih =>
    simp only [writeOnce, List.cons.injEq, ih, List.forall_mem_cons]
    exact and_congr_left fun _ => eq_comm

/-- The cell is transparent exactly when every value it keeps is the one given later. -/
theorem writeOnce_none_eq_iff [DecidableEq V] (blank : V) (fresh : List (Except E V)) :
    writeOnce blank none fresh = fresh ↔
      fresh.Pairwise fun earlier later => ∀ v, earlier = .ok v → v ≠ blank → later = .ok v := by
  induction fresh with
  | nil => simp [writeOnce]
  | cons r rest ih =>
    cases r with
    | error e => simp [writeOnce, ih]
    | ok v =>
      by_cases empty : v = blank
      · subst empty
        simp [writeOnce, ih]
      · simp only [writeOnce, if_neg empty, List.cons.injEq, true_and,
          writeOnce_some_eq_iff, List.pairwise_cons]
        constructor
        · intro same
          refine ⟨fun r mem w ok _ => ?_, ?_⟩
          · cases ok
            exact same r mem
          · refine List.pairwise_of_forall_mem_list fun a ha b hb w ok _ => ?_
            exact (same b hb).trans ((same a ha).symm.trans ok)
        · exact fun h r mem => h.1 r mem v rfl empty

end WriteOnce

end Cells
