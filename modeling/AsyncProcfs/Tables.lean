import Mathlib.Data.Finmap
import Mathlib.Data.List.Induction

/-!
# Tables filled by inserts

A table is a finite map. Inserting pairs one after another leaves every key
with the value of its last occurrence, whatever stood there before.
-/

namespace Tables

variable {K V : Type*} [DecidableEq K]

abbrev Table (K V : Type*) := Finmap fun _ : K => V

/-- Insert the pairs in order; a later one replaces an earlier one. -/
def fill (table : Table K V) (pairs : List (K × V)) : Table K V :=
  pairs.foldl (fun table pair => table.insert pair.1 pair.2) table

/-- `v` is the value of the last pair with key `k`. -/
def LastValue (pairs : List (K × V)) (k : K) (v : V) : Prop :=
  ∃ before after, pairs = before ++ (k, v) :: after ∧ ∀ v', (k, v') ∉ after

omit [DecidableEq K] in
theorem not_lastValue_nil (k : K) (v : V) : ¬ LastValue [] k v := by
  rintro ⟨before, after, split, -⟩
  simp at split

omit [DecidableEq K] in
theorem lastValue_snoc_iff (pairs : List (K × V)) (pair : K × V) (k : K) (v : V) :
    LastValue (pairs ++ [pair]) k v ↔ pair = (k, v) ∨ pair.1 ≠ k ∧ LastValue pairs k v := by
  constructor
  · rintro ⟨before, after, split, last⟩
    rcases after.eq_nil_or_concat with rfl | ⟨after, pair', rfl⟩
    · exact Or.inl (List.singleton_inj.mp (List.append_inj' split rfl).2)
    · rw [List.concat_eq_append, ← List.cons_append, ← List.append_assoc] at split
      obtain ⟨rfl, same⟩ := List.append_inj' split rfl
      cases same
      rw [List.concat_eq_append] at last
      refine Or.inr ⟨?_, before, after, rfl, fun v' mem => ?_⟩
      · intro key
        exact last pair.2 (by simp [← key])
      · exact last v' (List.mem_append_left _ mem)
  · rintro (rfl | ⟨other, before, after, rfl, last⟩)
    · exact ⟨pairs, [], rfl, by simp⟩
    · refine ⟨before, after ++ [pair], by simp, fun v' mem => ?_⟩
      rcases List.mem_append.mp mem with inside | new
      · exact last v' inside
      · exact other (by rw [← List.mem_singleton.mp new])

/-- A table filled from nothing holds the last value of every key, and no other key. -/
theorem lookup_fill_eq_some_iff (pairs : List (K × V)) (k : K) (v : V) :
    (fill ∅ pairs).lookup k = some v ↔ LastValue pairs k v := by
  induction pairs using List.reverseRecOn with
  | nil =>
    simp only [fill, List.foldl_nil, Finmap.lookup_empty, reduceCtorEq, false_iff]
    exact not_lastValue_nil k v
  | append_singleton pairs pair ih =>
    rw [lastValue_snoc_iff, ← ih, fill, List.foldl_append]
    change (Finmap.insert pair.1 pair.2 (fill ∅ pairs)).lookup k = some v ↔ _
    obtain ⟨k', v'⟩ := pair
    by_cases same : k' = k
    · subst same
      rw [Finmap.lookup_insert]
      simp
    · rw [Finmap.lookup_insert_of_ne _ fun back => same back.symm]
      simp [same]

omit [DecidableEq K] in
/-- With distinct keys every pair is the last of its key. -/
theorem lastValue_iff_mem {pairs : List (K × V)} (distinct : (pairs.map Prod.fst).Nodup)
    (k : K) (v : V) : LastValue pairs k v ↔ (k, v) ∈ pairs := by
  constructor
  · rintro ⟨before, after, rfl, -⟩
    simp
  · intro mem
    obtain ⟨before, after, rfl⟩ := List.append_of_mem mem
    refine ⟨before, after, rfl, fun v' later => ?_⟩
    rw [List.map_append, List.map_cons, List.nodup_append] at distinct
    have fresh := (List.nodup_cons.mp distinct.2.1).1
    exact fresh (List.mem_map.mpr ⟨(k, v'), later, rfl⟩)

omit [DecidableEq K] in
/-- A key has a last value as soon as some pair has it. -/
theorem exists_lastValue_iff (pairs : List (K × V)) (k : K) :
    (∃ v, LastValue pairs k v) ↔ ∃ v, (k, v) ∈ pairs := by
  constructor
  · rintro ⟨v, before, after, rfl, -⟩
    exact ⟨v, by simp⟩
  · rintro ⟨v, mem⟩
    induction pairs using List.reverseRecOn with
    | nil => cases mem
    | append_singleton pairs pair ih =>
      by_cases key : pair.1 = k
      · exact ⟨pair.2, (lastValue_snoc_iff _ _ _ _).mpr (Or.inl (by rw [← key]))⟩
      · rcases List.mem_append.mp mem with inside | new
        · obtain ⟨v', last⟩ := ih inside
          exact ⟨v', (lastValue_snoc_iff _ _ _ _).mpr (Or.inr ⟨key, last⟩)⟩
        · exact absurd (by rw [← List.mem_singleton.mp new]) key

omit [DecidableEq K] in
/-- Last values of the pairs that the elements of a list stand for. -/
theorem lastValue_filterMap_iff {A : Type*} {f : A → Option (K × V)} {as : List A} {k : K}
    {v : V} : LastValue (as.filterMap f) k v ↔ ∃ before a after, as = before ++ a :: after ∧
      f a = some (k, v) ∧ ∀ later ∈ after, ∀ v', f later ≠ some (k, v') := by
  constructor
  · rintro ⟨before, after, split, last⟩
    obtain ⟨first, second, rfl, -, tail⟩ := List.filterMap_eq_append_iff.mp split
    obtain ⟨skipped, a, rest, rfl, skip, found, rfl⟩ := List.filterMap_eq_cons_iff.mp tail
    refine ⟨first ++ skipped, a, rest, by rw [List.append_assoc], found, ?_⟩
    intro later mem v' same
    exact last v' (List.mem_filterMap.mpr ⟨later, mem, same⟩)
  · rintro ⟨before, a, after, rfl, found, last⟩
    refine ⟨before.filterMap f, after.filterMap f, ?_, fun v' mem => ?_⟩
    · rw [List.filterMap_append, List.filterMap_cons_some found]
    · obtain ⟨later, inside, same⟩ := List.mem_filterMap.mp mem
      exact last later inside v' same

end Tables
