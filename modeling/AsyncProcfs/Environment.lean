import AsyncProcfs.ProcessFiles
import AsyncProcfs.Tables

/-!
# The environment of a process

`environ` holds assignments with a NUL behind each. The reader cuts the bytes
at the NULs and every piece at its first `=`. A piece without one is skipped,
and a later assignment to a name replaces an earlier one.
-/

namespace Environment

open ProgramRuns Words Tables Text Procfs Processes ProcessFiles

section Functions

/-- `splitn(2, ..)`: the pieces before and behind the first match. -/
def splitn2 (p : UInt8 → Bool) (slice : Bytes) : List Bytes :=
  match slice.findIdx? p with
  | none => [slice]
  | some pos => [slice.take pos, slice.drop (pos + 1)]

/-- The loop's body. -/
def insertSlice (map : Table Bytes Bytes) (slice : Bytes) : Table Bytes Bytes :=
  match splitn2 (· == 0x3D) slice with
  | k :: v :: _ => map.insert k v
  | _ => map

def environ {ε : Type} [ProcError ε] (self : Process) : Io ε (Table Bytes Bytes) := do
  let file ← propagate (wrapIoError (joinPath self.path "environ")
    (← sys (.openAt self.fd "environ" { read := true })))
  let buf ← propagate (← sys (.readToEnd file))
  return (buf.splitOn 0).foldl insertSlice ∅

end Functions

section Assignments

/-- A piece assigns `v` to `k` at its first `=`. -/
def Assigns (slice k v : Bytes) : Prop := 0x3D ∉ k ∧ slice = k ++ 0x3D :: v

/-- The assignment that the loop's body makes. -/
def assignment (slice : Bytes) : Option (Bytes × Bytes) :=
  match splitn2 (· == 0x3D) slice with
  | k :: v :: _ => some (k, v)
  | _ => none

theorem findIdx?_of_not_mem {b : UInt8} {slice : Bytes} (free : b ∉ slice) :
    slice.findIdx? (· == b) = none := by
  rw [List.findIdx?_eq_none_iff]
  intro c mem
  rw [beq_eq_false_iff_ne]
  rintro rfl
  exact free mem

theorem splitn2_append_cons {b : UInt8} {k : Bytes} (free : b ∉ k) (v : Bytes) :
    splitn2 (· == b) (k ++ b :: v) = [k, v] := by
  rw [splitn2, List.findIdx?_append, findIdx?_of_not_mem free, List.findIdx?_cons]
  simp

theorem splitn2_of_not_mem {b : UInt8} {slice : Bytes} (free : b ∉ slice) :
    splitn2 (· == b) slice = [slice] := by
  rw [splitn2, findIdx?_of_not_mem free]

theorem assignment_eq_some_iff (slice k v : Bytes) :
    assignment slice = some (k, v) ↔ Assigns slice k v := by
  constructor
  · intro found
    by_cases mem : 0x3D ∈ slice
    · obtain ⟨k', v', rfl, free⟩ := List.eq_append_cons_of_mem mem
      rw [assignment, splitn2_append_cons free] at found
      cases found
      exact ⟨free, rfl⟩
    · rw [assignment, splitn2_of_not_mem mem] at found
      cases found
  · rintro ⟨free, rfl⟩
    rw [assignment, splitn2_append_cons free]

/-- The loop fills the map with the assignments, in order. -/
theorem foldl_insertSlice (slices : List Bytes) (map : Table Bytes Bytes) :
    slices.foldl insertSlice map = fill map (slices.filterMap assignment) := by
  induction slices generalizing map with
  | nil => rfl
  | cons slice rest ih =>
    rw [List.foldl_cons, ih, List.filterMap_cons, insertSlice, assignment]
    rcases splitn2 (· == 0x3D) slice with _ | ⟨k, _ | ⟨v, _⟩⟩
    · rfl
    · rfl
    · rfl

end Assignments

section Reading

/-- The map holds, for every name, what the last piece that assigns to it assigns. -/
structure EnvironmentOf (content : Bytes) (map : Table Bytes Bytes) : Prop where
  value : ∀ k v, map.lookup k = some v ↔
    ∃ before slice after, content.splitOn 0 = before ++ slice :: after ∧ Assigns slice k v ∧
      ∀ later ∈ after, ∀ v', ¬ Assigns later k v'
  names : ∀ k, k ∈ map ↔ ∃ slice ∈ content.splitOn 0, ∃ v, Assigns slice k v

theorem environmentOf (content : Bytes) :
    EnvironmentOf content ((content.splitOn 0).foldl insertSlice ∅) := by
  constructor
  · intro k v
    rw [foldl_insertSlice, lookup_fill_eq_some_iff, lastValue_filterMap_iff]
    simp only [ne_eq, assignment_eq_some_iff]
  · intro k
    rw [foldl_insertSlice, Finmap.mem_iff]
    simp only [lookup_fill_eq_some_iff]
    rw [exists_lastValue_iff]
    simp only [List.mem_filterMap, assignment_eq_some_iff]
    constructor
    · rintro ⟨v, slice, mem, assigns⟩
      exact ⟨slice, mem, v, assigns⟩
    · rintro ⟨slice, mem, v, assigns⟩
      exact ⟨v, slice, mem, assigns⟩

/-- The kernel's bytes of an environment. -/
def encoded (pairs : List (Bytes × Bytes)) : Bytes :=
  (pairs.map fun pair => pair.1 ++ 0x3D :: pair.2).flatMap (· ++ [0])

/-- A name and a value that the kernel's bytes can hold. -/
def Clean (pair : Bytes × Bytes) : Prop := 0x3D ∉ pair.1 ∧ 0 ∉ pair.1 ∧ 0 ∉ pair.2

theorem filterMap_assignment_encoded {pairs : List (Bytes × Bytes)}
    (clean : ∀ pair ∈ pairs, Clean pair) :
    ((encoded pairs).splitOn 0).filterMap assignment = pairs := by
  have pieces : ∀ w ∈ pairs.map fun pair => pair.1 ++ 0x3D :: pair.2, 0 ∉ w := by
    intro w mem zero
    obtain ⟨pair, inside, rfl⟩ := List.mem_map.mp mem
    rcases List.mem_append.mp zero with name | rest
    · exact (clean pair inside).2.1 name
    · rcases List.mem_cons.mp rest with sign | value
      · exact absurd sign (by decide)
      · exact (clean pair inside).2.2 value
  rw [encoded, splitOn_closed pieces, List.filterMap_append, List.filterMap_map]
  have each : ∀ pair ∈ pairs,
      (assignment ∘ fun pair : Bytes × Bytes => pair.1 ++ 0x3D :: pair.2) pair = some pair :=
    fun pair mem => (assignment_eq_some_iff _ _ _).mpr ⟨(clean pair mem).1, rfl⟩
  rw [List.filterMap_congr each, List.filterMap_some]
  exact List.append_nil pairs

variable {ε : Type} [ProcError ε] {σ : Type} {S : System σ} {self : Process} {w : World σ}
  {file : File} {e₁ e₂ : σ} {content : Bytes}

/-- The reader returns the environment of the bytes, and distinct clean pairs come back in
any order. -/
theorem environ_exact
    (opened : S (.openAt self.fd "environ" { read := true }) w.env = (.ok file, e₁))
    (holds : S (.readToEnd file) e₁ = (.ok content, e₂)) :
    ∃ map, exec (handle S) (environ self : Io ε (Table Bytes Bytes)) w =
        (.ok map, ⟨w.kernel, e₂⟩) ∧
      EnvironmentOf content map ∧
      ∀ pairs : List (Bytes × Bytes), (pairs.map Prod.fst).Nodup →
        (∀ pair ∈ pairs, Clean pair) → content = encoded pairs →
        ∀ k v, map.lookup k = some v ↔ (k, v) ∈ pairs := by
  refine ⟨_, ?_, environmentOf content, ?_⟩
  · have read_file := @run_sys_eq _ S _ ⟨w.kernel, e₁⟩ _ _ holds
    rw [environ, exec_wrapped_ok (run_sys_eq opened), exec_propagated_ok read_file, exec_pure]
  · rintro pairs distinct clean rfl k v
    rw [foldl_insertSlice, filterMap_assignment_encoded clean, lookup_fill_eq_some_iff,
      lastValue_iff_mem distinct]

theorem environ_exact_path :
    ∃ map, exec (handle (fixed (serving (encodeUtf8 "PATH=/bin\x00OPT=a=b\x00".toList))))
        (environ twentySeven : Io CoreError (Table Bytes Bytes)) ⟨0, ()⟩ = (.ok map, ⟨0, ()⟩) ∧
      map.lookup (encodeUtf8 "OPT") = some (encodeUtf8 "a=b") := by
  obtain ⟨map, ran, -, pairs⟩ := @environ_exact CoreError _ _
    (fixed (serving (encodeUtf8 "PATH=/bin\x00OPT=a=b\x00".toList))) twentySeven ⟨0, ()⟩ _ _ _ _
    rfl rfl
  refine ⟨map, ran, (pairs [(encodeUtf8 "PATH", encodeUtf8 "/bin"),
    (encodeUtf8 "OPT", encodeUtf8 "a=b")] (by decide) ?_ (by decide) _ _).mpr (by decide)⟩
  intro pair mem
  simp only [List.mem_cons, List.not_mem_nil, or_false] at mem
  rcases mem with rfl | rfl
  · exact ⟨by decide, by decide, by decide⟩
  · exact ⟨by decide, by decide, by decide⟩

end Reading

end Environment
