import AsyncProcfs.KernelVersion
import AsyncProcfs.ProcessFiles
import AsyncProcfs.Tables

/-!
# The auxiliary vector

`auxv` holds pairs of words in native byte order, up to a pair of zeros. The
reader takes two words a round from a cursor over the bytes, so it fails when
the bytes end before the terminator, and never looks behind it.
-/

namespace AuxiliaryVector

open ProgramRuns Tables Text Packing Procfs KernelVersion Processes ProcessFiles

section Cursor

/-- `Cursor::read_exact`: the filled buffer and the remaining bytes. -/
def readExact (len : Nat) (cursor : Bytes) : Except IoError (Bytes × Bytes) :=
  if len ≤ cursor.length then .ok (cursor.take len, cursor.drop len)
  else .error (.os .unexpectedEof)

theorem readExact_eq_ok_iff {len : Nat} {cursor buf rest : Bytes} :
    readExact len cursor = .ok (buf, rest) ↔ buf.length = len ∧ cursor = buf ++ rest := by
  constructor
  · intro ok
    rw [readExact] at ok
    split at ok
    · rename_i enough
      cases ok
      exact ⟨List.length_take_of_le enough, (List.take_append_drop len cursor).symm⟩
    · cases ok
  · rintro ⟨rfl, rfl⟩
    rw [readExact, if_pos (List.length_append ▸ Nat.le_add_right _ _), List.take_left,
      List.drop_left]

theorem readExact_eq_error_iff {len : Nat} {cursor : Bytes} {e : IoError} :
    readExact len cursor = .error e ↔ cursor.length < len ∧ e = .os .unexpectedEof := by
  rw [readExact]
  split
  · rename_i enough
    exact iff_of_false (fun failed => nomatch failed) fun short => by omega
  · rename_i short
    constructor
    · rintro ⟨⟩
      exact ⟨Nat.lt_of_not_le short, rfl⟩
    · rintro ⟨-, rfl⟩
      rfl

theorem length_of_readExact {len : Nat} {cursor buf rest : Bytes}
    (ok : readExact len cursor = .ok (buf, rest)) : cursor.length = len + rest.length := by
  obtain ⟨rfl, rfl⟩ := readExact_eq_ok_iff.mp ok
  exact List.length_append

end Cursor

section Reader

variable [Platform]

/-- `usize::from_ne_bytes(buf) as u64`. -/
def asWord (buf : Bytes) : UInt64 := UInt64.ofNat (fromNeBytes Platform.order buf)

theorem usizeBytes_pos : 0 < Platform.usizeBytes := by
  rcases Platform.usize with four | eight
  · omega
  · omega

/-- The loop: a key, a value, and the end at a pair of zeros. -/
def readPairs (map : Table UInt64 UInt64) (cursor : Bytes) :
    Except IoError (Table UInt64 UInt64) :=
  match _ : readExact Platform.usizeBytes cursor with
  | .error e => .error e
  | .ok (key, afterKey) =>
    match _ : readExact Platform.usizeBytes afterKey with
    | .error e => .error e
    | .ok (value, afterValue) =>
      if asWord key = 0 ∧ asWord value = 0 then .ok map
      else readPairs (map.insert (asWord key) (asWord value)) afterValue
termination_by cursor.length
decreasing_by
  rename_i first second _
  have key_length := length_of_readExact first
  have value_length := length_of_readExact second
  have positive := usizeBytes_pos
  omega

def auxv {ε : Type} [ProcError ε] (self : Process) : Io ε (Table UInt64 UInt64) := do
  let pathFromProcfsRoot := joinPath self.path "auxv"
  let file ← propagate (wrapIoError pathFromProcfsRoot
    (← sys (.openAt self.fd "auxv" { read := true })))
  let buf ← propagate (← sys (.readToEnd file))
  if buf.length = 0 then return ∅
  else propagate (readPairs ∅ buf)

end Reader

section Pairs

variable [Platform]

/-- The word with index `i`. -/
def wordAt (content : Bytes) (i : Nat) : UInt64 :=
  asWord ((content.drop (i * Platform.usizeBytes)).take Platform.usizeBytes)

/-- The pairs of words that are wholly there, from offset 0. -/
def completePairs (content : Bytes) : List (UInt64 × UInt64) :=
  (List.range (content.length / (2 * Platform.usizeBytes))).map fun i =>
    (wordAt content (2 * i), wordAt content (2 * i + 1))

theorem wordAt_drop (content : Bytes) (k i : Nat) :
    wordAt (content.drop (k * Platform.usizeBytes)) i = wordAt content (k + i) := by
  rw [wordAt, wordAt, List.drop_drop, ← Nat.add_mul]

theorem completePairs_short {content : Bytes}
    (short : content.length < 2 * Platform.usizeBytes) : completePairs content = [] := by
  rw [completePairs, Nat.div_eq_of_lt short]
  rfl

/-- Two full words and what follows them. -/
theorem completePairs_append {key value : Bytes} (key_full : key.length = Platform.usizeBytes)
    (value_full : value.length = Platform.usizeBytes) (rest : Bytes) :
    completePairs (key ++ (value ++ rest)) =
      (asWord key, asWord value) :: completePairs rest := by
  have positive := usizeBytes_pos
  have count : (key ++ (value ++ rest)).length / (2 * Platform.usizeBytes) =
      rest.length / (2 * Platform.usizeBytes) + 1 := by
    rw [← Nat.add_div_right _ (by omega), List.length_append, List.length_append, key_full,
      value_full]
    congr 1
    omega
  have behind : (key ++ (value ++ rest)).drop (2 * Platform.usizeBytes) = rest := by
    rw [← List.append_assoc]
    apply List.drop_left'
    rw [List.length_append, key_full, value_full]
    omega
  have first : wordAt (key ++ (value ++ rest)) 0 = asWord key := by
    rw [wordAt, Nat.zero_mul, List.drop_zero, List.take_left' key_full]
  have second : wordAt (key ++ (value ++ rest)) 1 = asWord value := by
    rw [wordAt, Nat.one_mul, List.drop_left' key_full, List.take_left' value_full]
  have later (i : Nat) : wordAt (key ++ (value ++ rest)) (2 + i) = wordAt rest i := by
    rw [← wordAt_drop, behind]
  rw [completePairs, count, List.range_succ_eq_map, List.map_cons, List.map_map, completePairs,
    first, second]
  congr 1
  refine List.map_congr_left fun i _ => ?_
  rw [Function.comp_apply, ← later, ← later]
  congr 2
  · omega
  · omega

/-- The loop is decided by the complete pairs: it fails unless one of them is the terminator,
and fills the map with those before the first terminator. -/
theorem readPairs_eq (map : Table UInt64 UInt64) (cursor : Bytes) :
    readPairs map cursor = if (0, 0) ∈ completePairs cursor then
        .ok (fill map ((completePairs cursor).takeWhile (· ≠ (0, 0))))
      else .error (.os .unexpectedEof) := by
  fun_induction readPairs map cursor with
  | case1 map cursor e first =>
    obtain ⟨short, rfl⟩ := readExact_eq_error_iff.mp first
    rw [completePairs_short (by omega), if_neg List.not_mem_nil]
  | case2 map cursor key afterKey first e second =>
    obtain ⟨key_full, rfl⟩ := readExact_eq_ok_iff.mp first
    obtain ⟨short, rfl⟩ := readExact_eq_error_iff.mp second
    have length := @List.length_append _ key afterKey
    rw [completePairs_short (by omega), if_neg List.not_mem_nil]
  | case3 map cursor key afterKey first value afterValue second zeros =>
    obtain ⟨key_full, rfl⟩ := readExact_eq_ok_iff.mp first
    obtain ⟨value_full, rfl⟩ := readExact_eq_ok_iff.mp second
    rw [completePairs_append key_full value_full, zeros.1, zeros.2,
      if_pos List.mem_cons_self, List.takeWhile_cons_of_neg (by simp)]
    rfl
  | case4 map cursor key afterKey first value afterValue second more ih =>
    obtain ⟨key_full, rfl⟩ := readExact_eq_ok_iff.mp first
    obtain ⟨value_full, rfl⟩ := readExact_eq_ok_iff.mp second
    have other : (asWord key, asWord value) ≠ (0, 0) := by
      intro same
      exact more (Prod.mk.inj same)
    have later : (0, 0) ∈ completePairs (key ++ (value ++ afterValue)) ↔
        (0, 0) ∈ completePairs afterValue := by
      rw [completePairs_append key_full value_full, List.mem_cons]
      exact or_iff_right other.symm
    rw [ih, if_congr later rfl rfl, completePairs_append key_full value_full,
      List.takeWhile_cons_of_pos (by exact decide_eq_true other)]
    rfl

/-- The kernel's bytes of a list of pairs. -/
def encodedPairs (pairs : List (UInt64 × UInt64)) : Bytes :=
  pairs.flatMap fun pair => toNeBytes Platform.order Platform.usizeBytes pair.1.toNat ++
    toNeBytes Platform.order Platform.usizeBytes pair.2.toNat

/-- A pair of words of the machine. -/
def Fits (pair : UInt64 × UInt64) : Prop :=
  pair.1.toNat < 256 ^ Platform.usizeBytes ∧ pair.2.toNat < 256 ^ Platform.usizeBytes

theorem asWord_toNeBytes {n : UInt64} (fits : n.toNat < 256 ^ Platform.usizeBytes) :
    asWord (toNeBytes Platform.order Platform.usizeBytes n.toNat) = n := by
  rw [asWord, fromNeBytes_toNeBytes _ _ _ fits, UInt64.ofNat_toNat]

theorem completePairs_encodedPairs {pairs : List (UInt64 × UInt64)}
    (fits : ∀ pair ∈ pairs, Fits pair) (rest : Bytes) :
    completePairs (encodedPairs pairs ++ rest) = pairs ++ completePairs rest := by
  induction pairs with
  | nil => rfl
  | cons pair pairs ih =>
    have later := ih fun pair' mem => fits pair' (List.mem_cons_of_mem pair mem)
    have first := fits pair List.mem_cons_self
    rw [encodedPairs] at later ⊢
    rw [List.flatMap_cons, List.append_assoc, List.append_assoc,
      completePairs_append (length_toNeBytes _ _ _) (length_toNeBytes _ _ _),
      asWord_toNeBytes first.1, asWord_toNeBytes first.2, later, List.cons_append]

end Pairs

section Reading

variable [Platform] {ε : Type} [ProcError ε]

/-- What a result says of the file's bytes: without a terminator an error, and with one the
last value of every key before it. -/
structure VectorOf (content : Bytes) (result : Except ε (Table UInt64 UInt64)) : Prop where
  empty : content = [] → result = .ok ∅
  terminated : content ≠ [] → (0, 0) ∈ completePairs content → ∃ map, result = .ok map ∧
    ∀ k v, map.lookup k = some v ↔
      LastValue ((completePairs content).takeWhile (· ≠ (0, 0))) k v
  unterminated : content ≠ [] → (0, 0) ∉ completePairs content → ∃ e, result = .error e

variable {σ : Type} {S : System σ} {self : Process} {w : World σ} {file : File} {e₁ e₂ : σ}
  {content : Bytes}

theorem exec_auxv
    (opened : S (.openAt self.fd "auxv" { read := true }) w.env = (.ok file, e₁))
    (holds : S (.readToEnd file) e₁ = (.ok content, e₂)) :
    exec (handle S) (auxv self : Io ε (Table UInt64 UInt64)) w =
      (if content.length = 0 then .ok ∅ else (readPairs ∅ content).mapError ProcError.fromIo,
        ⟨w.kernel, e₂⟩) := by
  have read_file := @run_sys_eq _ S _ ⟨w.kernel, e₁⟩ _ _ holds
  rw [auxv, exec_wrapped_ok (run_sys_eq opened), exec_propagated_ok read_file]
  split
  · rfl
  · rfl

theorem vectorOf_exec
    (opened : S (.openAt self.fd "auxv" { read := true }) w.env = (.ok file, e₁))
    (holds : S (.readToEnd file) e₁ = (.ok content, e₂)) :
    VectorOf content (exec (handle S) (auxv self : Io ε (Table UInt64 UInt64)) w).1 := by
  rw [exec_auxv opened holds, readPairs_eq]
  refine ⟨?_, fun nonempty terminator => ?_, fun nonempty missing => ?_⟩
  · rintro rfl
    rfl
  · rw [if_neg (mt List.eq_nil_of_length_eq_zero nonempty), if_pos terminator]
    exact ⟨_, rfl, lookup_fill_eq_some_iff _⟩
  · rw [if_neg (mt List.eq_nil_of_length_eq_zero nonempty), if_neg missing]
    exact ⟨_, rfl⟩

/-- The reader returns the vector of the bytes, and pairs with distinct keys come back from
their bytes under the terminator, whatever follows it. -/
theorem auxv_exact
    (opened : S (.openAt self.fd "auxv" { read := true }) w.env = (.ok file, e₁))
    (holds : S (.readToEnd file) e₁ = (.ok content, e₂)) :
    VectorOf content (exec (handle S) (auxv self : Io ε (Table UInt64 UInt64)) w).1 ∧
      ∀ (pairs : List (UInt64 × UInt64)) (rest : Bytes), (pairs.map Prod.fst).Nodup →
        (0, 0) ∉ pairs → (∀ pair ∈ pairs, Fits pair) →
        content = encodedPairs (pairs ++ [(0, 0)]) ++ rest →
        ∃ map, (exec (handle S) (auxv self : Io ε (Table UInt64 UInt64)) w).1 = .ok map ∧
          ∀ k v, map.lookup k = some v ↔ (k, v) ∈ pairs := by
  have vector : VectorOf content (exec (handle S) (auxv self : Io ε _) w).1 :=
    vectorOf_exec opened holds
  refine ⟨vector, fun pairs rest distinct proper fits encoding => ?_⟩
  have all_fit : ∀ pair ∈ pairs ++ [(0, 0)], Fits pair := by
    intro pair mem
    rcases List.mem_append.mp mem with inside | zeros
    · exact fits pair inside
    · rw [List.mem_singleton.mp zeros]
      exact ⟨Nat.pow_pos (by decide), Nat.pow_pos (by decide)⟩
  have found := completePairs_encodedPairs all_fit rest
  rw [← encoding, List.append_assoc] at found
  have terminator : (0, 0) ∈ completePairs content := by
    rw [found]
    simp
  have nonempty : content ≠ [] := by
    rintro rfl
    rw [completePairs_short (Nat.mul_pos (by decide) usizeBytes_pos)] at terminator
    cases terminator
  obtain ⟨map, returned, values⟩ := vector.terminated nonempty terminator
  have before : (completePairs content).takeWhile (· ≠ (0, 0)) = pairs := by
    have kept : ∀ pair ∈ pairs, decide (pair ≠ (0, 0)) = true := by
      intro pair mem
      refine decide_eq_true ?_
      rintro rfl
      exact proper mem
    rw [found, List.takeWhile_append_of_pos kept]
    simp
  refine ⟨map, returned, fun k v => ?_⟩
  rw [values, before, lastValue_iff_mem distinct]

end Reading

section TwoEntries

/-- A page size and a base address, the terminator, and a stray byte. -/
def twoEntries : Bytes :=
  @encodedPairs littleEndian64 [(6, 4096), (7, 0), (0, 0)] ++ [0xFF]

theorem auxv_exact_twoEntries :
    ∃ map, (exec (handle (fixed (serving twoEntries)))
        (@auxv littleEndian64 CoreError _ twentySeven) ⟨0, ()⟩).1 = .ok map ∧
      ∀ k v, map.lookup k = some v ↔ (k, v) ∈ [((6 : UInt64), (4096 : UInt64)), (7, 0)] := by
  let _ := littleEndian64
  refine (auxv_exact rfl rfl).2 [(6, 4096), (7, 0)] [0xFF] (by decide) (by decide) ?_ rfl
  intro pair mem
  simp only [List.mem_cons, List.not_mem_nil, or_false] at mem
  rcases mem with rfl | rfl
  · exact ⟨by decide, by decide⟩
  · exact ⟨by decide, by decide⟩

end TwoEntries

end AuxiliaryVector
