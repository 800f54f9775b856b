import Mathlib.Order.Defs.LinearOrder
import AsyncProcfs.Descriptors
import AsyncProcfs.Results

/-!
# Release texts and their order

`Version.from_str` reads the longest prefix of digits and dots, and of its
components the first three. The accepted texts are characterized exactly, and
the order of versions is the order of the numbers in their texts. So is the
choice of the flags that processes and descriptors are opened with.
-/

namespace Releases

open ProgramRuns Results Text IntText Procfs KernelVersion Processes Descriptors

section Pieces

theorem mem_of_mem_splitOn {a : Char} {s w : Str} (piece : w ∈ s.splitOn a) {c : Char}
    (mem : c ∈ w) : c ∈ s ∧ c ≠ a := by
  induction s generalizing w with
  | nil =>
    rw [List.splitOn_nil, List.mem_singleton] at piece
    subst piece
    cases mem
  | cons d s ih =>
    rw [List.splitOn_cons_eq_if_modifyHead] at piece
    by_cases cut : d = a
    · rw [if_pos (by simpa using cut)] at piece
      rcases List.mem_cons.mp piece with rfl | piece
      · cases mem
      · have inside := ih piece mem
        exact ⟨List.mem_cons_of_mem d inside.1, inside.2⟩
    · rw [if_neg (by simpa using cut)] at piece
      obtain ⟨first, rest, split⟩ := List.exists_cons_of_ne_nil (List.splitOn_ne_nil a s)
      rw [split, List.modifyHead_cons] at piece
      rcases List.mem_cons.mp piece with rfl | piece
      · rcases List.mem_cons.mp mem with rfl | mem
        · exact ⟨List.mem_cons_self, cut⟩
        · have inside := ih (by rw [split]; exact List.mem_cons_self) mem
          exact ⟨List.mem_cons_of_mem d inside.1, inside.2⟩
      · have inside := ih (by rw [split]; exact List.mem_cons_of_mem first piece) mem
        exact ⟨List.mem_cons_of_mem d inside.1, inside.2⟩

end Pieces

section Grammar

/-- The longest prefix of ASCII digits and dots. -/
def numericPrefix (s : Str) : Str := s.takeWhile fun c => c == '.' || c.isDigit

def components (s : Str) : List Str := (numericPrefix s).splitOn '.'

/-- The first three components of `s` are numerals of these values. -/
def Release (s : Str) (major minor patch : Nat) : Prop :=
  ∃ first second third rest, components s = first :: second :: third :: rest ∧
    Numeral first major ∧ Numeral second minor ∧ Numeral third patch

/-- What the parser makes of the components. -/
def fromComponents (kernelSplit : List Str) : Except Str Version := do
  let (major, kernelSplit) ← nextOr "Missing major version component" kernelSplit
  let (minor, kernelSplit) ← nextOr "Missing minor version component" kernelSplit
  let (patch, _) ← nextOr "Missing patch version component" kernelSplit
  let major ← (parse UInt8 major).mapError fun _ => "Failed to parse major version"
  let minor ← (parse UInt8 minor).mapError fun _ => "Failed to parse minor version"
  let patch ← (parse UInt16 patch).mapError fun _ => "Failed to parse patch version"
  return { major, minor, patch }

theorem fromStr_eq_fromComponents (s : Str) :
    Version.fromStr s = fromComponents (components s) := by
  have stop : (fun c : Char => c ≠ '.' && !c.isDigit) = fun c => !(c == '.' || c.isDigit) := by
    funext c
    by_cases dot : c = '.'
    · simp [dot]
    · simp [dot]
  rw [components, numericPrefix, List.takeWhile_eq_take_findIdx_not, Version.fromStr, stop]
  cases found : s.findIdx? fun c => !(c == '.' || c.isDigit) with
  | none =>
    rw [List.findIdx?_eq_none_iff_findIdx_eq.mp found, List.take_length]
    rfl
  | some pos =>
    rw [(List.findIdx?_eq_some_iff_findIdx_eq.mp found).2]
    rfl

theorem fromComponents_eq_ok_iff (first second third : Str) (rest : List Str) (v : Version) :
    fromComponents (first :: second :: third :: rest) = .ok v ↔
      parse UInt8 first = .ok v.major ∧ parse UInt8 second = .ok v.minor ∧
        parse UInt16 third = .ok v.patch := by
  have read : fromComponents (first :: second :: third :: rest) = (do
      let major ← (parse UInt8 first).mapError fun _ => "Failed to parse major version".toList
      let minor ← (parse UInt8 second).mapError fun _ => "Failed to parse minor version".toList
      let patch ← (parse UInt16 third).mapError fun _ => "Failed to parse patch version".toList
      return { major, minor, patch }) := rfl
  rw [read]
  simp only [bind_eq_ok_iff, mapError_eq_ok_iff]
  constructor
  · rintro ⟨major, first_ok, minor, second_ok, patch, third_ok, ok⟩
    cases ok
    exact ⟨first_ok, second_ok, third_ok⟩
  · rintro ⟨first_ok, second_ok, third_ok⟩
    exact ⟨_, first_ok, _, second_ok, _, third_ok, rfl⟩

theorem digits_of_mem_components {s piece : Str} (mem : piece ∈ components s) :
    ∀ c ∈ piece, c.isDigit := by
  intro c inside
  have origin := mem_of_mem_splitOn mem inside
  have kind := List.mem_takeWhile_imp origin.1
  rcases Bool.or_eq_true_iff.mp kind with dot | digit
  · exact absurd (beq_iff_eq.mp dot) origin.2
  · exact digit

/-- A component is read as the value it is a numeral of. -/
theorem parse_component_iff {α : Type} [MachineInt α] (unsigned : MachineInt.min α = 0)
    {s piece : Str} (mem : piece ∈ components s) {a : α} {n : Nat}
    (value : MachineInt.toInt a = n) : parse α piece = .ok a ↔ Numeral piece n := by
  rw [parse_eq_ok_iff_numberText unsigned value]
  apply numberText_iff_numeral
  apply plus_not_mem
  exact digits_of_mem_components mem

/-- The accepted release texts, exactly, with the version each of them gives. -/
theorem fromStr_eq_ok_iff (s : Str) (v : Version) : Version.fromStr s = .ok v ↔
    Release s v.major.toNat v.minor.toNat v.patch.toNat := by
  rw [fromStr_eq_fromComponents]
  have short {pieces : List Str} (few : components s = pieces) (len : pieces.length < 3) :
      ¬ Release s v.major.toNat v.minor.toNat v.patch.toNat := by
    rintro ⟨first, second, third, rest, split, -⟩
    rw [← few, split] at len
    simp only [List.length_cons] at len
    omega
  match split : components s with
  | [] => exact iff_of_false (fun ok => nomatch ok) (short split (by simp))
  | [_] => exact iff_of_false (fun ok => nomatch ok) (short split (by simp))
  | [_, _] => exact iff_of_false (fun ok => nomatch ok) (short split (by simp))
  | first :: second :: third :: rest =>
    have major := @parse_component_iff UInt8 _ rfl s first (by simp [split]) v.major _ rfl
    have minor := @parse_component_iff UInt8 _ rfl s second (by simp [split]) v.minor _ rfl
    have patch := @parse_component_iff UInt16 _ rfl s third (by simp [split]) v.patch _ rfl
    rw [fromComponents_eq_ok_iff, major, minor, patch]
    constructor
    · intro numerals
      exact ⟨first, second, third, rest, split, numerals⟩
    · rintro ⟨first', second', third', rest', split', numerals⟩
      rw [split] at split'
      cases split'
      exact numerals

end Grammar

section Parsing

/-- `major.minor.patch`. -/
def releaseText (v : Version) : Str :=
  display v.major ++ '.' :: (display v.minor ++ '.' :: display v.patch)

/-- What `Version.from_str` makes of a text: which versions it gives, when it gives one, and
how much of the text it depends on. -/
structure Exact (s : Str) : Prop where
  values : ∀ v, Version.fromStr s = .ok v ↔
    Release s v.major.toNat v.minor.toNat v.patch.toNat
  accepts : (∃ v, Version.fromStr s = .ok v) ↔ ∃ major minor patch,
    Release s major minor patch ∧ major ≤ 255 ∧ minor ≤ 255 ∧ patch ≤ 65535
  depends : ∀ t, (components t).take 3 = (components s).take 3 →
    Version.fromStr t = Version.fromStr s

theorem accepts_iff (s : Str) : (∃ v, Version.fromStr s = .ok v) ↔ ∃ major minor patch,
    Release s major minor patch ∧ major ≤ 255 ∧ minor ≤ 255 ∧ patch ≤ 65535 := by
  constructor
  · rintro ⟨v, ok⟩
    have first := v.major.toNat_lt
    have second := v.minor.toNat_lt
    have third := v.patch.toNat_lt
    exact ⟨_, _, _, (fromStr_eq_ok_iff s v).mp ok, by omega, by omega, by omega⟩
  · rintro ⟨major, minor, patch, release, first, second, third⟩
    refine ⟨⟨UInt8.ofNat major, UInt8.ofNat minor, UInt16.ofNat patch⟩,
      (fromStr_eq_ok_iff s _).mpr ?_⟩
    rw [UInt8.toNat_ofNat_of_lt' (Nat.lt_succ_of_le first),
      UInt8.toNat_ofNat_of_lt' (Nat.lt_succ_of_le second),
      UInt16.toNat_ofNat_of_lt' (Nat.lt_succ_of_le third)]
    exact release

theorem fromComponents_take (pieces : List Str) :
    fromComponents (pieces.take 3) = fromComponents pieces := by
  match pieces with
  | [] => rfl
  | [_] => rfl
  | [_, _] => rfl
  | _ :: _ :: _ :: _ => rfl

theorem numericPrefix_releaseText (v : Version) (suffix : Str) :
    numericPrefix (releaseText v ++ suffix) = releaseText v ++ numericPrefix suffix := by
  apply List.takeWhile_append_of_pos
  intro c mem
  have numeric {α : Type} [MachineInt α] (unsigned : MachineInt.min α = 0) {a : α}
      (mem : c ∈ display a) : (c == '.' || c.isDigit) = true := by
    rw [digits_display unsigned a c mem, Bool.or_true]
  rcases List.mem_append.mp mem with major | mem
  · exact numeric rfl major
  rcases List.mem_cons.mp mem with rfl | mem
  · rfl
  rcases List.mem_append.mp mem with minor | mem
  · exact numeric rfl minor
  rcases List.mem_cons.mp mem with rfl | patch
  · rfl
  · exact numeric rfl patch

/-- A printed version is cut at its dots, whatever follows it. -/
theorem components_releaseText (v : Version) {suffix : Str} (detached : Detached suffix) :
    ∃ rest, components (releaseText v ++ suffix) =
      display v.major :: display v.minor :: display v.patch :: rest := by
  have dotless {α : Type} [MachineInt α] (unsigned : MachineInt.min α = 0) (a : α) :
      '.' ∉ display a := by
    intro mem
    exact absurd (digits_display unsigned a '.' mem) (by decide)
  rw [components, numericPrefix_releaseText, releaseText, List.append_assoc, List.cons_append,
    List.splitOn_append_cons_self_of_not_mem (dotless rfl v.major), List.append_assoc,
    List.cons_append, List.splitOn_append_cons_self_of_not_mem (dotless rfl v.minor)]
  have tail : numericPrefix suffix = [] ∨ ∃ rest, numericPrefix suffix = '.' :: rest := by
    cases suffix with
    | nil => exact Or.inl rfl
    | cons c suffix =>
      by_cases dot : c = '.'
      · subst dot
        exact Or.inr ⟨_, List.takeWhile_cons_of_pos rfl⟩
      · have digit : ¬ c.isDigit := detached c rfl
        exact Or.inl (List.takeWhile_cons_of_neg (by simp [dot, digit]))
  rcases tail with none | ⟨rest, dot⟩
  · rw [none, List.append_nil, List.splitOn_eq_singleton (dotless rfl v.patch)]
    exact ⟨[], rfl⟩
  · rw [dot, List.splitOn_append_cons_self_of_not_mem (dotless rfl v.patch)]
    exact ⟨_, rfl⟩

/-- `Version.from_str` on every text, and on a printed version under any suffix. -/
theorem fromStr_exact (s : Str) : Exact s ∧
    ∀ (v : Version) (suffix : Str), Detached suffix → s = releaseText v ++ suffix →
      Version.fromStr s = .ok v := by
  refine ⟨⟨fromStr_eq_ok_iff s, accepts_iff s, fun t same => ?_⟩, ?_⟩
  · rw [fromStr_eq_fromComponents, fromStr_eq_fromComponents, ← fromComponents_take, same,
      fromComponents_take]
  · rintro v suffix detached rfl
    obtain ⟨rest, split⟩ := components_releaseText v detached
    rw [fromStr_eq_fromComponents, split, fromComponents_eq_ok_iff]
    exact ⟨parse_display _, parse_display _, parse_display _⟩

theorem fromStr_exact_candidate :
    Version.fromStr (releaseText ⟨6, 12, 0⟩ ++ "-rc7".toList) = .ok ⟨6, 12, 0⟩ := by
  refine (fromStr_exact _).2 ⟨6, 12, 0⟩ "-rc7" (fun c first => ?_) rfl
  cases first
  decide

end Parsing

section Gates

variable [Platform] {ε : Type} [ProcError ε] {α : Type}

/-- Once a lookup gives `v`, the next request of the call is this open. -/
def NextOpens (v : Version) (procfs : AsyncProcfs) (dir : File) (path : Path)
    (options : OpenOptions) (call : Io ε α) : Prop :=
  ∀ (σ : Type) (S : System σ) (w w' : World σ),
    exec (handle S) (Version.cached procfs : Io ε Version) w = (.ok v, w') →
    ∃ rest, requests (handle S) call.run w =
      requests (handle S) (Version.cached procfs : Io ε Version).run w ++
        .sys (.openAt dir path options) :: rest

variable {v : Version} {procfs : AsyncProcfs} {dir : File} {path : Path} {options : OpenOptions}

/-- A call that looks the version up, keeps what that gives, and opens a file. -/
theorem nextOpens_gate {f : Except ε Version → Io ε α}
    (opens : ∃ next, f (.ok v) = (liftM (sys (.openAt dir path options)) : Io ε _) >>= next) :
    NextOpens v procfs dir path options
      (attempt (Version.cached procfs : Io ε Version) >>= f) := by
  intro σ S w w' looked
  obtain ⟨next, opens⟩ := opens
  rw [requests_run_bind, requests_attempt, exec_attempt, looked]
  dsimp only
  rw [opens, requests_run_bind]
  exact ⟨_, rfl⟩

/-- How a process's directory is opened before 3.6.0, and from there on. -/
def directoryOptions (before : Prop) [Decidable before] : OpenOptions where
  read := true
  customFlags := if before then [.directory, .cloexec] else [.path, .directory, .cloexec]

/-- How the link of a descriptor is. -/
def linkOptions (before : Prop) [Decidable before] : OpenOptions where
  customFlags := if before then [.nofollow, .cloexec] else [.nofollow, .path, .cloexec]

theorem nextOpens_newWithPath (v : Version) (procfs : AsyncProcfs) (path : Path) :
    NextOpens v procfs procfs.file path (directoryOptions (v < ⟨3, 6, 0⟩))
      (Process.newWithPath procfs path : Io ε Process) :=
  nextOpens_gate ⟨_, rfl⟩

theorem nextOpens_fromProcessAt (v : Version) (Target : Type) [FDTarget Target] (self : Process)
    (fd : Int32) :
    NextOpens v self.procfs self.fd (joinPath "fd" (display fd)) (linkOptions (v < ⟨3, 6, 0⟩))
      (FDInfo.fromProcessAt Target self fd : Io ε (FDInfo Target)) :=
  nextOpens_gate ⟨_, rfl⟩

end Gates

section Order

/-- Three numbers compared from the first to the last. -/
def lexicographic (a b : Nat × Nat × Nat) : Ordering :=
  (compare a.1 b.1).then ((compare a.2.1 b.2.1).then (compare a.2.2 b.2.2))

def numbers (v : Version) : Nat × Nat × Nat :=
  (v.major.toNat, v.minor.toNat, v.patch.toNat)

theorem numbers_inj {v w : Version} : numbers v = numbers w ↔ v = w := by
  obtain ⟨major, minor, patch⟩ := v
  obtain ⟨major', minor', patch'⟩ := w
  simp [numbers, UInt8.toNat_inj, UInt16.toNat_inj]

theorem cmp_eq_lexicographic (v w : Version) :
    v.cmp w = lexicographic (numbers v) (numbers w) := by
  have byte (a b : UInt8) : compare a b = compare a.toNat b.toNat := by
    simp only [compare, compareOfLessAndEq, UInt8.lt_iff_toNat_lt, UInt8.toNat_inj]
  have word (a b : UInt16) : compare a b = compare a.toNat b.toNat := by
    simp only [compare, compareOfLessAndEq, UInt16.lt_iff_toNat_lt, UInt16.toNat_inj]
  rw [Version.cmp, byte, byte, word]
  simp only [lexicographic, numbers]
  cases compare v.major.toNat w.major.toNat with
  | lt => rfl
  | gt => rfl
  | eq => cases compare v.minor.toNat w.minor.toNat <;> rfl

/-- The order by the numbers. -/
theorem le_iff_toNat (v w : Version) : v ≤ w ↔ v.major.toNat < w.major.toNat ∨
    v.major.toNat = w.major.toNat ∧ (v.minor.toNat < w.minor.toNat ∨
      v.minor.toNat = w.minor.toNat ∧ v.patch.toNat ≤ w.patch.toNat) := by
  rw [Version.le_iff]
  simp only [UInt8.lt_iff_toNat_lt, UInt16.le_iff_toNat_le, UInt8.toNat_inj]

theorem le_total (v w : Version) : v ≤ w ∨ w ≤ v := by
  rw [le_iff_toNat, le_iff_toNat]
  omega

theorem le_trans {u v w : Version} (first : u ≤ v) (second : v ≤ w) : u ≤ w := by
  rw [le_iff_toNat] at *
  omega

theorem le_antisymm {v w : Version} (first : v ≤ w) (second : w ≤ v) : v = w := by
  rw [le_iff_toNat] at first second
  rw [← numbers_inj, numbers, numbers, Prod.mk.injEq, Prod.mk.injEq]
  omega

theorem cmp_eq_iff (v w : Version) : v.cmp w = .eq ↔ v = w := by
  rw [cmp_eq_lexicographic, ← numbers_inj]
  simp [lexicographic, Ordering.then_eq_eq, Prod.ext_iff]

/-- How two versions compare, when `a` and `b` are the numbers of the texts they come from. -/
structure Compared [Platform] (ε : Type) [ProcError ε] (v w : Version) (a b : Nat × Nat × Nat) :
    Prop where
  cmp : v.cmp w = lexicographic a b
  partialCmp : v.partialCmp w = some (lexicographic a b)
  same : v = w ↔ a = b
  equal : v.cmp w = .eq ↔ v = w
  total : v ≤ w ∨ w ≤ v
  antisymm : v ≤ w → w ≤ v → v = w
  trans : ∀ u : Version, v ≤ w → w ≤ u → v ≤ u
  gate : before36 (.ok v : Except ε Version) ↔ lexicographic a (3, 6, 0) = .lt
  directory : ∀ (procfs : AsyncProcfs) (path : Path), NextOpens v procfs procfs.file path
    (directoryOptions (lexicographic a (3, 6, 0) = .lt)) (Process.newWithPath procfs path : Io ε Process)
  descriptor : ∀ (Target : Type) [FDTarget Target] (self : Process) (fd : Int32),
    NextOpens v self.procfs self.fd (joinPath "fd" (display fd))
      (linkOptions (lexicographic a (3, 6, 0) = .lt))
      (FDInfo.fromProcessAt Target self fd : Io ε (FDInfo Target))

theorem lt_release_iff (v : Version) :
    v < ⟨3, 6, 0⟩ ↔ lexicographic (numbers v) (3, 6, 0) = .lt := by
  change v.cmp ⟨3, 6, 0⟩ = .lt ↔ _
  rw [cmp_eq_lexicographic]
  rfl

/-- Versions compare as the numbers of their texts do, at the gates for 3.6.0 as well. -/
theorem fromStr_compared [Platform] (ε : Type) [ProcError ε] {s t : Str} {v w : Version} {a b : Nat × Nat × Nat}
    (read : Version.fromStr s = .ok v) (read' : Version.fromStr t = .ok w)
    (valued : Release s a.1 a.2.1 a.2.2) (valued' : Release t b.1 b.2.1 b.2.2) :
    Compared ε v w a b := by
  have unique {s : Str} {v : Version} {a : Nat × Nat × Nat} (read : Version.fromStr s = .ok v)
      (valued : Release s a.1 a.2.1 a.2.2) : a = numbers v := by
    obtain ⟨first, second, third, rest, split, numerals⟩ := (fromStr_eq_ok_iff s v).mp read
    obtain ⟨first', second', third', rest', split', numerals'⟩ := valued
    rw [split] at split'
    cases split'
    obtain ⟨major, minor, patch⟩ := numerals
    obtain ⟨major', minor', patch'⟩ := numerals'
    rw [numbers, major.2.2, minor.2.2, patch.2.2, ← major'.2.2, ← minor'.2.2, ← patch'.2.2]
  obtain rfl := unique read valued
  obtain rfl := unique read' valued'
  exact
    { cmp := cmp_eq_lexicographic v w
      partialCmp := congrArg some (cmp_eq_lexicographic v w)
      same := numbers_inj.symm
      equal := cmp_eq_iff v w
      total := le_total v w
      antisymm := le_antisymm
      trans := fun u => le_trans
      gate := lt_release_iff v
      directory := fun procfs path => by
        simp only [directoryOptions, ← lt_release_iff]
        exact nextOpens_newWithPath v procfs path
      descriptor := fun Target _ self fd => by
        simp only [linkOptions, ← lt_release_iff]
        exact nextOpens_fromProcessAt v Target self fd }

theorem fromStr_compared_minor :
    @Compared littleEndian64 CoreError _ ⟨4, 9, 0⟩ ⟨4, 10, 0⟩ (4, 9, 0) (4, 10, 0) := by
  have nine : Version.fromStr "4.09.0" = .ok ⟨4, 9, 0⟩ := by decide
  have ten : Version.fromStr "4.10.0-42" = .ok ⟨4, 10, 0⟩ := by decide
  exact @fromStr_compared littleEndian64 CoreError _ _ _ _ _ _ _ nine ten ((fromStr_eq_ok_iff _ _).mp nine)
    ((fromStr_eq_ok_iff _ _).mp ten)

end Order

end Releases
