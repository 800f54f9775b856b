import Mathlib.Data.Finset.Dedup
import Mathlib.Data.Finset.Lattice.Lemmas
import AsyncProcfs.Text

/-!
# The kernel's build text

A build text is the version behind a `#`, a run of flag words and the rest. The
parser takes flags while every character of a word is upper case. It pushes the
word that ends the run with a space behind it and joins what is left after it:
a single remaining word keeps that space, and a flag with an underscore is not
upper case.
-/

namespace KernelBuild

open Text

structure BuildInfo where
  version : Str
  flags : Finset Str
  extra : Str
  deriving DecidableEq

section Parser

variable (isUppercase : Char → Bool)

/-- The test of the loop; a word without characters passes it. -/
def allUppercase (s : Str) : Bool := s.all isUppercase

/-- The loop over the words: the flags, what it pushed to `extra`, and the words left. -/
def takeFlags (flags : Finset Str) : List Str → Finset Str × Str × List Str
  | [] => (flags, [], [])
  | s :: splited =>
    if allUppercase isUppercase s then takeFlags (insert s flags) splited
    else (flags, s ++ [' '], splited)

def BuildInfo.fromStr (s : Str) : Except Str BuildInfo :=
  match s.splitOn ' ' with
  | [] => .error "Failed to parse kernel build version"
  | versionStr :: splited => match stripPrefix '#' versionStr with
    | none => .error "Failed to parse kernel build version"
    | some version =>
      let (flags, extra, remains) := takeFlags isUppercase ∅ splited
      .ok { version, flags, extra := extra ++ [' '].intercalate remains }

/-- The words of the flag run. -/
def flagRun (words : List Str) : List Str := words.takeWhile (allUppercase isUppercase)

/-- The words after it. -/
def remaining (words : List Str) : List Str := words.dropWhile (allUppercase isUppercase)

/-- What the parser makes of the words after the flags. -/
def rejoined : List Str → Str
  | [] => []
  | word :: rest => (word ++ [' ']) ++ [' '].intercalate rest

/-- The loop collects the flag run, and the text it builds is made of the other words. -/
theorem takeFlags_spec (flags : Finset Str) (words : List Str) :
    let out := takeFlags isUppercase flags words
    out.1 = flags ∪ (flagRun isUppercase words).toFinset ∧
      out.2.1 ++ [' '].intercalate out.2.2 = rejoined (remaining isUppercase words) := by
  induction words generalizing flags with
  | nil => simp [takeFlags, flagRun, remaining, rejoined]
  | cons s splited ih =>
    by_cases upper : allUppercase isUppercase s
    · obtain ⟨collected, rebuilt⟩ := ih (insert s flags)
      rw [takeFlags, if_pos upper, flagRun, remaining, List.takeWhile_cons_of_pos upper,
        List.dropWhile_cons_of_pos upper, List.toFinset_cons, Finset.union_insert,
        ← Finset.insert_union]
      exact ⟨collected, rebuilt⟩
    · rw [takeFlags, if_neg upper, flagRun, remaining, List.takeWhile_cons_of_neg upper,
        List.dropWhile_cons_of_neg upper]
      exact ⟨(Finset.union_empty flags).symm, rfl⟩

/-- The parser takes a marked text apart into version, flag run and the rest. -/
theorem fromStr_eq {s w₀ : Str} {words : List Str} (split : s.splitOn ' ' = w₀ :: words) :
    BuildInfo.fromStr isUppercase s = match stripPrefix '#' w₀ with
      | none => .error "Failed to parse kernel build version".toList
      | some version => .ok
        { version
          flags := (flagRun isUppercase words).toFinset
          extra := rejoined (remaining isUppercase words) } := by
  obtain ⟨collected, rebuilt⟩ := takeFlags_spec isUppercase ∅ words
  rw [BuildInfo.fromStr, split]
  dsimp only
  cases stripPrefix '#' w₀ with
  | none => rfl
  | some version =>
    dsimp only
    rw [collected, rebuilt, Finset.empty_union]

end Parser

section Lossless

/-- The parser loses no word, and adds a space to one that is alone. -/
theorem rejoined_eq_iff (words : List Str) :
    rejoined words = [' '].intercalate words ↔ words.length ≠ 1 := by
  match words with
  | [] => simp [rejoined]
  | [word] => simp [rejoined]
  | word :: next :: rest => simp [rejoined]

def firstWord (s : Str) : Str := (s.splitOn ' ').headI

def laterWords (s : Str) : List Str := (s.splitOn ' ').tail

theorem splitOn_eq (s : Str) : s.splitOn ' ' = firstWord s :: laterWords s :=
  (List.cons_head!_tail (List.splitOn_ne_nil ' ' s)).symm

variable (isUppercase : Char → Bool)

/-- Nothing of a text is lost, and nothing added. -/
structure Lossless (s : Str) : Prop where
  fails : (∃ e, BuildInfo.fromStr isUppercase s = .error e) ↔ (firstWord s).head? ≠ some '#'
  parts : ∀ info, BuildInfo.fromStr isUppercase s = .ok info →
    info.version = (firstWord s).tail ∧
      info.flags = (flagRun isUppercase (laterWords s)).toFinset ∧
      info.extra = [' '].intercalate (remaining isUppercase (laterWords s))

theorem lossless_unmarked {s : Str} (unmarked : (firstWord s).head? ≠ some '#') :
    Lossless isUppercase s := by
  have parsed := fromStr_eq isUppercase (splitOn_eq s)
  have none_stripped : stripPrefix '#' (firstWord s) = none := by
    cases first : firstWord s with
    | nil => rfl
    | cons c rest => exact if_neg fun mark => unmarked (by rw [first, mark]; rfl)
  rw [none_stripped] at parsed
  refine ⟨iff_of_true ⟨_, parsed⟩ unmarked, fun info ok => ?_⟩
  rw [parsed] at ok
  cases ok

theorem lossless_marked_iff {s : Str} (marked : (firstWord s).head? = some '#') :
    Lossless isUppercase s ↔ (remaining isUppercase (laterWords s)).length ≠ 1 := by
  have parsed := fromStr_eq isUppercase (splitOn_eq s)
  obtain ⟨version, first⟩ := List.head?_eq_some_iff.mp marked
  rw [stripPrefix_eq_some_iff.mpr first] at parsed
  rw [← rejoined_eq_iff]
  constructor
  · exact fun lossless => (lossless.parts _ parsed).2.2
  · intro rebuilt
    refine ⟨iff_of_false ?_ fun unmarked => unmarked marked, fun info ok => ?_⟩
    · rintro ⟨e, failed⟩
      rw [parsed] at failed
      cases failed
    · rw [parsed] at ok
      cases ok
      exact ⟨by rw [first, List.tail_cons], rfl, rebuilt⟩

/-- The parser is lossless except on marked texts with exactly one word after the flags. -/
theorem lossless_iff (s : Str) : Lossless isUppercase s ↔
    ¬ ((firstWord s).head? = some '#' ∧
      (remaining isUppercase (laterWords s)).length = 1) := by
  by_cases marked : (firstWord s).head? = some '#'
  · rw [lossless_marked_iff isUppercase marked]
    simp only [marked, true_and, ne_eq]
  · exact iff_of_true (lossless_unmarked isUppercase marked) fun one => marked one.1

/-- A lone date keeps the space pushed behind it. -/
theorem lossless_lone_date : ¬ Lossless Char.isUpper "#1 SMP Tue" := by
  intro lossless
  have parsed : BuildInfo.fromStr Char.isUpper "#1 SMP Tue" =
      .ok ⟨"1".toList, {"SMP".toList}, "Tue ".toList⟩ := by decide
  have extra := (lossless.parts _ parsed).2.2
  revert extra
  decide

end Lossless

section Flags

/-- What the parser relies on of the Unicode case tables. -/
structure CharCase where
  isUppercase : Char → Bool
  isLowercase : Char → Bool
  ascii : ∀ c, c.toNat < 128 → isUppercase c = c.isUpper
  disjoint : ∀ c, isLowercase c = true → isUppercase c = false

/-- A flag word as `mkcompile_h` writes it: letters A to Z and underscores, not only these. -/
def FlagWord (f : Str) : Prop := (∀ c ∈ f, c.isUpper ∨ c = '_') ∧ ∃ c ∈ f, c.isUpper

instance (f : Str) : Decidable (FlagWord f) :=
  @instDecidableAnd _ _ (List.decidableBAll _ f) (List.decidableBEx _ f)

def buildText (version : Str) (flags : List Str) (date : Str) : Str :=
  ('#' :: version) ++ (flags.flatMap fun f => ' ' :: f) ++ ' ' :: date

/-- The texts of `mkcompile_h`: a version word, flag words, and a date of two words or more
whose first has a lower-case letter. -/
structure Printed (table : CharCase) (version : Str) (flags : List Str) (date : Str) :
    Prop where
  solid : ' ' ∉ version
  flagWords : ∀ f ∈ flags, FlagWord f
  manyWords : 2 ≤ (date.splitOn ' ').length
  lower : ∃ c ∈ firstWord date, table.isLowercase c = true

/-- The parser keeps the flags and the date apart. -/
def FlagsKept (table : CharCase) (version : Str) (flags : List Str) (date : Str) : Prop :=
  ∃ info, BuildInfo.fromStr table.isUppercase (buildText version flags date) = .ok info ∧
    info.flags = flags.toFinset ∧ info.extra = date

theorem splitOn_spaced {first : Str} (solid : ' ' ∉ first) {words : List Str}
    (allSolid : ∀ w ∈ words, ' ' ∉ w) (rest : Str) :
    (first ++ (words.flatMap fun w => ' ' :: w) ++ ' ' :: rest).splitOn ' ' =
      first :: (words ++ rest.splitOn ' ') := by
  induction words generalizing first with
  | nil =>
    rw [List.flatMap_nil, List.append_nil]
    exact List.splitOn_append_cons_self_of_not_mem solid rest
  | cons w words ih =>
    have later := ih (allSolid w List.mem_cons_self) fun w' mem =>
      allSolid w' (List.mem_cons_of_mem w mem)
    rw [List.append_assoc] at later
    rw [List.flatMap_cons, List.append_assoc, List.cons_append, List.cons_append,
      List.splitOn_append_cons_self_of_not_mem solid, List.append_assoc, later,
      List.cons_append]

variable {table : CharCase}

theorem ascii_of_isUpper {c : Char} (upper : c.isUpper) : c.toNat < 128 := by
  have range : 'A'.val ≤ c.val ∧ c.val ≤ 'Z'.val := of_decide_eq_true upper
  exact Nat.lt_of_le_of_lt (UInt32.le_iff_toNat_le.mp range.2) (by decide)

theorem underscore_not_upper : table.isUppercase '_' = false :=
  table.ascii '_' (by decide)

/-- A flag word passes the test of the loop exactly when it has no underscore. -/
theorem allUppercase_flag_iff {f : Str} (flag : FlagWord f) :
    allUppercase table.isUppercase f ↔ '_' ∉ f := by
  rw [allUppercase, List.all_eq_true]
  constructor
  · intro upper mem
    exact absurd (upper '_' mem) (by simp [underscore_not_upper])
  · intro plain c mem
    rcases flag.1 c mem with upper | rfl
    · rw [table.ascii c (ascii_of_isUpper upper), upper]
    · exact absurd mem plain

theorem flag_solid {f : Str} (flag : FlagWord f) : ' ' ∉ f := by
  intro mem
  rcases flag.1 ' ' mem with upper | same
  · exact absurd upper (by decide)
  · exact absurd same (by decide)

/-- A word with a lower-case letter ends the run. -/
theorem not_allUppercase {w : Str} (lower : ∃ c ∈ w, table.isLowercase c = true) :
    ¬ allUppercase table.isUppercase w := by
  obtain ⟨c, mem, lower⟩ := lower
  rw [allUppercase, List.all_eq_true]
  intro upper
  exact absurd (upper c mem) (by simp [table.disjoint c lower])

theorem printed_fromStr {version : Str} {flags : List Str} {date : Str}
    (printed : Printed table version flags date) :
    BuildInfo.fromStr table.isUppercase (buildText version flags date) = .ok
      { version
        flags := (flagRun table.isUppercase (flags ++ date.splitOn ' ')).toFinset
        extra := rejoined (remaining table.isUppercase (flags ++ date.splitOn ' ')) } := by
  have solid : ' ' ∉ '#' :: version := by simpa using printed.solid
  rw [buildText, fromStr_eq _ (splitOn_spaced solid
    (fun f mem => flag_solid (printed.flagWords f mem)) date)]
  rfl

/-- Flags and date are kept apart exactly when no flag has an underscore. -/
theorem flagsKept_iff {version : Str} {flags : List Str} {date : Str}
    (printed : Printed table version flags date) :
    FlagsKept table version flags date ↔ ∀ f ∈ flags, '_' ∉ f := by
  rw [FlagsKept, printed_fromStr printed]
  simp only [Except.ok.injEq, exists_eq_left']
  constructor
  · rintro ⟨kept, -⟩ f mem
    have run : f ∈ flagRun table.isUppercase (flags ++ date.splitOn ' ') := by
      rw [← List.mem_toFinset, kept, List.mem_toFinset]
      exact mem
    exact (allUppercase_flag_iff (printed.flagWords f mem)).mp (List.mem_takeWhile_imp run)
  · intro plain
    have upper : ∀ f ∈ flags, allUppercase table.isUppercase f :=
      fun f mem => (allUppercase_flag_iff (printed.flagWords f mem)).mpr (plain f mem)
    have stops := not_allUppercase printed.lower
    have many := printed.manyWords
    rw [flagRun, remaining, List.takeWhile_append_of_pos upper,
      List.dropWhile_append_of_pos upper]
    rw [splitOn_eq] at many ⊢
    rw [List.takeWhile_cons_of_neg stops, List.dropWhile_cons_of_neg stops, List.append_nil,
      (rejoined_eq_iff _).mpr (by omega), ← splitOn_eq, List.intercalate_splitOn]
    exact ⟨rfl, rfl⟩

/-- The case tables on ASCII texts. -/
def asciiCase : CharCase where
  isUppercase := Char.isUpper
  isLowercase := Char.isLower
  ascii _ _ := rfl
  disjoint c lower := by
    have order : ¬ 'a'.val ≤ 'Z'.val := by decide
    have above : 'a'.val ≤ c.val := of_decide_eq_true (Bool.and_eq_true_iff.mp lower).1
    refine decide_eq_false ?_
    rintro ⟨-, below⟩
    exact order (UInt32.le_trans above below)

theorem flagsKept_smp : FlagsKept asciiCase "1" ["SMP".toList, "PREEMPT".toList] "Tue Apr 2" :=
  (flagsKept_iff ⟨by decide, by decide, by decide, 'u', by decide, rfl⟩).mpr (by decide)

/-- With a flag of newer kernels, the flag ends up in the date. -/
theorem flagsKept_preempt_dynamic :
    Printed asciiCase "1" ["SMP".toList, "PREEMPT_DYNAMIC".toList] "Tue Apr 2" ∧
      ¬ FlagsKept asciiCase "1" ["SMP".toList, "PREEMPT_DYNAMIC".toList] "Tue Apr 2" := by
  refine ⟨⟨by decide, by decide, by decide, 'u', by decide, rfl⟩, ?_⟩
  rintro ⟨info, parsed, -, extra⟩
  have found : BuildInfo.fromStr asciiCase.isUppercase
      (buildText "1" ["SMP".toList, "PREEMPT_DYNAMIC".toList] "Tue Apr 2") =
        .ok ⟨"1".toList, {"SMP".toList}, "PREEMPT_DYNAMIC Tue Apr 2".toList⟩ := by decide
  rw [found] at parsed
  cases parsed
  revert extra
  decide

end Flags

end KernelBuild
