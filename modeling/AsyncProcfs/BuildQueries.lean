import AsyncProcfs.KernelBuild
import AsyncProcfs.OrdinaryFiles
import AsyncProcfs.SysKernel

/-!
# What is known of a build

The build text is read from its file and asked for three flags. The parser sees
the flags up to the first one with an underscore; the others go in front of the
date. A query is true exactly when its word is among the flags that are seen.
-/

namespace BuildQueries

open ProgramRuns Text Procfs OrdinaryFiles KernelBuild SysKernel

/-- The flags in front of the first one with an underscore. -/
def seen (flags : List Str) : List Str := flags.takeWhile fun f => '_' ∉ f

/-- The other flags. -/
def unseen (flags : List Str) : List Str := flags.dropWhile fun f => '_' ∉ f

section Words

variable {table : CharCase} {version : Str} {flags : List Str} {date : Str}

/-- The run of upper-case words is the flags that are seen. -/
theorem run_flags {words : List Str} (flagWords : ∀ f ∈ flags, FlagWord f)
    (stops : ∀ w, words.head? = some w → ¬ allUppercase table.isUppercase w) :
    flagRun table.isUppercase (flags ++ words) = seen flags ∧
      remaining table.isUppercase (flags ++ words) = unseen flags ++ words := by
  induction flags with
  | nil =>
    cases words with
    | nil => exact ⟨rfl, rfl⟩
    | cons w rest =>
      have stops := stops w rfl
      exact ⟨List.takeWhile_cons_of_neg stops, List.dropWhile_cons_of_neg stops⟩
  | cons f flags ih =>
    obtain ⟨flag, flagWords⟩ := List.forall_mem_cons.mp flagWords
    have upper := @allUppercase_flag_iff table f flag
    have ih := ih flagWords
    simp only [flagRun, remaining, seen, unseen] at ih ⊢
    by_cases plain : '_' ∉ f
    · rw [List.cons_append, List.takeWhile_cons_of_pos (upper.mpr plain),
        List.dropWhile_cons_of_pos (upper.mpr plain), List.takeWhile_cons_of_pos (by simpa using plain),
        List.dropWhile_cons_of_pos (by simpa using plain)]
      exact ⟨congrArg (f :: ·) ih.1, ih.2⟩
    · have stopped : ¬ allUppercase table.isUppercase f := fun all => plain (upper.mp all)
      rw [List.cons_append, List.takeWhile_cons_of_neg stopped, List.dropWhile_cons_of_neg stopped,
        List.takeWhile_cons_of_neg (by simpa using plain), List.dropWhile_cons_of_neg (by simpa using plain)]
      exact ⟨rfl, rfl⟩

/-- Words in front of a text, joined with the words of the text. -/
theorem intercalate_front (front : List Str) (text : Str) :
    [' '].intercalate (front ++ text.splitOn ' ') = (front.flatMap fun f => f ++ [' ']) ++ text := by
  induction front with
  | nil => exact List.intercalate_splitOn ' '
  | cons f front ih =>
    have more : front ++ text.splitOn ' ' ≠ [] :=
      List.append_ne_nil_of_right_ne_nil _ (List.splitOn_ne_nil ' ' text)
    rw [List.cons_append, List.intercalate_cons_of_ne_nil more, ih]
    simp

/-- What the parser makes of a build text, exactly. -/
theorem printed_exact (printed : Printed table version flags date) :
    BuildInfo.fromStr table.isUppercase (buildText version flags date) = .ok
      { version
        flags := (seen flags).toFinset
        extra := ((unseen flags).flatMap fun f => f ++ [' ']) ++ date } := by
  have many := printed.manyWords
  obtain ⟨run, rest⟩ := @run_flags table flags (date.splitOn ' ') printed.flagWords (by
    rw [splitOn_eq]
    rintro w ⟨⟩
    exact not_allUppercase printed.lower)
  have long : (unseen flags ++ date.splitOn ' ').length ≠ 1 := by
    rw [List.length_append]
    omega
  rw [printed_fromStr printed, run, rest, (rejoined_eq_iff _).mpr long, intercalate_front]

end Words

section Reading

variable {ε : Type} [ProcError ε] {c : Conditions} {procfs : AsyncProcfs} {w : World Files}
  {table : CharCase} {version : Str} {flags : List Str} {date : Str}

/-- A client that reads a build text gets its version, the flags that are seen, and the other
flags in front of the date; each query tells whether its word is seen. -/
theorem currentBuildInfo_exact (printed : Printed table version flags date)
    (plain : trim (buildText version flags date) = buildText version flags date)
    (opens : c.openError (fileAt procfs "sys/kernel/version") reading = none)
    (reads : c.readError (fileAt procfs "sys/kernel/version") = none)
    (present : w.env (fileAt procfs "sys/kernel/version") =
      some (encodeUtf8 (buildText version flags date))) :
    ∃ info, exec (handle (files c))
        ((kernel procfs).currentBuildInfo table.isUppercase : Io ε BuildInfo) w = (.ok info, w) ∧
      info.version = version ∧ info.flags = (seen flags).toFinset ∧
      info.extra = ((unseen flags).flatMap fun f => f ++ [' ']) ++ date ∧
      (smp info = true ↔ "SMP".toList ∈ seen flags) ∧
      (preempt info = true ↔ "PREEMPT".toList ∈ seen flags) ∧
      (preemptrt info = true ↔ "PREEMPTRT".toList ∈ seen flags) := by
  refine ⟨⟨version, (seen flags).toFinset, ((unseen flags).flatMap fun f => f ++ [' ']) ++ date⟩, ?_,
    rfl, rfl, rfl, ?_, ?_, ?_⟩
  · rw [show (kernel procfs).currentBuildInfo table.isUppercase =
        procfs.readValue (BuildInfo.fromStr table.isUppercase) ProcError.fromStr _ from rfl,
      exec_readValue c procfs _ w _ _ opens reads present, valueIn, decodeUtf8_encodeUtf8]
    dsimp only
    rw [plain, printed_exact printed]
    rfl
  · rw [smp, decide_eq_true_iff, List.mem_toFinset]
  · rw [preempt, decide_eq_true_iff, List.mem_toFinset]
  · rw [preemptrt, decide_eq_true_iff, List.mem_toFinset]

end Reading

section RealTime

/-- A real-time kernel's tree. -/
def realTime : World Files where
  kernel := 0
  env file := if file = ⟨"/proc/sys/kernel/version"⟩ then
    some (encodeUtf8 (buildText "1" ["SMP".toList, "PREEMPT_RT".toList] "Tue Apr 2")) else none

/-- The real-time flag goes in front of the date. -/
theorem currentBuildInfo_exact_realTime :
    ∃ info, exec (handle (files .calm))
        ((kernel slashProc).currentBuildInfo Char.isUpper : Io CoreError BuildInfo) realTime =
          (.ok info, realTime) ∧
      info.extra = "PREEMPT_RT Tue Apr 2".toList ∧ smp info = true ∧ preemptrt info = false := by
  have printed : Printed asciiCase "1" ["SMP".toList, "PREEMPT_RT".toList] "Tue Apr 2" :=
    ⟨by decide, by decide, by decide, 'u', by decide, rfl⟩
  obtain ⟨info, read, -, -, extra, smp, -, rt⟩ := @currentBuildInfo_exact CoreError _ .calm slashProc
    realTime asciiCase _ _ _ printed (by decide) rfl rfl rfl
  refine ⟨info, read, extra.trans (by decide), smp.mpr (by decide), ?_⟩
  exact Bool.eq_false_iff.mpr fun is => absurd (rt.mp is) (by decide)

end RealTime

end BuildQueries
