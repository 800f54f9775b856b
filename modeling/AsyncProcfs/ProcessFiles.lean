import AsyncProcfs.Processes

/-!
# The files of one process

`cmdline` holds the arguments with a NUL behind each. The reader splits at the
NULs and drops every empty piece, the one after the last NUL and an argument
that is empty alike.
-/

namespace ProcessFiles

open ProgramRuns Words Text Procfs Processes

section Functions

variable {ε : Type} [ProcError ε] (self : Process)

def cmdline : Io ε (List Str) := do
  let file ← propagate (wrapIoError (joinPath self.path "cmdline")
    (← sys (.openAt self.fd "cmdline" { read := true })))
  let buf ← propagate (wrapIoError (joinPath self.path "cmdline") (← readToString file))
  return (buf.splitOn '\x00').filterMap fun s => if ¬ s.isEmpty then some s else none

end Functions

section CommandLine

/-- The kernel's text of an argument list: one NUL behind each argument. -/
def terminated (args : List Str) : Str := args.flatMap (· ++ ['\x00'])

theorem splitOn_terminated {args : List Str} (clean : ∀ a ∈ args, '\x00' ∉ a) :
    (terminated args).splitOn '\x00' = args ++ [[]] :=
  splitOn_closed clean

/-- What the reader keeps of a list of pieces. -/
theorem filterMap_nonempty (pieces : List Str) :
    pieces.filterMap (fun s => if ¬ s.isEmpty then some s else none) =
      pieces.filter fun s => !s.isEmpty := by
  rw [← List.filterMap_eq_filter]
  congr 1
  funext s
  simp [Option.guard]

variable {ε : Type} [ProcError ε] {σ : Type} {S : System σ} {self : Process} {args : List Str}
  {w : World σ} {file : File} {e₁ e₂ : σ}

/-- The reader returns the arguments that are not empty. -/
theorem exec_cmdline (clean : ∀ a ∈ args, '\x00' ∉ a)
    (opened : S (.openAt self.fd "cmdline" { read := true }) w.env = (.ok file, e₁))
    (holds : S (.readToEnd file) e₁ = (.ok (encodeUtf8 (terminated args)), e₂)) :
    exec (handle S) (cmdline self : Io ε (List Str)) w =
      (.ok (args.filter fun s => !s.isEmpty), ⟨w.kernel, e₂⟩) := by
  have read_file : run (handle S) (readToString file) ⟨w.kernel, e₁⟩ =
      (.ok (terminated args), ⟨w.kernel, e₂⟩) := by
    rw [run_readToString, holds, textOf_encodeUtf8]
  rw [cmdline, exec_wrapped_ok (run_sys_eq opened), exec_wrapped_ok read_file, exec_pure,
    splitOn_terminated clean, filterMap_nonempty, List.filter_append]
  simp

/-- Reading the command line gives the argument list back exactly when no argument is empty. -/
theorem cmdline_terminated_iff (clean : ∀ a ∈ args, '\x00' ∉ a)
    (opened : S (.openAt self.fd "cmdline" { read := true }) w.env = (.ok file, e₁))
    (holds : S (.readToEnd file) e₁ = (.ok (encodeUtf8 (terminated args)), e₂)) :
    (exec (handle S) (cmdline self : Io ε (List Str)) w).1 = .ok args ↔ [] ∉ args := by
  rw [exec_cmdline clean opened holds, Except.ok.injEq, List.filter_eq_self]
  constructor
  · intro kept mem
    exact absurd (kept [] mem) (by simp)
  · intro nonempty a mem
    cases a with
    | nil => exact absurd mem nonempty
    | cons c rest => rfl

end CommandLine

section OneProcess

/-- A kernel that serves the same bytes in every file. -/
def serving (bytes : Bytes) : (op : SysOp) → op.Res
  | .readToEnd _ => .ok bytes
  | op => bare op

theorem cmdline_terminated_iff_listing :
    (exec (handle (fixed (serving (encodeUtf8 (terminated ["ls".toList, "-l".toList])))))
      (cmdline twentySeven : Io CoreError (List Str)) ⟨0, ()⟩).1 = .ok ["ls".toList, "-l".toList] :=
  (cmdline_terminated_iff (by decide) rfl rfl).mpr (by decide)

/-- A search for the empty text loses its pattern. -/
theorem cmdline_loses_empty :
    ¬ ∀ args : List Str, (∀ a ∈ args, '\x00' ∉ a) →
      (exec (handle (fixed (serving (encodeUtf8 (terminated args)))))
        (cmdline twentySeven : Io CoreError (List Str)) ⟨0, ()⟩).1 = .ok args := by
  intro claim
  have read := claim ["grep".toList, [], "notes".toList] (by decide)
  revert read
  decide

end OneProcess

end ProcessFiles
