import AsyncProcfs.ProcessFiles
import AsyncProcfs.Results
import AsyncProcfs.Tasks

/-!
# The children of a task

`children` holds process numbers between white space. The reader parses every
token as a `u32` and gives all of them, or an error when one of them fails.
-/

namespace TaskChildren

open ProgramRuns Results Words Text IntText Procfs Processes Tasks ProcessFiles

section Functions

variable {ε : Type} [ProcError ε]

/-- The parse of one token. -/
def parseChild (child : Str) : Except ε UInt32 :=
  (parse UInt32 child).mapError fun _ => ProcError.other "Failed to parse task's child PIDs"

def children (self : Task) : Io ε (List UInt32) := do
  let file ← propagate (wrapIoError (joinPath self.path "children")
    (← sys (.openAt self.fd "children" { read := true })))
  let buf ← propagate (← readToString file)
  ofOutcome ((splitWhitespace buf).mapM parseChild)

end Functions

section Reading

variable (ε : Type) [ProcError ε]

/-- What a result says of the file's text: the numbers of all its tokens, or an error. -/
structure Parsed (body : Str) (result : Except ε (List UInt32)) : Prop where
  value : ∀ ns, result = .ok ns ↔
    List.Forall₂ (fun token n => NumberText token n.toNat) (splitWhitespace body) ns
  succeeds : (∃ ns, result = .ok ns) ↔
    ∀ token ∈ splitWhitespace body, ∃ n < 2 ^ 32, NumberText token n
  fails : (∃ e, result = .error e) ↔
    ∃ token ∈ splitWhitespace body, ∀ n < 2 ^ 32, ¬ NumberText token n

theorem parseChild_eq_ok_iff (token : Str) (n : UInt32) :
    (parseChild token : Except ε UInt32) = .ok n ↔ NumberText token n.toNat := by
  rw [parseChild, mapError_eq_ok_iff]
  exact parse_eq_ok_iff_numberText rfl rfl token

theorem exists_parseChild_iff (token : Str) :
    (∃ n, (parseChild token : Except ε UInt32) = .ok n) ↔ ∃ n < 2 ^ 32, NumberText token n := by
  simp only [parseChild, mapError_eq_ok_iff]
  exact exists_parse_iff rfl rfl token

theorem parsed (body : Str) :
    Parsed ε body ((splitWhitespace body).mapM (parseChild : Str → Except ε UInt32)) := by
  have succeeds : (∃ ns, (splitWhitespace body).mapM (parseChild : Str → Except ε UInt32) = .ok ns) ↔
      ∀ token ∈ splitWhitespace body, ∃ n < 2 ^ 32, NumberText token n := by
    rw [exists_mapM_iff]
    simp only [exists_parseChild_iff]
  refine ⟨fun ns => ?_, succeeds, ?_⟩
  · simp only [mapM_eq_ok_iff, parseChild_eq_ok_iff]
  · rw [exists_error_iff, succeeds]
    simp only [not_forall, not_exists, not_and, exists_prop]

variable {ε} {σ : Type} {S : System σ} {self : Task} {w : World σ} {file : File} {e₁ e₂ : σ}
  {body : Str}

theorem exec_children
    (opened : S (.openAt self.fd "children" { read := true }) w.env = (.ok file, e₁))
    (holds : S (.readToEnd file) e₁ = (.ok (encodeUtf8 body), e₂)) :
    exec (handle S) (children self : Io ε (List UInt32)) w =
      ((splitWhitespace body).mapM parseChild, ⟨w.kernel, e₂⟩) := by
  have read_file : run (handle S) (readToString file) ⟨w.kernel, e₁⟩ =
      (.ok body, ⟨w.kernel, e₂⟩) := by
    rw [run_readToString, holds, textOf_encodeUtf8]
  rw [children, exec_wrapped_ok (run_sys_eq opened), exec_propagated_ok read_file,
    exec_ofOutcome]

/-- The children are the numbers of all tokens of the file, and printed numbers come back
under any white space. -/
theorem children_exact
    (opened : S (.openAt self.fd "children" { read := true }) w.env = (.ok file, e₁))
    (holds : S (.readToEnd file) e₁ = (.ok (encodeUtf8 body), e₂)) :
    Parsed ε body (exec (handle S) (children self) w).1 ∧
      ∀ (ns : List UInt32) (before rest : Str), (∀ c ∈ before, isWhitespace c = true) →
        Spelled isWhitespace (ns.map display) rest → body = before ++ rest →
        (exec (handle S) (children self : Io ε (List UInt32)) w).1 = .ok ns := by
  rw [exec_children opened holds]
  refine ⟨parsed ε body, ?_⟩
  rintro ns before rest blank spelled rfl
  have tokens : splitWhitespace (before ++ rest) = ns.map display := by
    rw [splitWhitespace, words_blanks_append blank]
    exact words_display (fun _ white => white) spelled
  rw [tokens, mapM_eq_ok_iff, List.forall₂_map_left_iff, List.forall₂_same]
  intro n _
  rw [parseChild, parse_display]
  rfl

end Reading

section TwoChildren

/-- The main thread of process 27. -/
def mainThread : Task where
  fd := ⟨"/proc/27/task/27"⟩
  pid := 27
  tid := 27
  path := "/proc/27/task/27"
  procfs := slashProc

theorem children_exact_tabs :
    (exec (handle (fixed (serving (encodeUtf8 "\n30\t4294967295 ".toList))))
      (children mainThread : Io CoreError (List UInt32)) ⟨0, ()⟩).1 = .ok [30, 4294967295] := by
  have spelled : Spelled isWhitespace ([(30 : UInt32), 4294967295].map display)
      ("30".toList ++ ['\t'] ++ ("4294967295".toList ++ [' '] ++ [])) :=
    .cons (List.all_eq_true.mp rfl) (fun _ => List.cons_ne_nil _ _)
      (.cons (List.all_eq_true.mp rfl) (fun more => absurd rfl more) .nil)
  exact (children_exact rfl rfl).2 [30, 4294967295] ['\n'] _ (List.all_eq_true.mp rfl) spelled rfl

end TwoChildren

end TaskChildren
