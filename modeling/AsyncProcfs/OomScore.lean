import AsyncProcfs.Descriptors
import AsyncProcfs.OrdinaryFiles

/-!
# Adjusting the OOM score

`set_oom_score_adj` opens the file for writing without truncating it, so in a
tree of ordinary files the new number replaces only as many bytes as it has.
What is left of the old content is then read as a part of the new number.
-/

namespace OomScore

open ProgramRuns Text IntText Procfs OrdinaryFiles Processes Descriptors

section Functions

variable {ε : Type} [ProcError ε] (self : Process)

def oomScoreAdj : Io ε Int16 := do
  let file ← propagate (wrapIoError (joinPath self.path "oom_score_adj")
    (← sys (.openAt self.fd "oom_score_adj" { read := true })))
  let oom ← propagate (← readToString file)
  expect (parse Int16 (trim oom)).toOption

def setOomScoreAdj (newOomScoreAdj : Int16) : Io ε Unit := do
  let file ← propagate (wrapIoError (joinPath self.path "oom_score_adj")
    (← sys (.openAt self.fd "oom_score_adj" { write := true })))
  AsyncProcfs.writeValueTo file newOomScoreAdj

end Functions

section Calls

variable {ε : Type} [ProcError ε] (c : Conditions) (self : Process) (w : World Files)

/-- Where the file is in the tree. -/
def oomFile (self : Process) : File := ⟨joinPath self.fd.label "oom_score_adj"⟩

/-- What a content means to `oom_score_adj`. -/
def scoreIn (content : Bytes) : Except ε Int16 :=
  match decodeUtf8 content with
  | none => .error (ProcError.fromIo (.os .invalidData))
  | some oom => match parse Int16 (trim oom) with
    | .ok score => .ok score
    | .error _ => .error ProcError.internalError

theorem scoreIn_padded (file : File) (content : Bytes) :
    (scoreIn (c.padded file content) : Except ε Int16) = scoreIn content := by
  rw [scoreIn, scoreIn, Conditions.padded, decodeUtf8_padded]
  cases decodeUtf8 content with
  | none => rfl
  | some s =>
    rw [Option.map_some]
    dsimp only
    rw [trim_padded s (c.blankBefore file) (c.blankAfter file)]

theorem exec_oomScoreAdj {content : Bytes} (opens : c.openError (oomFile self) reading = none)
    (reads : c.readError (oomFile self) = none) (present : w.env (oomFile self) = some content) :
    (exec (handle (files c)) (oomScoreAdj self : Io ε Int16) w).1 = scoreIn content := by
  have opened : run (handle (files c)) (sys (.openAt self.fd "oom_score_adj" reading)) w =
      (.ok (oomFile self), w) := run_openAt_present c self.fd "oom_score_adj" w opens present rfl
  have read := run_readToString_present c w reads present
  rw [oomScoreAdj, exec_wrapped_ok opened, ← scoreIn_padded c (oomFile self)]
  simp only [exec_bind, exec_lift, read, textOf, scoreIn, propagate, exec_ofOutcome]
  cases decodeUtf8 (c.padded (oomFile self) content) with
  | none => rfl
  | some oom =>
    simp only [Except.mapError]
    cases parse Int16 (trim oom) with
    | ok score => rfl
    | error e => rfl

theorem exec_setOomScoreAdj {old : Bytes} (v : Int16)
    (present : w.env (oomFile self) = some old) :
    exec (handle (files c)) (setOomScoreAdj self v : Io ε Unit) w =
      match c.openError (oomFile self) { write := true }, c.writeError (oomFile self) with
      | some e, _ =>
        (.error (ProcError.fromIo (.wrapped e.kind (joinPath self.path "oom_score_adj") e)), w)
      | none, some (n, e) =>
        (.error (ProcError.fromIo e),
          { w with
            env := Function.update w.env (oomFile self)
              (some (overwrite old ((encodeUtf8 (display v)).take n))) })
      | none, none =>
        (.ok (),
          { w with
            env := Function.update w.env (oomFile self)
              (some (overwrite old (encodeUtf8 (display v)))) }) := by
  cases fails : c.openError (oomFile self) { write := true } with
  | some e =>
    have refused := run_openAt_refused c self.fd "oom_score_adj" w fails
    rw [setOomScoreAdj, exec_wrapped_error refused]
  | none =>
    have opened : run (handle (files c))
        (sys (.openAt self.fd "oom_score_adj" { write := true })) w = (.ok (oomFile self), w) :=
      run_openAt_present c self.fd "oom_score_adj" w fails present rfl
    rw [setOomScoreAdj, exec_wrapped_ok opened, AsyncProcfs.writeValueTo, exec_bind, exec_lift,
      run_sys]
    simp only [files, present, Option.getD_some]
    cases c.writeError (oomFile self) with
    | some failure => rfl
    | none => rfl

end Calls

section ReadBack

/-- What is left of the old content behind the new text does not change the number: it is
white space, or the number is zero and zeros come first. -/
def Covered (old : Bytes) (v : Int16) : Prop :=
  ∃ zeros blanks, decodeUtf8 (old.drop (encodeUtf8 (display v)).length) = some (zeros ++ blanks) ∧
    (∀ c ∈ blanks, isWhitespace c = true) ∧ (zeros = [] ∨ v = 0 ∧ ∀ c ∈ zeros, c = '0')

theorem parse_trim_iff (v : Int16) (rest : Str) :
    parse Int16 (trim (display v ++ rest)) = .ok v ↔ ∃ zeros blanks, rest = zeros ++ blanks ∧
      (∀ c ∈ blanks, isWhitespace c = true) ∧ (zeros = [] ∨ v = 0 ∧ ∀ c ∈ zeros, c = '0') := by
  have zero : MachineInt.toInt v = 0 ↔ v = 0 := by
    rw [← Int16.toInt_inj]
    rfl
  rw [trim_solid_append (display_ne_nil v) (display_solid v), parse_display_append_iff, zero]
  constructor
  · intro kept
    refine ⟨rest.rdropWhile isWhitespace, rest.rtakeWhile isWhitespace,
      List.rdropWhile_append_rtakeWhile.symm, fun c mem => List.mem_rtakeWhile_imp mem, kept⟩
  · rintro ⟨zeros, blanks, rfl, blank, kept⟩
    have solid : zeros.rdropWhile isWhitespace = zeros := by
      rw [List.rdropWhile_eq_self_iff]
      intro nonempty
      rcases kept with empty | ⟨-, zeros_only⟩
      · exact absurd empty nonempty
      · rw [zeros_only _ (List.getLast_mem nonempty)]
        decide
    rw [rdropWhile_append_of_pos blank, solid]
    exact kept

variable {ε : Type} [ProcError ε]

theorem scoreIn_overwrite_iff (old : Bytes) (v : Int16) :
    (scoreIn (overwrite old (encodeUtf8 (display v))) : Except ε Int16) = .ok v ↔
      Covered old v := by
  rw [scoreIn, overwrite, decodeUtf8_append_left, Covered]
  cases decodeUtf8 (old.drop (encodeUtf8 (display v)).length) with
  | none =>
    constructor
    · intro ok
      cases ok
    · rintro ⟨zeros, blanks, whole, -⟩
      cases whole
  | some rest =>
    simp only [Option.map_some, Option.some.injEq]
    rw [← parse_trim_iff]
    cases parse Int16 (trim (display v ++ rest)) with
    | error e =>
      constructor
      · intro ok
        cases ok
      · intro ok
        cases ok
    | ok score => simp

/-- After a successful write the read gives the value written. -/
def ReadsBack (c c' : Conditions) (write : Io ε Unit) (read : Io ε Int16) (v : Int16)
    (w : World Files) : Prop :=
  (exec (handle (files c)) write w).1 = .ok () →
    (exec (handle (files c')) read (exec (handle (files c)) write w).2).1 = .ok v

variable (ε) in
/-- The value is read back by either route: through the handle, or replacing the file. -/
structure RoutesAgree (c c' : Conditions) (process : Process) (v : Int16) (w : World Files) :
    Prop where
  through : ReadsBack c c' (setOomScoreAdj process v : Io ε Unit) (oomScoreAdj process) v w
  replacing : ∀ path, fileAt process.procfs path = oomFile process →
    ReadsBack c c' (process.procfs.writeValue path v : Io ε Unit) (oomScoreAdj process) v w ∧
      ReadsBack c c' (process.procfs.writeValue path v : Io ε Unit)
        (process.procfs.readInt Int16 path) v w

variable {c c' : Conditions} {self : Process} {v : Int16} {w : World Files} {old : Bytes}

theorem setOomScoreAdj_content (present : w.env (oomFile self) = some old)
    (succeeds : (exec (handle (files c)) (setOomScoreAdj self v : Io ε Unit) w).1 = .ok ()) :
    (exec (handle (files c)) (setOomScoreAdj self v : Io ε Unit) w).2.env (oomFile self) =
      some (overwrite old (encodeUtf8 (display v))) := by
  rw [exec_setOomScoreAdj c self w v present] at *
  split at succeeds
  · cases succeeds
  · cases succeeds
  · exact Function.update_self _ _ _

/-- Replacing the file always reads back. -/
theorem replacing_readsBack {path : Path} (same : fileAt self.procfs path = oomFile self)
    (opens : c'.openError (oomFile self) reading = none)
    (reads : c'.readError (oomFile self) = none) :
    ReadsBack c c' (self.procfs.writeValue path v : Io ε Unit) (oomScoreAdj self) v w ∧
      ReadsBack c c' (self.procfs.writeValue path v : Io ε Unit)
        (self.procfs.readInt Int16 path) v w := by
  constructor
  · intro succeeds
    have present := writeValue_content c self.procfs path w succeeds
    rw [same] at present
    rw [exec_oomScoreAdj c' self _ opens reads present, scoreIn, decodeUtf8_encodeUtf8]
    dsimp only
    rw [trim_solid (display_solid v), parse_display]
  · intro succeeds
    have present := writeValue_content c self.procfs path w succeeds
    rw [← same] at opens reads
    rw [AsyncProcfs.readInt, exec_readValue c' _ _ _ _ _ opens reads present,
      valueIn_encodeUtf8 _ _ _ (display_solid v), parse_display]
    rfl

/-- The routes agree exactly when the rest of the old content does not change the number. -/
theorem routesAgree_iff (present : w.env (oomFile self) = some old)
    (succeeds : (exec (handle (files c)) (setOomScoreAdj self v : Io ε Unit) w).1 = .ok ())
    (opens : c'.openError (oomFile self) reading = none)
    (reads : c'.readError (oomFile self) = none) :
    RoutesAgree ε c c' self v w ↔ Covered old v := by
  have content := setOomScoreAdj_content present succeeds
  have read := @exec_oomScoreAdj ε _ c' self
    (exec (handle (files c)) (setOomScoreAdj self v : Io ε Unit) w).2 _ opens reads content
  rw [← @scoreIn_overwrite_iff ε, ← read]
  constructor
  · intro agree
    exact agree.through succeeds
  · intro back
    exact ⟨fun _ => back, fun path same => replacing_readsBack same opens reads⟩

end ReadBack

section OneTree

/-- A tree where the score of process 27 has four digits. -/
def adjusted : World Files where
  kernel := 0
  env file := if file = ⟨"/proc/27/oom_score_adj"⟩ then some (encodeUtf8 "1000\n") else none

theorem routesAgree_iff_hundred :
    RoutesAgree CoreError .calm .calm twentySeven (-500) adjusted :=
  (@routesAgree_iff CoreError _ .calm .calm twentySeven (-500) adjusted
    (encodeUtf8 "1000\n") rfl (by decide) rfl rfl).mpr
      ⟨[], ['\n'], by decide, List.all_eq_true.mp rfl, Or.inl rfl⟩

/-- Writing 5 over 1000 leaves three digits behind, and 5000 is read. -/
theorem setOomScoreAdj_leaves_digits :
    ¬ ∀ (v : Int16) (w : World Files), w.env (oomFile twentySeven) ≠ none →
      RoutesAgree CoreError .calm .calm twentySeven v w := by
  intro claim
  have back := (claim 5 adjusted (by decide)).through (by decide)
  revert back
  decide

end OneTree

end OomScore
