import AsyncProcfs.Interleavings
import AsyncProcfs.Sysctl
import AsyncProcfs.TornWrites

/-!
# Writers that race for one file

Replacing a file takes two requests: opening it empties it, and a second one
writes over its first bytes. Other programs may come between the two. Then the
file holds one text laid over another, which need not be a text that anyone wrote.
-/

namespace RacingWriters

open ProgramRuns Interleavings Text IntText Procfs KernelVersion OrdinaryFiles Sysctl

section Overlays

theorem overwrite_nil (text : Bytes) : overwrite [] text = text := by
  simp [overwrite]

theorem overwrite_self (text : Bytes) : overwrite text text = text := by
  simp [overwrite]

/-- A text over one that is not longer replaces it. -/
theorem overwrite_of_length_le {old text : Bytes} (short : old.length ≤ text.length) :
    overwrite old text = text := by
  rw [overwrite, List.drop_of_length_le short, List.append_nil]

end Overlays

section Programs

variable {α : Type} (procfs : AsyncProcfs) (path : Path) (text : Bytes)

/-- What is left of a writer between its two requests. -/
inductive Writing : Async α → Prop
  | write {next : Except IoError Unit → Async α} (rest : ∀ r, Issues Peeking (next r)) :
      Writing (.call (.sys (.writeAll (fileAt procfs path) text)) next)

/-- A writer before its first request for the file: it may look around first, and give up. -/
inductive Pending : Async α → Prop
  | done (a : α) : Pending (.done a)
  | peek {op : Op} {next : op.Res → Async α} (peeking : Peeking op) (rest : ∀ r, Pending (next r)) :
      Pending (.call op next)
  | replace {next : Except IoError File → Async α} (failed : ∀ e, Issues Peeking (next (.error e)))
      (opened : Writing procfs path text (next (.ok (fileAt procfs path)))) :
      Pending (.call (.sys (.openAt procfs.file path writing)) next)

variable {procfs path text} {β : Type}

theorem pending_bind {p : Async β} (first : Issues Peeking p) {f : β → Async α}
    (rest : ∀ b, Pending procfs path text (f b)) : Pending procfs path text (p >>= f) := by
  induction p with
  | done b => exact rest b
  | call op next ih => exact .peek first.1 fun r => ih r (first.2 r)

theorem pending_of_peeking {p : Async α} (peeks : Issues Peeking p) : Pending procfs path text p := by
  induction p with
  | done a => exact .done a
  | call op next ih => exact .peek peeks.1 fun r => ih r (peeks.2 r)

variable {ε : Type} [ProcError ε]

variable (procfs path text) in
/-- The two requests of `write_file`. -/
theorem writeFile_requests (next : Except ε Unit → Async α) :
    (procfs.writeFile path text : Io ε Unit).run >>= next =
      .call (.sys (.openAt procfs.file path writing)) fun
        | .error e => next (.error (ProcError.errorPath (ProcError.fromIo e) (joinPath procfs.root path)))
        | .ok file => .call (.sys (.writeAll file text)) fun r =>
          next (errorPath (joinPath procfs.root path) r) := by
  change Prog.call _ _ = Prog.call _ _
  congr 1
  funext r
  cases r with
  | ok file => rfl
  | error e => rfl

theorem pending_writeFile {next : Except ε Unit → Async α} (rest : ∀ r, Issues Peeking (next r)) :
    Pending procfs path text ((procfs.writeFile path text : Io ε Unit).run >>= next) := by
  rw [writeFile_requests]
  exact .replace (fun e => rest _) (.write fun r => rest _)

theorem pending_setThreadsMax [Platform] (newLimit : UInt32) {next : Except ε Unit → Async α}
    (rest : ∀ r, Issues Peeking (next r)) :
    Pending procfs "sys/kernel/threads-max" (encodeUtf8 (display newLimit))
      ((setThreadsMax procfs newLimit : Io ε Unit).run >>= next) := by
  rw [setThreadsMax, attempt, ExceptT.run_bind_lift, bind_assoc]
  refine pending_bind (issues_cached procfs) fun kernel => ?_
  split
  · exact pending_of_peeking (rest _)
  · exact pending_writeFile rest

end Programs

section Requests

variable {c : Conditions} {procfs : AsyncProcfs} {path : Path} {w w' : World Files}

theorem served_peek {op : Op} (peeking : Peeking op) {r : op.Res}
    (served : serves (handle (files c)) op w r w') :
    w'.env = w.env ∧ op ≠ .sys (.openAt procfs.file path writing) := by
  have still := peeking_still c op peeking w
  rw [serves] at served
  rw [served] at still
  refine ⟨still, ?_⟩
  rintro rfl
  have calm : writing = reading := peeking
  exact absurd calm (by decide)

theorem served_open {r : Except IoError File}
    (served : serves (handle (files c)) (.sys (.openAt procfs.file path writing)) w r w') :
    (∃ e, r = .error e ∧ w'.env = w.env) ∨
      (r = .ok (fileAt procfs path) ∧ w'.env (fileAt procfs path) = some []) := by
  cases opens : c.openError (fileAt procfs path) writing with
  | some e =>
    have refused := run_openAt_refused c procfs.file path w opens
    cases served.symm.trans refused
    exact Or.inl ⟨e, rfl, rfl⟩
  | none =>
    have opened := run_openAt_writing c procfs.file path w opens
    cases served.symm.trans opened
    exact Or.inr ⟨rfl, Function.update_self _ _ _⟩

theorem served_open_ok (opens : c.openError (fileAt procfs path) writing = none) (w : World Files) :
    serves (handle (files c)) (.sys (.openAt procfs.file path writing)) w (.ok (fileAt procfs path))
      { w with env := Function.update w.env (fileAt procfs path) (some []) } :=
  run_openAt_writing c procfs.file path w opens

theorem served_write_ok {file : File} (text : Bytes) (quiet : c.writeError file = none)
    (w : World Files) : serves (handle (files c)) (.sys (.writeAll file text)) w (.ok ())
      { w with env := Function.update w.env file (some (overwrite ((w.env file).getD []) text)) } := by
  simp only [serves, handle, files, quiet]

theorem served_write {file : File} {text : Bytes} (quiet : c.writeError file = none)
    {r : Except IoError Unit}
    (served : serves (handle (files c)) (.sys (.writeAll file text)) w r w') :
    w'.env file = some (overwrite ((w.env file).getD []) text) := by
  simp only [serves, handle, files, quiet] at served
  cases served
  exact Function.update_self _ _ _

end Requests

section Pools

variable {α : Type} {ι : Type} [DecidableEq ι] {procfs : AsyncProcfs} {path : Path}
  {role : ι → Option Bytes}

/-- Where a program is: a writer before, between or after its two requests. -/
inductive Phase where
  | waiting
  | between
  | ended

variable (procfs path) in
def InPhase (text : Option Bytes) : Phase → Async α → Prop
  | .waiting, p => ∃ t, text = some t ∧ Pending procfs path t p
  | .between, p => ∃ t, text = some t ∧ Writing procfs path t p
  | .ended, p => Issues Peeking p

variable (procfs path) in
/-- No program has emptied the file. -/
def Untouched (log : List (Event ι Op.Res)) : Prop :=
  ∀ who file, ⟨who, .sys (.openAt procfs.file path writing), .ok file⟩ ∉ log

variable (procfs path role) in
/-- What the file can hold: its first content, nothing while a writer is between its requests,
or one text. -/
inductive Content (initial : Option Bytes) (phase : ι → Phase) (log : List (Event ι Op.Res)) :
    Option Bytes → Prop
  | untouched (none : ∀ i, phase i ≠ .between) (untouched : Untouched procfs path log) :
      Content initial phase log initial
  | emptied {i : ι} (opened : phase i = .between) : Content initial phase log (some [])
  | text {i : ι} {t : Bytes} (writes : role i = some t) : Content initial phase log (some t)

variable (procfs path role) in
structure Inv (initial : Option Bytes) (phase : ι → Phase) (C : Pool ι Op.Res α (World Files)) :
    Prop where
  phases : ∀ i, InPhase procfs path (role i) (phase i) (C.programs i)
  content : Content procfs path role initial phase C.log (C.shared.env (fileAt procfs path))

/-- A text laid over another is a text again. -/
def Closed (role : ι → Option Bytes) : Prop :=
  ∀ i j t u, i ≠ j → role i = some t → role j = some u → ∃ l, role l = some (overwrite t u)

theorem phases_update {programs : ι → Async α} {phase : ι → Phase}
    (phases : ∀ i, InPhase procfs path (role i) (phase i) (programs i)) {j : ι} {new : Phase}
    {p : Async α} (acts : InPhase procfs path (role j) new p) (i : ι) :
    InPhase procfs path (role i) (Function.update phase j new i)
      (Function.update programs j p i) := by
  by_cases own : i = j
  · subst own
    simpa only [Function.update_self] using acts
  · simpa only [Function.update_of_ne own] using phases i

omit [DecidableEq ι] in
theorem untouched_snoc {log : List (Event ι Op.Res)} (untouched : Untouched procfs path log)
    {e : Event ι Op.Res}
    (other : ∀ who file, e ≠ ⟨who, .sys (.openAt procfs.file path writing), .ok file⟩) :
    Untouched procfs path (log ++ [e]) := by
  intro who file mem
  rcases List.mem_append.mp mem with mem | mem
  · exact untouched who file mem
  · exact other who file (List.mem_singleton.mp mem).symm

theorem between_update {phase : ι → Phase} {j : ι} {old new : Phase} (now : phase j = old)
    (same : old = .between ↔ new = .between) (i : ι) :
    phase i = .between ↔ Function.update phase j new i = .between := by
  by_cases own : i = j
  · subst own
    rwa [Function.update_self, now]
  · rw [Function.update_of_ne own]

omit [DecidableEq ι] in
/-- What a request that leaves the file alone leaves of its content. -/
theorem content_kept {initial now : Option Bytes} {phase phase' : ι → Phase}
    {log : List (Event ι Op.Res)} (content : Content procfs path role initial phase log now)
    (between : ∀ i, phase i = .between ↔ phase' i = .between) {e : Event ι Op.Res}
    (other : ∀ who file, e ≠ ⟨who, .sys (.openAt procfs.file path writing), .ok file⟩) :
    Content procfs path role initial phase' (log ++ [e]) now := by
  cases content with
  | untouched none untouched =>
    exact .untouched (fun i opened => none i ((between i).mpr opened))
      (untouched_snoc untouched other)
  | emptied opened => exact .emptied ((between _).mp opened)
  | text writes => exact .text writes

variable {c : Conditions} {initial : Option Bytes}

/-- What a writer leaves of the content. -/
theorem content_written (closed : Closed role) {now : Option Bytes} {phase : ι → Phase}
    {log log' : List (Event ι Op.Res)} (content : Content procfs path role initial phase log now)
    {j : ι} (between : phase j = .between) {t : Bytes} (writes : role j = some t)
    (phase' : ι → Phase) :
    Content procfs path role initial phase' log' (some (overwrite (now.getD []) t)) := by
  cases content with
  | untouched none untouched => exact absurd between (none j)
  | emptied opened =>
    rw [Option.getD_some, overwrite_nil]
    exact .text writes
  | @text i u writes' =>
    by_cases own : i = j
    · subst own
      rw [Option.getD_some, Option.some.inj (writes'.symm.trans writes), overwrite_self]
      exact .text writes
    · obtain ⟨l, laid⟩ := closed i j u t own writes' writes
      exact .text laid

theorem inv_step (quiet : c.writeError (fileAt procfs path) = none) (closed : Closed role)
    {C D : Pool ι Op.Res α (World Files)}
    (inv : ∃ phase, Inv procfs path role initial phase C)
    (step : Step (serves (handle (files c))) C D) :
    ∃ phase, Inv procfs path role initial phase D := by
  obtain ⟨phase, phases, content⟩ := inv
  obtain ⟨j, op, next, reply, after, ready, served⟩ := step
  have own := phases j
  rw [ready] at own
  -- a request that leaves the file alone moves the program at most past its end
  have kept {old new : Phase} (now : phase j = old) (same : old = .between ↔ new = .between)
      (left : InPhase procfs path (role j) new (next reply)) (unmoved : after.env = C.shared.env)
      (other : ∀ who file, (⟨j, op, reply⟩ : Event ι Op.Res) ≠
        ⟨who, .sys (.openAt procfs.file path writing), .ok file⟩) :
      ∃ phase, Inv procfs path role initial phase
        { programs := Function.update C.programs j (next reply)
          shared := after
          log := C.log ++ [⟨j, op, reply⟩] } := by
    refine ⟨Function.update phase j new, phases_update phases left, ?_⟩
    rw [unmoved]
    exact content_kept content (between_update now same) other
  cases now : phase j with
  | waiting =>
    rw [now] at own
    obtain ⟨t, writes, pending⟩ := own
    cases pending with
    | peek peeking rest =>
      obtain ⟨unmoved, other⟩ := @served_peek c procfs path _ _ _ peeking _ served
      exact kept now Iff.rfl ⟨t, writes, rest reply⟩ unmoved
        fun who file same => other (congrArg Event.op same)
    | replace failed opened =>
      rcases served_open served with ⟨e, rfl, unmoved⟩ | ⟨rfl, empty⟩
      · exact @kept _ .ended now (iff_of_false nofun nofun) (failed e) unmoved
          (by rintro who file ⟨⟩)
      · refine ⟨Function.update phase j .between, phases_update phases ⟨t, writes, opened⟩, ?_⟩
        rw [empty]
        exact .emptied (Function.update_self _ _ _)
  | between =>
    rw [now] at own
    obtain ⟨t, writes, writing⟩ := own
    cases writing with
    | write rest =>
      refine ⟨Function.update phase j .ended, phases_update phases (rest reply), ?_⟩
      rw [served_write quiet served]
      exact content_written closed content now writes _
  | ended =>
    rw [now] at own
    obtain ⟨unmoved, other⟩ := @served_peek c procfs path _ _ _ own.1 _ served
    exact kept now Iff.rfl (own.2 reply) unmoved fun who file same => other (congrArg Event.op same)

variable {A B : Pool ι Op.Res α (World Files)}

/-- No program is between its two requests. -/
def Settled (procfs : AsyncProcfs) (path : Path) (B : Pool ι Op.Res α (World Files)) : Prop :=
  ∀ i t, ¬ Writing procfs path t (B.programs i)

/-- Every reachable content is the first one, empty while a writer is between its requests, or
a whole text, when the texts are closed. -/
theorem race_content (quiet : c.writeError (fileAt procfs path) = none) (closed : Closed role)
    (writers : ∀ i t, role i = some t → Pending procfs path t (A.programs i))
    (others : ∀ i, role i = none → Issues Peeking (A.programs i)) (fresh : A.log = [])
    (reach : Reachable (serves (handle (files c))) A B) :
    ∃ phase, Inv procfs path role (A.shared.env (fileAt procfs path)) phase B := by
  refine reachable_invariant _ ?_ (fun C D inv step => inv_step quiet closed inv step) reach
  refine ⟨fun i => if (role i).isSome then .waiting else .ended, fun i => ?_, .untouched ?_ ?_⟩
  · cases writes : role i with
    | some t => exact ⟨t, rfl, writers i t writes⟩
    | none => exact others i writes
  · intro i between
    revert between
    split <;> nofun
  · rw [fresh]
    exact fun who file => List.not_mem_nil

omit [DecidableEq ι] in
theorem not_writing_of_peeking {p : Async α} (peeks : Issues Peeking p) (t : Bytes) :
    ¬ Writing procfs path t p := by
  rintro ⟨rest⟩
  exact peeks.1.elim

variable {ε : Type} [ProcError ε]

/-- What is left of `write_file` after its first request. -/
def afterOpen (procfs : AsyncProcfs) (path : Path) (t : Bytes) (next : Except ε Unit → Async α) :
    Async α :=
  .call (.sys (.writeAll (fileAt procfs path) t)) fun r =>
    next (errorPath (joinPath procfs.root path) r)

theorem open_step (opens : c.openError (fileAt procfs path) writing = none) {i : ι} {t : Bytes}
    {next : Except ε Unit → Async α}
    (ready : A.programs i = (procfs.writeFile path t : Io ε Unit).run >>= next) :
    ∃ B, Step (serves (handle (files c))) A B ∧
      B.programs = Function.update A.programs i (afterOpen procfs path t next) ∧
      B.shared.env (fileAt procfs path) = some [] ∧ ¬ Untouched procfs path B.log := by
  rw [writeFile_requests] at ready
  refine ⟨_, .act i _ _ _ _ ready (served_open_ok opens A.shared), rfl, Function.update_self _ _ _, ?_⟩
  intro untouched
  exact untouched i (fileAt procfs path) (by simp)

theorem write_step (quiet : c.writeError (fileAt procfs path) = none) {i : ι} {t : Bytes}
    {next : Except ε Unit → Async α} (ready : A.programs i = afterOpen procfs path t next) :
    ∃ B, Step (serves (handle (files c))) A B ∧
      B.programs = Function.update A.programs i (next (.ok ())) ∧
      B.shared.env (fileAt procfs path) =
        some (overwrite ((A.shared.env (fileAt procfs path)).getD []) t) ∧
      (¬ Untouched procfs path A.log → ¬ Untouched procfs path B.log) := by
  refine ⟨_, .act i _ _ _ _ ready (served_write_ok t quiet A.shared), rfl,
    Function.update_self _ _ _, fun touched untouched => touched fun who file mem => ?_⟩
  exact untouched who file (List.mem_append_left _ mem)

/-- Two writers can both empty the file before either writes. -/
theorem race_overlay (quiet : c.writeError (fileAt procfs path) = none)
    (opens : c.openError (fileAt procfs path) writing = none) {i j : ι} (apart : i ≠ j) {t u : Bytes}
    {next next' : Except ε Unit → Async α}
    (first : A.programs i = (procfs.writeFile path t : Io ε Unit).run >>= next)
    (second : A.programs j = (procfs.writeFile path u : Io ε Unit).run >>= next') :
    ∃ B, Reachable (serves (handle (files c))) A B ∧
      B.shared.env (fileAt procfs path) = some (overwrite t u) ∧
      B.programs = Function.update (Function.update A.programs i (next (.ok ()))) j (next' (.ok ())) ∧
      ¬ Untouched procfs path B.log := by
  obtain ⟨B, one, inB, -, -⟩ := open_step opens first
  obtain ⟨C, two, inC, empty, touched⟩ := @open_step _ _ _ _ _ _ B _ _ opens j u next'
    (by rw [inB, Function.update_of_ne apart.symm, second])
  obtain ⟨D, three, inD, content, touched'⟩ := @write_step _ _ _ _ _ _ C _ _ quiet i t next
    (by rw [inC, inB, Function.update_of_ne apart, Function.update_self])
  obtain ⟨E, four, inE, content', touched''⟩ := @write_step _ _ _ _ _ _ D _ _ quiet j u next'
    (by rw [inD, inC, Function.update_of_ne apart.symm, Function.update_self])
  rw [empty, Option.getD_some, overwrite_nil] at content
  rw [content, Option.getD_some] at content'
  refine ⟨E, (((Relation.ReflTransGen.single one).tail two).tail three).tail four, content', ?_,
    touched'' (touched' touched)⟩
  rw [inE, inD, inC, inB]
  funext l
  by_cases second : l = j
  · subst second
    simp only [Function.update_self]
  · by_cases first : l = i
    · subst first
      simp only [Function.update_self, Function.update_of_ne second]
    · simp only [Function.update_of_ne second, Function.update_of_ne first]

/-- Every writer starts with `write_file` on the path; the others, and what comes after a write,
change no file. -/
def Writers (ε : Type) [ProcError ε] (procfs : AsyncProcfs) (path : Path) (role : ι → Option Bytes)
    (programs : ι → Async α) : Prop :=
  ∀ i, match role i with
  | some t => ∃ next : Except ε Unit → Async α, (∀ r, Issues Peeking (next r)) ∧
      programs i = (procfs.writeFile path t : Io ε Unit).run >>= next
  | none => Issues Peeking (programs i)

/-- The file is as it was at first and no program opened it, or it holds one whole text. -/
def Whole (procfs : AsyncProcfs) (path : Path) (role : ι → Option Bytes) (initial : Option Bytes)
    (B : Pool ι Op.Res α (World Files)) : Prop :=
  (Untouched procfs path B.log ∧ B.shared.env (fileAt procfs path) = initial) ∨
    ∃ i t, role i = some t ∧ B.shared.env (fileAt procfs path) = some t

omit [DecidableEq ι] in
theorem whole_of_inv {phase : ι → Phase} (inv : Inv procfs path role initial phase B)
    (settled : Settled procfs path B) : Whole procfs path role initial B := by
  obtain ⟨phases, content⟩ := inv
  rw [Whole]
  generalize B.shared.env (fileAt procfs path) = now at content ⊢
  cases content with
  | untouched none untouched => exact Or.inl ⟨untouched, rfl⟩
  | @emptied i opened =>
    have writing := phases i
    rw [opened] at writing
    obtain ⟨t, -, writing⟩ := writing
    exact absurd writing (settled i t)
  | text writes => exact Or.inr ⟨_, _, writes, rfl⟩

/-- Writers that race for a file leave it whole in every interleaving exactly when any of their
texts laid over another is again one of their texts. -/
theorem writers_whole_iff (quiet : c.writeError (fileAt procfs path) = none)
    (opens : c.openError (fileAt procfs path) writing = none) (fresh : A.log = [])
    (writers : Writers ε procfs path role A.programs) :
    (∀ B, Reachable (serves (handle (files c))) A B → Settled procfs path B →
      Whole procfs path role (A.shared.env (fileAt procfs path)) B) ↔ Closed role := by
  have starts {i : ι} {t : Bytes} (writes : role i = some t) :
      ∃ next : Except ε Unit → Async α, (∀ r, Issues Peeking (next r)) ∧
        A.programs i = (procfs.writeFile path t : Io ε Unit).run >>= next := by
    have writer := writers i
    rwa [writes] at writer
  have peeks {i : ι} (reads : role i = none) : Issues Peeking (A.programs i) := by
    have other := writers i
    rwa [reads] at other
  constructor
  · intro whole i j t u apart writes writes'
    obtain ⟨next, rest, first⟩ := starts writes
    obtain ⟨next', rest', second⟩ := starts writes'
    obtain ⟨B, reach, content, programs, touched⟩ := race_overlay quiet opens apart first second
    have settled : Settled procfs path B := by
      intro l v
      rw [programs]
      by_cases last : l = j
      · subst last
        rw [Function.update_self]
        exact not_writing_of_peeking (rest' _) v
      · rw [Function.update_of_ne last]
        by_cases acts : l = i
        · subst acts
          rw [Function.update_self]
          exact not_writing_of_peeking (rest _) v
        · rw [Function.update_of_ne acts]
          cases role' : role l with
          | none => exact not_writing_of_peeking (peeks role') v
          | some x =>
            obtain ⟨_, -, start⟩ := starts role'
            rw [start, writeFile_requests]
            nofun
    rcases whole B reach settled with ⟨untouched, -⟩ | ⟨l, v, writes, same⟩
    · exact absurd untouched touched
    · obtain rfl := Option.some.inj (content.symm.trans same)
      exact ⟨l, writes⟩
  · intro closed B reach settled
    have pending : ∀ i t, role i = some t → Pending procfs path t (A.programs i) := by
      intro i t writes
      obtain ⟨next, rest, start⟩ := starts writes
      rw [start]
      exact pending_writeFile rest
    obtain ⟨phase, inv⟩ := race_content quiet closed pending (fun i => peeks) fresh reach
    exact whole_of_inv inv settled

/-- Limits of one length: whoever sets them at the same time, after its version lookup, in every
interleaving the file ends with its first content or with one of the limits. -/
theorem limits_whole [Platform] (quiet : c.writeError (fileAt procfs "sys/kernel/threads-max") = none)
    (fresh : A.log = []) (limits : ι → UInt32)
    (same : ∀ i j, (display (limits i)).length = (display (limits j)).length)
    (next : ι → Except ε Unit → Async α) (rest : ∀ i r, Issues Peeking (next i r))
    (setters : ∀ i, A.programs i = (setThreadsMax procfs (limits i) : Io ε Unit).run >>= next i)
    (reach : Reachable (serves (handle (files c))) A B)
    (settled : Settled procfs "sys/kernel/threads-max" B) :
    B.shared.env (fileAt procfs "sys/kernel/threads-max") =
        A.shared.env (fileAt procfs "sys/kernel/threads-max") ∨
      ∃ i, B.shared.env (fileAt procfs "sys/kernel/threads-max") =
        some (encodeUtf8 (display (limits i))) := by
  let role (i : ι) : Option Bytes := some (encodeUtf8 (display (limits i)))
  have length (i : ι) : (encodeUtf8 (display (limits i))).length = (display (limits i)).length := by
    rw [TornWrites.encodeUtf8_ascii fun c mem => TornWrites.utf8Size_digit
      (digits_display rfl (limits i) c mem), List.length_map]
  have closed : Closed role := by
    rintro i j _ _ - ⟨⟩ ⟨⟩
    refine ⟨j, congrArg some (overwrite_of_length_le (Nat.le_of_eq ?_)).symm⟩
    rw [length, length, same i j]
  have pending : ∀ i t, role i = some t → Pending procfs "sys/kernel/threads-max" t (A.programs i) := by
    rintro i _ ⟨⟩
    rw [setters i]
    exact pending_setThreadsMax (limits i) (rest i)
  obtain ⟨phase, inv⟩ := race_content quiet closed pending nofun fresh reach
  rcases whole_of_inv inv settled with ⟨-, unmoved⟩ | ⟨i, _, ⟨⟩, written⟩
  · exact Or.inl unmoved
  · exact Or.inr ⟨i, written⟩

end Pools

section Limits

/-- Two clients set limits of four digits on a kernel whose version was looked up. -/
def limiters [Platform] : Pool Bool Op.Res (Except CoreError Unit) (World Files) where
  programs five := (setThreadsMax slashProc (if five then 5000 else 6000) : Io CoreError Unit).run >>= pure
  shared := ⟨Version.toU32 ⟨5, 4, 0⟩, fun _ => none⟩
  log := []

/-- Both look the version up, both empty the file, and both write. -/
theorem limits_whole_limiters :
    let B := schedule (handle (files .calm)) [true, false, true, false, true, false]
      (@limiters littleEndian64)
    Reachable (serves (handle (files .calm))) (@limiters littleEndian64) B ∧
      B.programs true = .done (.ok ()) ∧ B.programs false = .done (.ok ()) ∧
      (B.shared.env ⟨"/proc/sys/kernel/threads-max"⟩ = none ∨
        ∃ five : Bool, B.shared.env ⟨"/proc/sys/kernel/threads-max"⟩ =
          some (encodeUtf8 (display (if five then 5000 else 6000 : UInt32)))) := by
  let _ := littleEndian64
  have reach := reachable_schedule (serves_self (handle (files .calm)))
    [true, false, true, false, true, false] limiters
  refine ⟨reach, rfl, rfl, ?_⟩
  refine @limits_whole _ Bool _ slashProc .calm limiters _ CoreError _ _ rfl rfl
    (fun five => if five then 5000 else 6000) (by decide) (fun _ => pure) (fun _ _ => trivial)
    (fun five => rfl) reach fun five t writing => ?_
  cases five with
  | true => exact nomatch writing
  | false => exact nomatch writing

end Limits

section Rivals

/-- Two clients, one with four digits and one with one. -/
def rivals : Pool Bool Op.Res (Except CoreError Unit) (World Files) where
  programs four := (slashProc.writeFile "sys/kernel/shmmax"
    (encodeUtf8 (if four then "4096" else "7")) : Io CoreError Unit).run >>= pure
  shared := ⟨0, fun _ => none⟩
  log := []

def digits (four : Bool) : Option Bytes := some (encodeUtf8 (if four then "4096" else "7"))

/-- Some interleaving leaves a number that neither client wrote. -/
theorem writers_whole_iff_rivals :
    ¬ ∀ B, Reachable (serves (handle (files .calm))) rivals B →
      Settled slashProc "sys/kernel/shmmax" B →
        Whole slashProc "sys/kernel/shmmax" digits none B := by
  have writers : Writers CoreError slashProc "sys/kernel/shmmax" digits rivals.programs :=
    fun four => ⟨pure, fun r => trivial, rfl⟩
  intro whole
  have closed := (@writers_whole_iff _ _ _ _ _ _ .calm rivals CoreError _ rfl rfl rfl writers).mp whole
  obtain ⟨four, same⟩ := closed true false _ _ (by decide) rfl rfl
  cases four with
  | true => exact absurd same (by decide)
  | false => exact absurd same (by decide)

end Rivals

end RacingWriters
