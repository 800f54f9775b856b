import AsyncProcfs.Sessions

/-!
# Calls that depend on the version

Opening a process or a descriptor and setting the thread limit look the version
up first, in the static or in `osrelease`. As long as `osrelease` keeps giving
one version, it makes no difference to any client of an instance whether it was
looked up before, and when another thread stores it.
-/

namespace VersionGates

open ProgramRuns EntryLoops Permissions FileRights Sessions Text Procfs KernelVersion Processes
  Descriptors Tasks Sysctl

section Runs

variable [Platform] {σ : Type}

/-- What the static can hold while every lookup gives `v`. -/
def Held (v : Version) (kernel : UInt32) : Prop := kernel = Version.sentinel ∨ kernel = v.toU32

/-- Another thread may store the version before any answer; `stored` says when. -/
def sharing (S : System σ) (v : Version) (stored : Nat → Bool) :
    Handler Op.Res (World (Nat × σ)) := fun op w =>
  let kernel := if stored w.env.1 then v.toU32 else w.kernel
  let out := handle S op ⟨kernel, w.env.2⟩
  (out.1, ⟨out.2.kernel, w.env.1 + 1, out.2.env⟩)

/-- The kernel keeps giving `v` at the lookup, which does not disturb it. -/
structure Steady (ε : Type) [ProcError ε] (S : System σ) (procfs : AsyncProcfs) (v : Version)
    (Inv : σ → Prop) : Prop where
  kept : ∀ op e, Inv e → Inv (S op e).2
  looks : ∀ kernel e, Inv e →
    exec (handle S) (Version.current procfs : Io ε Version) ⟨kernel, e⟩ = (.ok v, ⟨kernel, e⟩)

/-- A run with the static shared, and a run with the version known from the start. -/
structure Agrees {α : Type} (v : Version) (Inv : σ → Prop) (real : α × World (Nat × σ))
    (known : α × World σ) : Prop where
  result : real.1 = known.1
  env : real.2.env.2 = known.2.env
  held : Held v real.2.kernel
  kept : known.2.kernel = v.toU32
  inv : Inv known.2.env

/-- However the static is shared, the program behaves as with the version known. -/
def Oblivious (S : System σ) (v : Version) (Inv : σ → Prop) {α : Type} (p : Async α) : Prop :=
  ∀ stored n kernel e, Held v kernel → Inv e →
    Agrees v Inv (run (sharing S v stored) p ⟨kernel, n, e⟩) (run (handle S) p ⟨v.toU32, e⟩)

/-- A value the program can give when the version is known. -/
def Gives (S : System σ) (v : Version) (Inv : σ → Prop) {α : Type} (p : Async α) (a : α) : Prop :=
  ∃ e, Inv e ∧ (run (handle S) p ⟨v.toU32, e⟩).1 = a

end Runs

section Rules

variable [Platform] {σ : Type} {S : System σ} {v : Version} {Inv : σ → Prop} {α β : Type}

theorem oblivious_pure (a : α) : Oblivious S v Inv (pure a : Async α) :=
  fun _ _ _ _ held inv => ⟨rfl, rfl, held, rfl, inv⟩

theorem oblivious_bind {p : Async β} {f : β → Async α} (first : Oblivious S v Inv p)
    (rest : ∀ b, Gives S v Inv p b → Oblivious S v Inv (f b)) : Oblivious S v Inv (p >>= f) := by
  intro stored n kernel e held inv
  have agrees := first stored n kernel e held inv
  rw [run_bind, run_bind]
  generalize given : run (handle S) p ⟨v.toU32, e⟩ = known at agrees ⊢
  generalize run (sharing S v stored) p ⟨kernel, n, e⟩ = real at agrees ⊢
  obtain ⟨b, kernel', e'⟩ := known
  obtain ⟨b', kernel'', n', e''⟩ := real
  obtain ⟨rfl, rfl, held', rfl, inv'⟩ := agrees
  exact rest b' ⟨e, inv, congrArg Prod.fst given⟩ stored n' kernel'' e'' held' inv'

variable {ε : Type} {p : Io ε β} {f : β → Io ε α}

theorem oblivious_run_bind (first : Oblivious S v Inv p.run)
    (rest : ∀ b, Gives S v Inv p.run (.ok b) → Oblivious S v Inv (f b).run) :
    Oblivious S v Inv (p >>= f).run := by
  refine oblivious_bind first fun r given => ?_
  cases r with
  | ok b => exact rest b given
  | error e => exact oblivious_pure _

theorem oblivious_lift {p : Async α} (first : Oblivious S v Inv p) :
    Oblivious S v Inv (liftM p : Io ε α).run :=
  oblivious_bind first fun a _ => oblivious_pure (Except.ok a : Except ε α)

variable (kept : ∀ op e, Inv e → Inv (S op e).2)
include kept

/-- A program that leaves the static alone. -/
theorem oblivious_of_toSystem {p : Async α} (issues : Issues ToSystem p) : Oblivious S v Inv p := by
  induction p with
  | done a => exact oblivious_pure a
  | call op next ih =>
    cases op with
    | load => exact issues.1.elim
    | store value => exact issues.1.elim
    | sys op =>
      intro stored n kernel e held inv
      have held' : Held v (if stored n then v.toU32 else kernel) := by
        split
        · exact Or.inr rfl
        · exact held
      exact ih _ (issues.2 _) stored (n + 1) _ _ held' (kept op e inv)

/-- Rights without the static. -/
def quiet : Rights where
  static := False
  writes := True
  reach _ _ := True

omit [Platform] kept in
theorem issues_of_within {P : Rights → α → Prop} {k : Rights} (still : ¬ k.static) {p : Async α}
    (within : Within policy P k p) : Issues ToSystem p := by
  induction p generalizing k with
  | done a => trivial
  | call op next ih =>
    have still' (r : op.Res) : ¬ (grant k op r).static := by
      rwa [(grant_kept k op r).1]
    cases op with
    | load => exact absurd within.1 still
    | store value => exact absurd within.1 still
    | sys op => exact ⟨trivial, fun r => ih r (still' r) (within.2 r)⟩

theorem oblivious_of_obeys {P : Rights → α → Prop} {p : Io ε α} (obeys : Obeys policy P quiet p) :
    Oblivious S v Inv p.run :=
  oblivious_of_toSystem kept (issues_of_within id obeys)

end Rules

section Lookup

variable [Platform] {ε : Type} [ProcError ε] {σ : Type} {S : System σ} {procfs : AsyncProcfs}
  {v : Version} {Inv : σ → Prop}

theorem exec_cached_known (steady : Steady ε S procfs v Inv) {e : σ} (inv : Inv e) :
    exec (handle S) (Version.cached procfs : Io ε Version) ⟨v.toU32, e⟩ = (.ok v, ⟨v.toU32, e⟩) := by
  rw [Version.exec_cached]
  split
  · rw [steady.looks _ e inv]
  · rw [Version.fromU32_toU32]

omit [Platform] in
theorem issues_current : Issues ToSystem (Version.current procfs : Io ε Version).run :=
  issues_mono toSystem_of_reading (issues_readValue procfs _ _ _)

/-- The lookup itself: stored before, stored by another thread meanwhile, or read now. -/
theorem oblivious_cached (steady : Steady ε S procfs v Inv) :
    Oblivious S v Inv (Version.cached procfs : Io ε Version).run := by
  intro stored n kernel e held inv
  have known := exec_cached_known steady inv
  have loaded : exec (sharing S v stored) (liftM load : Io ε UInt32) ⟨kernel, n, e⟩ =
      (.ok (if stored n then v.toU32 else kernel),
        ⟨if stored n then v.toU32 else kernel, n + 1, e⟩) := rfl
  have held' : Held v (if stored n then v.toU32 else kernel) := by
    split
    · exact Or.inr rfl
    · exact held
  generalize (if stored n then v.toU32 else kernel) = found at loaded held'
  have real : ∃ n' kernel', Held v kernel' ∧
      exec (sharing S v stored) (Version.cached procfs : Io ε Version) ⟨kernel, n, e⟩ =
        (.ok v, ⟨kernel', n', e⟩) := by
    rw [Version.cached, exec_bind_ok _ loaded]
    by_cases empty : found = Version.sentinel
    · have looks := oblivious_of_toSystem steady.kept (@issues_current ε _ procfs) stored (n + 1)
        found e held' inv
      rw [show run (handle S) _ _ = _ from steady.looks v.toU32 e inv] at looks
      obtain ⟨kernel', n', read⟩ : ∃ kernel' n', exec (sharing S v stored)
          (Version.current procfs : Io ε Version) ⟨found, n + 1, e⟩ = (.ok v, ⟨kernel', n', e⟩) := by
        change Agrees v Inv (exec (sharing S v stored) (Version.current procfs) _) _ at looks
        generalize exec (sharing S v stored) (Version.current procfs : Io ε Version) _ = real at looks ⊢
        obtain ⟨r, kernel', n', e'⟩ := real
        obtain rfl : r = .ok v := looks.result
        obtain rfl : e' = e := looks.env
        exact ⟨kernel', n', rfl⟩
      have keeps : exec (sharing S v stored) (liftM (store v.toU32) : Io ε Unit) ⟨kernel', n', e⟩ =
          (.ok (), ⟨v.toU32, n' + 1, e⟩) := rfl
      refine ⟨n' + 1, v.toU32, Or.inr rfl, ?_⟩
      rw [if_pos empty, exec_bind_ok _ read, exec_bind_ok _ keeps, exec_pure,
        Version.fromU32_toU32]
    · have same : found = v.toU32 := held'.resolve_left empty
      refine ⟨n + 1, found, held', ?_⟩
      rw [if_neg empty, exec_pure, same, Version.fromU32_toU32]
  obtain ⟨n', kernel', held', real⟩ := real
  change Agrees v Inv (exec _ _ _) (exec _ _ _)
  rw [known, real]
  exact ⟨rfl, rfl, held', rfl, inv⟩

end Lookup

section Calls

variable [Platform] {ε : Type} [ProcError ε] {σ : Type} {S : System σ} {procfs : AsyncProcfs}
  {v : Version} {Inv : σ → Prop} {α : Type} (steady : Steady ε S procfs v Inv)
include steady

/-- What follows a lookup whose error is kept leaves the static alone. -/
theorem oblivious_gate {f : Except ε Version → Io ε α}
    (rest : ∀ kernel, Issues ToSystem (f kernel).run) :
    Oblivious S v Inv (attempt (Version.cached procfs : Io ε Version) >>= f).run := by
  refine oblivious_run_bind (oblivious_lift (oblivious_cached steady)) fun kernel _ => ?_
  exact oblivious_of_toSystem steady.kept (rest kernel)

theorem oblivious_newWithPath (path : Path) :
    Oblivious S v Inv (Process.newWithPath procfs path : Io ε Process).run := by
  refine oblivious_gate steady fun kernel => ?_
  refine issues_run_bind (issues_lift (issues_sys trivial)) fun r => ?_
  refine issues_run_bind (issues_ofOutcome _) fun file => ?_
  have resolves : Issues ToSystem (resolvePid procfs path) := by
    rw [resolvePid]
    split
    · trivial
    · exact issues_bind (issues_sys trivial) fun _ => trivial
  refine issues_run_bind (issues_lift resolves) fun pid => ?_
  cases pid with
  | some pid => trivial
  | none => trivial

theorem oblivious_fromProcessAt {F : Type} [FDTarget F] {self : Process}
    (same : self.procfs = procfs) (fd : Int32) :
    Oblivious S v Inv (FDInfo.fromProcessAt F self fd : Io ε (FDInfo F)).run := by
  subst same
  refine oblivious_gate steady fun kernel => ?_
  have expects {β : Type} (a : Option β) : Issues ToSystem (expect a : Io ε β).run := by
    cases a <;> trivial
  refine issues_run_bind (issues_lift (issues_sys trivial)) fun r => ?_
  refine issues_run_bind (issues_ofOutcome _) fun file => ?_
  refine issues_run_bind (issues_lift (issues_sys trivial)) fun r => ?_
  refine issues_run_bind (issues_ofOutcome _) fun link => ?_
  refine issues_run_bind (issues_lift (issues_sys trivial)) fun r => ?_
  refine issues_run_bind (issues_ofOutcome _) fun metadata => ?_
  exact issues_run_bind (expects _) fun text => issues_run_bind (expects _) fun _ => trivial

theorem oblivious_setThreadsMax (newLimit : UInt32) :
    Oblivious S v Inv (setThreadsMax procfs newLimit : Io ε Unit).run := by
  refine oblivious_gate steady fun kernel => ?_
  split
  · trivial
  · have writes : Obeys policy Plain quiet
        (procfs.writeFile "sys/kernel/threads-max" (encodeUtf8 (IntText.display newLimit)) : Io ε Unit) :=
      obeys_writeFile trivial trivial _
    exact issues_of_within id writes

/-- The loop over the numbered entries of a directory that was opened and listed. -/
theorem oblivious_collected {dir : File} {name path path' : Path} {construct : Int32 → Io ε α}
    (each : ∀ n, Oblivious S v Inv (construct n).run) :
    Oblivious S v Inv ((do
      let dir ← propagate (wrapIoError path
        (← sys (.openAt dir name { read := true, customFlags := [.directory] })))
      let dir ← propagate (wrapIoError path' (← sys (.readDir dir)))
      return forAwait ProcError.fromIo (numbered construct) dir :
        Io ε (Async (List (Except ε α)))) >>= fun stream => liftM stream).run := by
  have body (entry : Bytes) : Oblivious S v Inv (numbered construct entry) := by
    rw [numbered]
    cases IntText.parse Int32 (toStringLossy entry) with
    | error e => exact oblivious_pure _
    | ok n => exact oblivious_bind (each n) fun r _ => oblivious_pure _
  have loop (entries : List (Except IoError Bytes)) : Oblivious S v Inv
      (forAwait (ProcError.fromIo : IoError → ε) (numbered construct) entries) := by
    induction entries with
    | nil => exact oblivious_pure _
    | cons entry rest ih =>
      cases entry with
      | error e => exact oblivious_pure _
      | ok entry =>
        exact oblivious_bind (body entry) fun item _ =>
          oblivious_bind ih fun items _ => oblivious_pure _
  have asks (op : SysOp) : Oblivious S v Inv (liftM (sys op) : Io ε op.Res).run :=
    oblivious_of_toSystem steady.kept (issues_lift (issues_sys trivial))
  have outcome {β : Type} (r : Except ε β) : Oblivious S v Inv (ofOutcome r : Io ε β).run :=
    oblivious_pure r
  simp only [bind_assoc, pure_bind]
  refine oblivious_run_bind (asks _) fun r _ => oblivious_run_bind (outcome _) fun opened _ => ?_
  refine oblivious_run_bind (asks _) fun r _ => oblivious_run_bind (outcome _) fun entries _ => ?_
  exact oblivious_lift (loop entries)

end Calls

section Clients

variable [Platform] {ε : Type} [ProcError ε]

/-- The calls that look the version up, and what is known of their values. -/
inductive GatedCall (procfs : AsyncProcfs) : {α : Type} → Io ε α → (α → Prop) → Prop
  | process (pid : Int32) : GatedCall procfs (Process.new procfs pid) fun p => p.procfs = procfs
  | myself : GatedCall procfs (Process.myself procfs) fun p => p.procfs = procfs
  | allProcesses : GatedCall procfs (allProcesses procfs >>= fun stream => liftM stream)
      fun items => ∀ p, .ok p ∈ items → p.procfs = procfs
  | fdFromFd {F : Type} [FDTarget F] {self : Process} (same : self.procfs = procfs) (fd : Int32) :
      GatedCall procfs (Accessors.fdFromFd self F fd) fun _ => True
  | fds {F : Type} [FDTarget F] {self : Process} (same : self.procfs = procfs) :
      GatedCall procfs (fds F self >>= fun stream => liftM stream) fun _ => True
  | fdCount {F : Type} [FDTarget F] {self : Process} (same : self.procfs = procfs) :
      GatedCall procfs (fdCount F self) fun _ => True
  | setThreadsMax (newLimit : UInt32) :
      GatedCall procfs ((SysKernel.kernel procfs).setThreadsMax newLimit) fun _ => True

variable (ε) in
/-- A program made of the calls of one instance, of its processes and of their tasks. -/
inductive Client (procfs : AsyncProcfs) : {α : Type} → Async α → Prop
  | finish {α : Type} (a : α) : Client procfs (pure a)
  | gated {α β : Type} {call : Io ε α} {gives : α → Prop} (asks : GatedCall procfs call gives)
      {next : Except ε α → Async β}
      (rest : ∀ r, (∀ a, r = .ok a → gives a) → Client procfs (next r)) :
      Client procfs (call.run >>= next)
  | process {self : Process} {α β : Type} {call : Io ε α} {carries : Rights → α → Prop}
      (asks : ProcessCall quiet self call carries) {next : Except ε α → Async β}
      (rest : ∀ r, Client procfs (next r)) : Client procfs (call.run >>= next)
  | task {self : Task} {α β : Type} {call : Io ε α} (asks : TaskCall self call)
      {next : Except ε α → Async β} (rest : ∀ r, Client procfs (next r)) :
      Client procfs (call.run >>= next)
  | setting {io : AsyncProcfs} {α β : Type} {call : Io ε α} {carries : Rights → α → Prop}
      (asks : InstanceCall quiet io call carries) {next : Except ε α → Async β}
      (rest : ∀ r, Client procfs (next r)) : Client procfs (call.run >>= next)

def everything : Rights where
  static := True
  writes := True
  reach _ _ := True

variable {σ : Type} {S : System σ} {procfs : AsyncProcfs} {v : Version} {Inv : σ → Prop} {α : Type}

theorem gated_gives {call : Io ε α} {gives : α → Prop} (asks : GatedCall procfs call gives) {a : α}
    (given : Gives S v Inv call.run (.ok a)) : gives a := by
  obtain ⟨e, -, ran⟩ := given
  have owns : Owns everything procfs.file := fun _ _ => trivial
  have carried {carries : Rights → α → Prop} (asks : InstanceCall everything procfs call carries) :
      ∃ k, carries k a := by
    obtain ⟨k, made⟩ := within_run (handle S) (obeys_instance owns asks) ⟨v.toU32, e⟩
    exact ⟨k, made a ran⟩
  cases asks with
  | process pid => exact (carried (.process trivial pid)).elim fun _ made => made.2
  | myself => exact (carried (.myself trivial)).elim fun _ made => made.2
  | allProcesses =>
    obtain ⟨k, made⟩ := carried (.allProcesses trivial)
    exact fun p mem => (made p mem).2
  | _ => trivial

theorem oblivious_gated (steady : Steady ε S procfs v Inv) {call : Io ε α} {gives : α → Prop}
    (asks : GatedCall procfs call gives) : Oblivious S v Inv call.run := by
  have listed {F : Type} [FDTarget F] {self : Process} (same : self.procfs = procfs) :
      Oblivious S v Inv ((fds F self : Io ε _) >>= fun stream => liftM stream).run :=
    oblivious_collected steady fun fd => oblivious_fromProcessAt steady same fd
  cases asks with
  | process pid => exact oblivious_newWithPath steady _
  | myself => exact oblivious_newWithPath steady _
  | allProcesses => exact oblivious_collected steady fun pid => oblivious_newWithPath steady _
  | fdFromFd same fd => exact oblivious_fromProcessAt steady same fd
  | fds same => exact listed same
  | setThreadsMax newLimit => exact oblivious_setThreadsMax steady newLimit
  | @fdCount F _ self same =>
    have stat := oblivious_of_toSystem steady.kept (S := S) (v := v)
      (issues_lift (issues_sys trivial) : Issues ToSystem (liftM (sys (.metadataAt self.fd "fd")) : Io ε _).run)
    refine oblivious_run_bind stat fun r _ => oblivious_run_bind (oblivious_pure _) fun stat _ => ?_
    split
    · exact oblivious_pure _
    · have counted := oblivious_run_bind (f := fun items => pure items.length) (listed (F := F) same)
        fun items _ => oblivious_pure (Except.ok items.length : Except ε Nat)
      rw [bind_assoc] at counted
      exact counted

/-- A client cannot tell whether the version was looked up before it started, nor when another
thread stores it: it gives the same result, and leaves the same files, in every such history,
and the static then holds that version or none. -/
theorem client_oblivious (steady : Steady ε S procfs v Inv) {p : Async α}
    (client : Client ε procfs p) {stored stored' : Nat → Bool} {kernel kernel' : UInt32}
    (held : Held v kernel) (held' : Held v kernel') {n n' : Nat} {e : σ} (inv : Inv e) :
    let first := run (sharing S v stored) p ⟨kernel, n, e⟩
    let second := run (sharing S v stored') p ⟨kernel', n', e⟩
    first.1 = second.1 ∧ first.2.env.2 = second.2.env.2 ∧ Held v first.2.kernel ∧
      Held v second.2.kernel := by
  have oblivious : Oblivious S v Inv p := by
    induction client with
    | finish a => exact oblivious_pure a
    | gated asks rest ih =>
      refine oblivious_bind (oblivious_gated steady asks) fun r given => ?_
      exact ih r fun a ok => gated_gives asks (ok ▸ given)
    | process asks rest ih =>
      refine oblivious_bind ?_ fun r _ => ih r
      exact oblivious_of_obeys steady.kept (obeys_process (fun _ _ => trivial) asks)
    | task asks rest ih =>
      refine oblivious_bind ?_ fun r _ => ih r
      exact oblivious_of_obeys steady.kept (obeys_task (fun _ _ => trivial) asks)
    | setting asks rest ih =>
      refine oblivious_bind ?_ fun r _ => ih r
      exact oblivious_of_obeys steady.kept (obeys_instance (fun _ _ => trivial) asks)
  have agrees := oblivious stored n kernel e held inv
  have agrees' := oblivious stored' n' kernel' e held' inv
  exact ⟨agrees.result.trans agrees'.result.symm, agrees.env.trans agrees'.env.symm, agrees.held,
    agrees'.held⟩

end Clients

section OldKernel

/-- A 3.2 kernel, which does not open directories as paths only. -/
def oldKernel : (op : SysOp) → op.Res
  | .openAt dir path options =>
    if .path ∈ options.customFlags then .error (.os .invalidData) else .ok ⟨joinPath dir.label path⟩
  | .readToEnd _ => .ok (encodeUtf8 "3.2.0-4-amd64\n")
  | op => bare op

theorem steady_oldKernel [Platform] :
    Steady CoreError (fixed oldKernel) slashProc ⟨3, 2, 0⟩ fun _ => True where
  kept _ _ _ := trivial
  looks kernel _ _ := by
    have read : (run (handle (fixed oldKernel)) (Version.current slashProc : Io CoreError Version).run
        ⟨0, ()⟩).1 = .ok ⟨3, 2, 0⟩ := by
      decide
    rw [exec, run_toSystem (fixed oldKernel) issues_current kernel 0, read]

/-- Another thread stores the version while this one reads it. -/
theorem client_oblivious_oldKernel :
    (run (@sharing littleEndian64 _ (fixed oldKernel) ⟨3, 2, 0⟩ fun n => n = 2)
      ((@Process.new littleEndian64 CoreError _ slashProc 27).run >>= pure) ⟨0, 0, ()⟩).1 =
        .ok twentySeven := by
  let _ := littleEndian64
  have client : Client CoreError slashProc ((Process.new slashProc 27 : Io CoreError Process).run >>= pure) :=
    .gated (.process 27) fun r _ => .finish r
  have same := @client_oblivious littleEndian64 CoreError _ Unit (fixed oldKernel) slashProc ⟨3, 2, 0⟩
    (fun _ => True) _ steady_oldKernel _ client (fun n => n = 2) (fun _ => false) 0
    (Version.toU32 ⟨3, 2, 0⟩) (Or.inl rfl) (Or.inr rfl) 0 0 () trivial
  exact same.1.trans (by decide)

end OldKernel

end VersionGates
