import AsyncProcfs.Accessors
import AsyncProcfs.FileRights
import AsyncProcfs.SysKernel

/-!
# Sessions and what they reach

A session is any program made of the crate's calls on one instance, its
processes and their tasks. Every call asks only for names below its own handle,
or that the rights include, and for the handles it was given on the way; only the
calls that look the version up use the static.
-/

namespace Sessions

open ProgramRuns EntryLoops Interleavings Permissions FileRights Results Text Procfs KernelVersion
  Processes ProcessFiles Descriptors Tasks CursorReads

section Parts

variable {ε : Type} {α β : Type} {k : Rights} {post : Rights → α → Prop}

/-- A call whose error is only converted, and what follows its success. -/
theorem obeys_call {p : Async (Except IoError β)} (call : Within policy (fun _ _ => True) k p)
    {convert : Except IoError β → Except ε β} {f : β → Io ε α}
    (rest : ∀ k' b, k ≤ k' → Obeys policy post k' (f b)) :
    Obeys policy post k ((liftM p : Io ε (Except IoError β)) >>= fun r =>
      ofOutcome (convert r) >>= f) :=
  obeys_bind (obeys_lift call) fun k' _ le _ => obeys_ofOutcome_bind fun b _ => rest k' b le

/-- An open with its error converted; what follows holds the file. -/
theorem obeys_open {dir : File} {name : Path} {options : OpenOptions}
    (named : k.reach dir name) (changes : Changes options → k.writes)
    {convert : Except IoError File → Except ε File}
    (keeps : ∀ r file, convert r = .ok file → r = .ok file) {f : File → Io ε α}
    (rest : ∀ k' file, k ≤ k' → Owns k' file → Obeys policy post k' (f file)) :
    Obeys policy post k ((liftM (sys (.openAt dir name options)) : Io ε _) >>= fun r =>
      ofOutcome (convert r) >>= f) := by
  have opened : Obeys policy (fun k' r => k ≤ k' ∧ ∀ file, r = .ok file → Owns k' file) k
      (liftM (sys (.openAt dir name options)) : Io ε (Except IoError File)) := by
    refine obeys_lift (within_request ⟨named, changes⟩ fun r => ?_)
    refine ⟨grant_grows k _ r, fun file ok => ?_⟩
    rw [ok]
    exact owns_grant k dir name options file
  refine obeys_bind opened ?_
  rintro k' r - ⟨le, owned⟩
  exact obeys_ofOutcome_bind fun file ok => rest k' file le (owned file (keeps r file ok))

theorem within_sys {op : SysOp} (permitted : permits k (.sys op)) :
    Within policy (fun _ _ => True) k (sys op) :=
  within_request permitted fun _ => trivial

theorem within_readToEnd {file : File} (owns : Owns k file) :
    Within policy (fun _ _ => True) k (sys (.readToEnd file)) :=
  within_sys (owns [] inside_nil)

theorem within_readToString {file : File} (owns : Owns k file) :
    Within policy (fun _ _ => True) k (readToString file) :=
  within_bind (within_readToEnd owns) fun _ _ _ _ => within_pure trivial

theorem within_writeAll {file : File} (owns : Owns k file) (writes : k.writes) (data : Bytes) :
    Within policy (fun _ _ => True) k (sys (.writeAll file data)) :=
  @within_sys _ (.writeAll file data) ⟨owns [] inside_nil, writes⟩

variable [ProcError ε]

theorem wrapped_keeps {path : Path} (r : Except IoError β) (b : β)
    (ok : (wrapIoError path r).mapError (ProcError.fromIo : IoError → ε) = .ok b) : r = .ok b := by
  rw [mapError_eq_ok_iff] at ok
  cases r with
  | ok b' => exact ok
  | error e => cases ok

end Parts

section Programs

variable {ε : Type} [ProcError ε] {α T : Type} {k : Rights}

/-- Nothing is promised of the value. -/
abbrev Plain (_ : Rights) (_ : α) : Prop := True

theorem not_changes_reading (changes : Changes { read := true }) : k.writes :=
  absurd changes (by decide)

omit [ProcError ε] in
theorem obeys_last {β : Type} {p : Async (Except IoError β)}
    (call : Within policy (fun _ _ => True) k p) {convert : Except IoError β → Except ε α} :
    Obeys policy Plain k ((liftM p : Io ε (Except IoError β)) >>= fun r =>
      ofOutcome (convert r)) :=
  obeys_bind (obeys_lift call) fun _ _ _ _ => obeys_ofOutcome fun _ _ => trivial

theorem obeys_readFile {io : AsyncProcfs} {path : Path} (named : k.reach io.file path) :
    Obeys policy Plain k (io.readFile path : Io ε Str) :=
  obeys_open named not_changes_reading (fun _ _ => mapError_eq_ok_iff.mp) fun _ _ _ owns =>
    obeys_last (within_readToString owns)

theorem obeys_readValue {E : Type} {io : AsyncProcfs} {path : Path} (named : k.reach io.file path)
    (parse : Str → Except E α) (into : E → ε) :
    Obeys policy Plain k (io.readValue parse into path) :=
  obeys_bind (obeys_readFile named) fun _ _ _ _ => obeys_ofOutcome fun _ _ => trivial

theorem obeys_writeFile {io : AsyncProcfs} {path : Path} (named : k.reach io.file path)
    (writes : k.writes) (data : Bytes) :
    Obeys policy Plain k (io.writeFile path data : Io ε Unit) :=
  obeys_open named (fun _ => writes) (fun _ _ => mapError_eq_ok_iff.mp) fun _ _ le owns =>
    obeys_last (within_writeAll owns (le.2.1 writes) data)

theorem obeys_cached [Platform] {io : AsyncProcfs} (static : k.static)
    (named : k.reach io.file "sys/kernel/osrelease") :
    Obeys policy Plain k (Version.cached io : Io ε Version) := by
  have loads : Within policy Plain k load := within_request static fun _ => trivial
  refine obeys_bind (obeys_lift loads) fun k' kernel le _ => ?_
  by_cases empty : kernel = Version.sentinel
  · rw [if_pos empty]
    refine obeys_bind (obeys_readValue (le.2.2 _ _ named) _ _) fun k'' v le' _ => ?_
    have stores : Within policy Plain k'' (store v.toU32) :=
      within_request (le'.1 (le.1 static)) fun _ => trivial
    exact obeys_bind (obeys_lift stores) fun _ _ _ _ => obeys_pure trivial
  · rw [if_neg empty]
    exact obeys_pure trivial

theorem obeys_expect (a : Option α) :
    Obeys policy Plain k (expect a : Io ε α) := by
  cases a with
  | some a => exact obeys_pure trivial
  | none => exact obeys_throw _

/-- A file opened below a handle, read as a text, and handed to the rest. -/
theorem obeys_readText {dir : File} {name path : Path} (named : k.reach dir name)
    {f : Str → Io ε α} (rest : ∀ k' s, k ≤ k' → Obeys policy Plain k' (f s)) :
    Obeys policy Plain k ((liftM (sys (.openAt dir name { read := true })) : Io ε _) >>= fun r =>
      propagate (wrapIoError path r) >>= fun file =>
        (liftM (readToString file) : Io ε _) >>= fun r => propagate r >>= f) :=
  obeys_open named not_changes_reading wrapped_keeps fun _ _ le owns =>
    obeys_call (within_readToString owns) fun k' s le' => rest k' s (le.trans le')

/-- The same of its bytes. -/
theorem obeys_readBytes {dir : File} {name path : Path} (named : k.reach dir name)
    {f : Bytes → Io ε α} (rest : ∀ k' s, k ≤ k' → Obeys policy Plain k' (f s)) :
    Obeys policy Plain k ((liftM (sys (.openAt dir name { read := true })) : Io ε _) >>= fun r =>
      propagate (wrapIoError path r) >>= fun file =>
        (liftM (sys (.readToEnd file)) : Io ε _) >>= fun r => propagate r >>= f) :=
  obeys_open named not_changes_reading wrapped_keeps fun _ _ le owns =>
    obeys_call (within_readToEnd owns) fun k' s le' => rest k' s (le.trans le')

theorem obeys_cursorRead {fd : File} {path relpath : Path} (named : k.reach fd relpath)
    {parser : Bytes → Io ε T} (parses : ∀ k' cursor, k ≤ k' → Obeys policy Plain k' (parser cursor)) :
    Obeys policy Plain k (cursorRead fd path parser relpath) :=
  obeys_open named not_changes_reading wrapped_keeps fun _ _ le owns =>
    obeys_call (within_readToEnd owns) fun k' s le' => parses k' s (le.trans le')

theorem display_plain (n : Int32) : '/' ∉ IntText.display n ∧ "..".toList ≠ IntText.display n := by
  have absent {c : Char} (sign : c ≠ '-') (nondigit : ¬ c.isDigit) : c ∉ IntText.display n :=
    fun mem => (IntText.mem_display mem).elim sign nondigit
  refine ⟨absent (by decide) (by decide), fun same => ?_⟩
  exact absent (c := '.') (by decide) (by decide) (same ▸ by decide)

theorem inside_display (n : Int32) : Inside (IntText.display n) := by
  obtain ⟨slash, dots⟩ := display_plain n
  refine ⟨fun first => slash (List.mem_of_head? first), ?_⟩
  rw [List.splitOn_eq_singleton slash, List.mem_singleton]
  exact dots

/-- The name of a numbered entry of a directory. -/
theorem inside_numbered {name : Path} (inside : Inside name) (plain : '/' ∉ name)
    (named : name ≠ []) (n : Int32) : Inside (joinPath name (IntText.display n)) := by
  obtain ⟨slash, dots⟩ := display_plain n
  have last : name.getLast? ≠ some '/' := fun last => plain (List.mem_of_getLast? last)
  have own : "..".toList ≠ name := by
    rintro rfl
    exact inside.2 (by decide)
  rw [joinPath, if_neg (inside_display n).1, if_neg (not_or.mpr ⟨named, last⟩)]
  constructor
  · rw [List.head?_append_of_ne_nil _ named]
    exact inside.1
  · rw [List.splitOn_append_cons_self_of_not_mem plain, List.splitOn_eq_singleton slash,
      List.mem_pair]
    exact not_or.mpr ⟨own, dots⟩

theorem obeys_fromProcessAt_task {self : Process} (owns : Owns k self.fd) (tid : Int32) :
    Obeys policy (fun k' task => Owns k' task.fd) k (Task.fromProcessAt self tid : Io ε Task) :=
  obeys_open (owns _ (inside_numbered (by decide) (by decide) (by decide) tid))
    (fun changes => absurd changes (by decide)) wrapped_keeps fun _ _ _ owned => obeys_pure owned

theorem obeys_fromProcessAt_fdInfo [Platform] {Target : Type} [FDTarget Target] {self : Process}
    (owns : Owns k self.fd) (static : k.static)
    (named : k.reach self.procfs.file "sys/kernel/osrelease") (fd : Int32) :
    Obeys policy Plain k (FDInfo.fromProcessAt Target self fd : Io ε (FDInfo Target)) := by
  refine obeys_bind (obeys_attempt (obeys_cached static named)) fun k₁ kernel le₁ _ => ?_
  refine obeys_open (owns_mono le₁ owns _ (inside_numbered (by decide) (by decide) (by decide) fd))
    (fun changes => ?_) wrapped_keeps fun k₂ file le₂ owned => ?_
  · simp [Changes] at changes
  refine obeys_call (@within_sys _ (.readLink file) (owned [] inside_nil)) fun k₃ link le₃ => ?_
  have named := owns_mono le₃ owned [] inside_nil
  refine obeys_call (@within_sys _ (.metadataAt file "") named) fun k₄ metadata le₄ => ?_
  refine obeys_bind (obeys_expect _) fun k₅ text _ _ => ?_
  exact obeys_bind (obeys_expect _) fun _ _ _ _ => obeys_pure trivial

theorem obeys_newWithPath [Platform] {io : AsyncProcfs} {path : Path} (static : k.static)
    (release : k.reach io.file "sys/kernel/osrelease") (named : k.reach io.file path) :
    Obeys policy (fun k' p => Owns k' p.fd ∧ p.procfs = io) k
      (Process.newWithPath io path : Io ε Process) := by
  refine obeys_bind (obeys_attempt (obeys_cached static release)) fun k₁ kernel le₁ _ => ?_
  refine obeys_open (le₁.2.2 _ _ named) (fun changes => ?_) wrapped_keeps fun k₂ file le₂ owned => ?_
  · simp [Changes] at changes
  have resolves : Within policy Plain k₂ (resolvePid io path) := by
    rw [resolvePid]
    split
    · exact within_pure trivial
    · refine within_bind (@within_sys _ (.readLinkAt io.file path) ?_) fun _ _ _ _ =>
        within_pure trivial
      exact le₂.2.2 _ _ (le₁.2.2 _ _ named)
  refine obeys_bind (obeys_lift resolves) fun k₃ pid le₃ _ => ?_
  cases pid with
  | some pid => exact obeys_pure ⟨owns_mono le₃ owned, rfl⟩
  | none => exact obeys_throw _

/-- The loop over the entries of an opened directory. -/
theorem within_numbered {construct : Int32 → Io ε α} {carries : Rights → α → Prop}
    (lasts : ∀ k k' a, k ≤ k' → carries k a → carries k' a)
    (each : ∀ k' n, k ≤ k' → Obeys policy carries k' (construct n))
    (entries : List (Except IoError Bytes)) :
    Within policy (fun k' items => ∀ a, .ok a ∈ items → carries k' a) k
      (forAwait (ProcError.fromIo : IoError → ε) (numbered construct) entries) := by
  refine within_forAwait _ entries lasts fun k' name le => ?_
  rw [numbered]
  cases IntText.parse Int32 (toStringLossy name) with
  | error e => exact within_pure (by rintro a ⟨⟩)
  | ok n =>
    refine within_bind (each k' n le) fun k'' r _ made => within_pure fun a found => ?_
    cases r with
    | ok a' =>
      cases found
      exact made a rfl
    | error e => cases found

/-- A directory opened below a handle and listed gives a loop within the rights held then. -/
theorem obeys_listing {dir : File} {name path path' : Path} (named : k.reach dir name)
    {construct : Int32 → Io ε α} {carries : Rights → α → Prop}
    (lasts : ∀ k k' a, k ≤ k' → carries k a → carries k' a)
    (each : ∀ k' n, k ≤ k' → Obeys policy carries k' (construct n)) :
    Obeys policy (Within policy fun k' items => ∀ a, .ok a ∈ items → carries k' a) k (do
      let dir ← propagate (wrapIoError path
        (← sys (.openAt dir name { read := true, customFlags := [.directory] })))
      let dir ← propagate (wrapIoError path' (← sys (.readDir dir)))
      return forAwait ProcError.fromIo (numbered construct) dir :
        Io ε (Async (List (Except ε α)))) := by
  refine obeys_open named (fun changes => ?_) wrapped_keeps fun k₁ opened le₁ owned => ?_
  · simp [Changes] at changes
  refine obeys_call (@within_sys _ (.readDir opened) (owned [] inside_nil)) fun k₂ entries le₂ => ?_
  exact obeys_pure (within_numbered lasts (fun k' n le => each k' n ((le₁.trans le₂).trans le)) _)

omit [ProcError ε] in
/-- The loop run to its end. -/
theorem obeys_collected {program : Io ε (Async (List (Except ε α)))}
    {carries : Rights → List (Except ε α) → Prop}
    (listing : Obeys policy (Within policy carries) k program) :
    Obeys policy carries k (program >>= fun stream => liftM stream) :=
  obeys_bind listing fun _ _ _ within => obeys_lift within

end Programs

section Calls

variable [Platform] {ε : Type} [ProcError ε]

/-- The calls of a process: a program, and what its value carries. -/
inductive ProcessCall (k : Rights) (self : Process) :
    {α : Type} → Io ε α → (Rights → α → Prop) → Prop
  | cmdline : ProcessCall k self (cmdline self) Plain
  | environ : ProcessCall k self (Environment.environ self) Plain
  | auxv : ProcessCall k self (AuxiliaryVector.auxv self) Plain
  | coredumpFilter {F : Type} [CoredumpFilter.CoredumpFlags F] :
      ProcessCall k self (CoredumpFilter.coredumpFilter self : Io ε (Option F)) Plain
  | oomScore : ProcessCall k self (Accessors.oomScore self) Plain
  | oomScoreAdj : ProcessCall k self (OomScore.oomScoreAdj self) Plain
  | loginuid [Accessors.Status ε] : ProcessCall k self (Accessors.loginuid self) Plain
  | uid : ProcessCall k self (Accessors.uid self) Plain
  /-- The calls that give a text as it is. -/
  | text {call : Io ε Str} (mem : call ∈ [Accessors.autogroup self, Accessors.wchan self]) :
      ProcessCall k self call Plain
  /-- The calls that follow a link. -/
  | link {call : Io ε Bytes}
      (mem : call ∈ [Accessors.cwd self, Accessors.root self, Accessors.exe self]) :
      ProcessCall k self call Plain
  /-- The calls that parse a file through a cursor. -/
  | parsed {T : Type} [FromRead ε T] {call : Io ε T}
      (mem : call ∈ [Accessors.io self, Accessors.maps self, Accessors.smaps self,
        Accessors.smapsRollup self, Accessors.mountstats self, Accessors.mountinfo self,
        Accessors.status self, Accessors.stat self, Accessors.limits self, Accessors.statm self,
        Accessors.schedstat self, Accessors.syscall self, Accessors.snmp self,
        Accessors.snmp6 self]) : ProcessCall k self call Plain
  /-- The calls that unwrap a parsed table. -/
  | table {T : Type} [FromRead ε (Accessors.Entries T)] {call : Io ε T}
      (mem : call ∈ [Accessors.devStatus self, Accessors.unix self, Accessors.arp self,
        Accessors.route self]) : ProcessCall k self call Plain
  /-- The calls whose parser is handed the system information, for parsers that are themselves
  within the rights. -/
  | socket {T : Type} [FromReadSI ε (Accessors.Entries T)]
      (parser : ∀ cursor k', k ≤ k' → Obeys policy Plain k'
        (FromReadSI.fromRead cursor (currentSystemInfo self.procfs) : Io ε (Accessors.Entries T)))
      {call : Io ε T} (mem : call ∈ [Accessors.tcp self, Accessors.tcp6 self,
        Accessors.udp self, Accessors.udp6 self]) : ProcessCall k self call Plain
  | isAlive {T : Type} [FromRead ε T] [Accessors.Stat T] :
      ProcessCall k self (liftM (Accessors.isAlive ε T self)) Plain
  | taskFromTid (tid : Int32) :
      ProcessCall k self (Accessors.taskFromTid self tid) fun k' task => Owns k' task.fd
  | taskMainThread :
      ProcessCall k self (Accessors.taskMainThread self) fun k' task => Owns k' task.fd
  | tasks : ProcessCall k self (tasks self >>= fun stream => liftM stream)
      fun k' items => ∀ task, .ok task ∈ items → Owns k' task.fd
  | mem : ProcessCall k self (Accessors.mem self) Owns
  | openRelative (path : Path) (named : k.reach self.fd path) :
      ProcessCall k self (Accessors.openRelative self path) Owns
  | openRelativeFlags (path : Path) (named : k.reach self.fd path) (flags : OpenOptions)
      (changes : Changes flags → k.writes) :
      ProcessCall k self (Accessors.openRelativeFlags self path flags) Owns
  /-- The calls that look the version up. -/
  | fdFromFd {F : Type} [FDTarget F] (fd : Int32) (static : k.static)
      (release : k.reach self.procfs.file "sys/kernel/osrelease") :
      ProcessCall k self (Accessors.fdFromFd self F fd) Plain
  | fds {F : Type} [FDTarget F] (static : k.static)
      (release : k.reach self.procfs.file "sys/kernel/osrelease") :
      ProcessCall k self (fds F self >>= fun stream => liftM stream) Plain
  | fdCount {F : Type} [FDTarget F] (static : k.static)
      (release : k.reach self.procfs.file "sys/kernel/osrelease") :
      ProcessCall k self (fdCount F self) Plain
  /-- The calls that write. -/
  | setOomScoreAdj (writes : k.writes) (v : Int16) :
      ProcessCall k self (OomScore.setOomScoreAdj self v) Plain
  | clearRefs (writes : k.writes) {C : Type} [Accessors.ClearRefs C] (clear : C) :
      ProcessCall k self (Accessors.clearRefs self clear) Plain

/-- The calls of a task. -/
inductive TaskCall (self : Task) : {α : Type} → Io ε α → Prop
  | parsed {T : Type} [FromRead ε T] {call : Io ε T}
      (mem : call ∈ [Accessors.Task.stat self, Accessors.Task.status self,
        Accessors.Task.io self, Accessors.Task.schedstat self, Accessors.Task.syscall self]) :
      TaskCall self call
  | children : TaskCall self (TaskChildren.children self)

/-- The calls of an instance. -/
inductive InstanceCall (k : Rights) (procfs : AsyncProcfs) :
    {α : Type} → Io ε α → (Rights → α → Prop) → Prop
  | currentVersion : InstanceCall k procfs (SysKernel.kernel procfs).currentVersion Plain
  | currentType : InstanceCall k procfs (SysKernel.kernel procfs).currentType Plain
  | currentBuildInfo (isUppercase : Char → Bool) :
      InstanceCall k procfs ((SysKernel.kernel procfs).currentBuildInfo isUppercase) Plain
  | semaphoreLimits : InstanceCall k procfs (SysKernel.kernel procfs).semaphoreLimits Plain
  | pidMax : InstanceCall k procfs (SysKernel.kernel procfs).pidMax Plain
  | shmmax : InstanceCall k procfs (SysKernel.kernel procfs).shmmax Plain
  | shmmni : InstanceCall k procfs (SysKernel.kernel procfs).shmmni Plain
  | shmall : InstanceCall k procfs (SysKernel.kernel procfs).shmall Plain
  | sysrq : InstanceCall k procfs (SysKernel.kernel procfs).sysrq Plain
  | threadsMax : InstanceCall k procfs (SysKernel.kernel procfs).threadsMax Plain
  | loadAverage {T : Type} [FromRead ε T] :
      InstanceCall k procfs (Accessors.loadAverage procfs : Io ε T) Plain
  | bootTimeSecs {T : Type} [FromReadSI ε T] [Accessors.KernelStats T]
      (parser : ∀ cursor k', k ≤ k' → Obeys policy Plain k'
        (FromReadSI.fromRead cursor (currentSystemInfo procfs) : Io ε T)) :
      InstanceCall k procfs (Accessors.bootTimeSecs procfs T) Plain
  | setShmmax (writes : k.writes) (newValue : UInt64) :
      InstanceCall k procfs ((SysKernel.kernel procfs).setShmmax newValue) Plain
  | setSysrq (writes : k.writes) (new : SysrqSetting.SysRq) :
      InstanceCall k procfs ((SysKernel.kernel procfs).setSysrq new) Plain
  | setThreadsMax (writes : k.writes) (static : k.static) (newLimit : UInt32) :
      InstanceCall k procfs ((SysKernel.kernel procfs).setThreadsMax newLimit) Plain
  | process (static : k.static) (pid : Int32) :
      InstanceCall k procfs (Process.new procfs pid) fun k' p => Owns k' p.fd ∧ p.procfs = procfs
  | myself (static : k.static) :
      InstanceCall k procfs (Process.myself procfs) fun k' p => Owns k' p.fd ∧ p.procfs = procfs
  | allProcesses (static : k.static) :
      InstanceCall k procfs (allProcesses procfs >>= fun stream => liftM stream)
        fun k' items => ∀ p, .ok p ∈ items → Owns k' p.fd ∧ p.procfs = procfs

variable (ε) in
/-- A program made of calls on handles that are held when the call is made. -/
inductive Session : Rights → {α : Type} → Async α → Prop
  | finish (k : Rights) {α : Type} (a : α) : Session k (pure a)
  | process {k : Rights} {self : Process} (owns : Owns k self.fd) {α β : Type} {call : Io ε α}
      {carries : Rights → α → Prop} (asks : ProcessCall k self call carries)
      {next : Except ε α → Async β}
      (rest : ∀ k' r, k ≤ k' → (∀ a, r = .ok a → carries k' a) → Session k' (next r)) :
      Session k (call.run >>= next)
  | task {k : Rights} {self : Task} (owns : Owns k self.fd) {α β : Type} {call : Io ε α}
      (asks : TaskCall self call) {next : Except ε α → Async β}
      (rest : ∀ k' r, k ≤ k' → Session k' (next r)) : Session k (call.run >>= next)
  | procfs {k : Rights} {procfs : AsyncProcfs} (owns : Owns k procfs.file) {α β : Type}
      {call : Io ε α} {carries : Rights → α → Prop} (asks : InstanceCall k procfs call carries)
      {next : Except ε α → Async β}
      (rest : ∀ k' r, k ≤ k' → (∀ a, r = .ok a → carries k' a) → Session k' (next r)) :
      Session k (call.run >>= next)

section Sequences

variable {k : Rights} {α β : Type} {call : Io ε α} {f : α → Io ε β}

/-- A call of a process and what follows its success; an error ends the program. -/
theorem session_process_bind {self : Process} (owns : Owns k self.fd) {carries : Rights → α → Prop}
    (asks : ProcessCall k self call carries)
    (rest : ∀ k' a, k ≤ k' → carries k' a → Session ε k' (f a).run) :
    Session ε k (call >>= f).run := by
  refine .process owns asks fun k' r le carried => ?_
  cases r with
  | ok a => exact rest k' a le (carried a rfl)
  | error e => exact .finish k' _

theorem session_procfs_bind {procfs : AsyncProcfs} (owns : Owns k procfs.file)
    {carries : Rights → α → Prop} (asks : InstanceCall k procfs call carries)
    (rest : ∀ k' a, k ≤ k' → carries k' a → Session ε k' (f a).run) :
    Session ε k (call >>= f).run := by
  refine .procfs owns asks fun k' r le carried => ?_
  cases r with
  | ok a => exact rest k' a le (carried a rfl)
  | error e => exact .finish k' _

end Sequences

end Calls

section Confinement

variable {ε : Type} [ProcError ε] {k : Rights} {self : Process}

theorem obeys_readLinkIn {name : Path} (owns : Owns k self.fd) (inside : Inside name) :
    Obeys policy Plain k (Accessors.readLinkIn self name : Io ε Bytes) :=
  obeys_last (@within_sys _ (.readLinkAt self.fd name) (owns name inside))

theorem obeys_readTextIn {name : Path} (owns : Owns k self.fd) (inside : Inside name) :
    Obeys policy Plain k (Accessors.readText self name : Io ε Str) :=
  obeys_open (owns name inside) not_changes_reading wrapped_keeps fun _ _ _ owned =>
    obeys_last (within_readToString owned)

theorem obeys_openRelativeFlags {path : Path} {flags : OpenOptions}
    (named : k.reach self.fd path) (changes : Changes flags → k.writes) :
    Obeys policy Owns k (Accessors.openRelativeFlags self path flags : Io ε File) := by
  have opens : Obeys policy Owns k ((liftM (sys (.openAt self.fd path flags)) : Io ε _) >>=
      fun r => propagate (wrapIoError (joinPath self.path path) r) >>= pure) :=
    obeys_open named changes wrapped_keeps fun _ _ _ owned => obeys_pure owned
  simp only [bind_pure] at opens
  exact opens

theorem obeys_fds [Platform] (Target : Type) [FDTarget Target] (owns : Owns k self.fd)
    (static : k.static) (release : k.reach self.procfs.file "sys/kernel/osrelease") :
    Obeys policy (Within policy Plain) k (fds Target self : Io ε _) := by
  have listing : Obeys policy (Within policy fun k' items => ∀ info, .ok info ∈ items →
      Plain k' info) k (fds Target self : Io ε _) := by
    refine obeys_listing (owns "fd" (by decide)) (fun _ _ _ _ => id) fun k' fd le => ?_
    exact obeys_fromProcessAt_fdInfo (owns_mono le owns) (le.1 static) (le.2.2 _ _ release) fd
  exact obeys_mono listing fun _ _ _ within => within_mono within fun _ _ _ _ => trivial

theorem obeys_readWithCursor {T : Type} [FromRead ε T] {name : Path} (owns : Owns k self.fd)
    (inside : Inside name) :
    Obeys policy Plain k (CursorReads.Process.readWithCursor self name : Io ε T) :=
  obeys_cursorRead (owns name inside) fun _ _ _ => obeys_ofOutcome fun _ _ => trivial

theorem obeys_task {self : Task} (owns : Owns k self.fd) {α : Type} {call : Io ε α}
    (asks : TaskCall self call) : Obeys policy Plain k call := by
  have cursor {T : Type} [FromRead ε T] {name : Path} (inside : Inside name) :
      Obeys policy Plain k (CursorReads.Task.readWithCursor self name : Io ε T) :=
    obeys_cursorRead (owns name inside) fun _ _ _ => obeys_ofOutcome fun _ _ => trivial
  cases asks with
  | parsed mem =>
    simp only [List.mem_cons, List.not_mem_nil, or_false] at mem
    rcases mem with rfl | rfl | rfl | rfl | rfl
    all_goals exact cursor (by decide)
  | children =>
    exact obeys_readText (owns _ (by decide)) fun _ _ _ => obeys_ofOutcome fun _ _ => trivial

variable [Platform]

theorem obeys_process (owns : Owns k self.fd) {α : Type} {call : Io ε α}
    {carries : Rights → α → Prop} (asks : ProcessCall k self call carries) :
    Obeys policy carries k call := by
  cases asks with
  | cmdline =>
    refine obeys_open (owns _ (by decide)) not_changes_reading wrapped_keeps fun _ _ _ owned => ?_
    exact obeys_call (within_readToString owned) fun _ _ _ => obeys_pure trivial
  | environ => exact obeys_readBytes (owns _ (by decide)) fun _ _ _ => obeys_pure trivial
  | auxv =>
    refine obeys_readBytes (owns _ (by decide)) fun _ buf _ => ?_
    split
    · exact obeys_pure trivial
    · exact obeys_ofOutcome fun _ _ => trivial
  | coredumpFilter =>
    refine obeys_readText (owns _ (by decide)) fun _ s _ => ?_
    rw [CoredumpFilter.filterIn]
    split
    · exact obeys_pure trivial
    · refine obeys_bind (obeys_expect _) fun _ _ _ _ => ?_
      exact obeys_bind (obeys_expect _) fun _ _ _ _ => obeys_pure trivial
  | oomScore => exact obeys_bind (obeys_readTextIn owns (by decide)) fun _ _ _ _ => obeys_expect _
  | oomScoreAdj => exact obeys_readText (owns _ (by decide)) fun _ _ _ => obeys_expect _
  | loginuid =>
    refine obeys_bind (obeys_readTextIn owns (by decide)) fun _ _ _ _ => ?_
    exact obeys_ofOutcome fun _ _ => trivial
  | uid =>
    have named := owns [] inside_nil
    exact obeys_call (@within_sys _ (.metadataAt self.fd "") named) fun _ _ _ => obeys_pure trivial
  | text mem =>
    simp only [List.mem_cons, List.not_mem_nil, or_false] at mem
    rcases mem with rfl | rfl
    all_goals exact obeys_readTextIn owns (by decide)
  | link mem =>
    simp only [List.mem_cons, List.not_mem_nil, or_false] at mem
    rcases mem with rfl | rfl | rfl
    all_goals exact obeys_readLinkIn owns (by decide)
  | parsed mem =>
    simp only [List.mem_cons, List.not_mem_nil, or_false] at mem
    rcases mem with rfl | rfl | rfl | rfl | rfl | rfl | rfl | rfl | rfl | rfl | rfl | rfl | rfl | rfl
    all_goals exact obeys_readWithCursor owns (by decide)
  | table mem =>
    simp only [List.mem_cons, List.not_mem_nil, or_false] at mem
    rcases mem with rfl | rfl | rfl | rfl
    all_goals exact obeys_map _ (obeys_readWithCursor owns (by decide))
  | socket parser mem =>
    have reads {name : Path} (inside : Inside name) :
        Obeys policy Plain k (CursorReads.Process.readSiWithCursor self name : Io ε _) :=
      obeys_cursorRead (owns name inside) fun k' cursor => parser cursor k'
    simp only [List.mem_cons, List.not_mem_nil, or_false] at mem
    rcases mem with rfl | rfl | rfl | rfl
    all_goals exact obeys_map _ (reads (by decide))
  | isAlive =>
    refine obeys_lift (within_bind (obeys_readWithCursor owns (by decide)) fun _ r _ _ => ?_)
    exact within_pure trivial
  | taskFromTid tid => exact obeys_fromProcessAt_task owns tid
  | taskMainThread => exact obeys_fromProcessAt_task owns self.pid
  | tasks =>
    refine obeys_collected (obeys_listing (owns "task" (by decide)) ?_ fun k' tid le => ?_)
    · exact fun _ _ _ le => owns_mono le
    · exact obeys_fromProcessAt_task (owns_mono le owns) tid
  | mem => exact obeys_openRelativeFlags (owns _ (by decide)) not_changes_reading
  | openRelative path named => exact obeys_openRelativeFlags named not_changes_reading
  | openRelativeFlags path named flags changes => exact obeys_openRelativeFlags named changes
  | fdFromFd fd static release => exact obeys_fromProcessAt_fdInfo owns static release fd
  | @fds F _ static release => exact obeys_collected (obeys_fds F owns static release)
  | @fdCount F _ static release =>
    have named := owns "fd" (by decide)
    refine obeys_call (@within_sys _ (.metadataAt self.fd "fd") named) fun k' stat le => ?_
    split
    · exact obeys_pure trivial
    · have listing : Obeys policy (Within policy Plain) k' (fds F self : Io ε _) :=
        obeys_fds F (owns_mono le owns) (le.1 static) (le.2.2 _ _ release)
      refine obeys_bind listing fun _ stream _ within => ?_
      exact obeys_bind (obeys_lift within) fun _ _ _ _ => obeys_pure trivial
  | setOomScoreAdj writes v =>
    refine obeys_open (owns _ (by decide)) (fun _ => writes) wrapped_keeps fun _ _ le owned => ?_
    exact obeys_last (within_writeAll owned (le.2.1 writes) _)
  | clearRefs writes clear =>
    refine obeys_open (owns _ (by decide)) (fun _ => writes) wrapped_keeps fun _ _ le owned => ?_
    exact obeys_last (within_writeAll owned (le.2.1 writes) _)

theorem obeys_instance {procfs : AsyncProcfs} (owns : Owns k procfs.file) {α : Type}
    {call : Io ε α} {carries : Rights → α → Prop} (asks : InstanceCall k procfs call carries) :
    Obeys policy carries k call := by
  have release : k.reach procfs.file "sys/kernel/osrelease" := owns _ (by decide)
  cases asks with
  | loadAverage =>
    exact obeys_readBytes (owns _ (by decide)) fun _ _ _ => obeys_ofOutcome fun _ _ => trivial
  | bootTimeSecs parser =>
    have named : k.reach procfs.file "stat" := owns _ (by decide)
    have reads := @obeys_readBytes _ _ _ _ _ _ (joinPath procfs.root "stat") named _
      fun k' cursor => parser cursor k'
    exact obeys_bind reads fun _ _ _ _ => obeys_pure trivial
  | setShmmax writes newValue => exact obeys_writeFile (owns _ (by decide)) writes _
  | setSysrq writes new => exact obeys_writeFile (owns _ (by decide)) writes _
  | setThreadsMax writes static newLimit =>
    refine obeys_bind (obeys_attempt (obeys_cached static release)) fun k' kernel le _ => ?_
    split
    · exact obeys_throw _
    · exact obeys_writeFile (le.2.2 _ _ (owns _ (by decide))) (le.2.1 writes) _
  | process static pid => exact obeys_newWithPath static release (owns _ (inside_display pid))
  | myself static => exact obeys_newWithPath static release (owns _ (by decide))
  | allProcesses static =>
    refine obeys_collected (obeys_listing (owns "." (by decide)) ?_ fun k' pid le => ?_)
    · exact fun _ _ _ le carried => ⟨owns_mono le carried.1, carried.2⟩
    · refine obeys_newWithPath (le.1 static) (le.2.2 _ _ release) (le.2.2 _ _ ?_)
      exact owns _ (inside_display pid)
  | _ => exact obeys_readValue (owns _ (by decide)) _ _

/-- A session is within its rights. -/
theorem within_session {α : Type} {p : Async α} (session : Session ε k p) :
    Within policy Plain k p := by
  induction session with
  | finish k a => exact within_pure trivial
  | process owns asks rest ih =>
    exact within_bind (obeys_process owns asks) fun k' r le carried => ih k' r le carried
  | task owns asks rest ih =>
    exact within_bind (obeys_task owns asks) fun k' r le _ => ih k' r le
  | procfs owns asks rest ih =>
    exact within_bind (obeys_instance owns asks) fun k' r le carried => ih k' r le carried

end Confinement

section OneThread

/-- The rights of a process handle alone: no static, and no writing. -/
def ofProcess (self : Process) : Rights where
  static := False
  writes := False
  reach file path := file = self.fd ∧ Inside path

end OneThread

end Sessions
