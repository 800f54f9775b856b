import AsyncProcfs.Regions

/-!
# Process numbers that are used again

A name at the root leads to the directory that has the number now, while a
handle stays with the directory it was opened on. Between any two requests the
kernel's table may change in any way, and every request may fail in its own way.
A session on a process gives what that process's own directory gives: what else
happens, to its number too, makes no difference.
-/

namespace ReusedNumbers

open ProgramRuns Permissions FileRights Sessions Regions Text Procfs KernelVersion Processes
  ProcessFiles OrdinaryFiles Trees

section Kernel

/-- Contents, listings, targets and metadata by label, and what the names at the root lead to. -/
structure Table where
  tree : Files
  listing : File → Except IoError (List (Except IoError Bytes))
  target : File → Except IoError Bytes
  metadata : File → Except IoError Metadata
  bound : Path → Option File

/-- The empty path is the handle's own; at the root a name leads where it is bound now. -/
def resolve (root : File) (s : Table) (dir : File) (path : Path) : Except IoError File :=
  if path = [] then .ok dir
  else if dir = root then match s.bound path with
    | some file => .ok file
    | none => .error (.os .notFound)
  else .ok ⟨joinPath dir.label path⟩

/-- One answer; ordinary files behave as in a tree of their own. -/
def answer (c : Conditions) (root : File) : System Table
  | .openAt dir path options, s => match resolve root s dir path with
    | .error e => (.error e, s)
    | .ok file =>
      let out := openFile c file options s.tree
      (out.1, { s with tree := out.2 })
  | .readLinkAt dir path, s => (resolve root s dir path >>= s.target, s)
  | .metadataAt dir path, s => (resolve root s dir path >>= s.metadata, s)
  | .readLink file, s => (s.target file, s)
  | .readDir dir, s => (s.listing dir, s)
  | op, s =>
    let out := files c op s.tree
    (out.1, { s with tree := out.2 })

/-- The table changes before every answer; `churn` says how, by the time. -/
def changing (c : Nat → Conditions) (root : File) (churn : Nat → Table → Table) :
    System (Nat × Table) := fun op s =>
  let out := answer (c s.1) root op (churn s.1 s.2)
  (out.1, (s.1 + 1, out.2))

end Kernel

section Directories

variable {R : Region} {root : File} {lasting : Path → Prop} {k : Rights}

/-- Rights in the region, and on names at the root that are not bound anew. -/
def Near (R : Region) (root : File) (lasting : Path → Prop) (k : Rights) : Prop :=
  ∀ file path, k.reach file path →
    (R.mem file ∧ Inside path) ∨ (file = root ∧ path ≠ [] ∧ lasting path)

/-- Two tables agree on the region, and on the lasting names, which lead into it. -/
structure Alike (R : Region) (lasting : Path → Prop) (s t : Table) : Prop where
  tree : ∀ file, R.mem file → s.tree file = t.tree file
  listing : ∀ file, R.mem file → s.listing file = t.listing file
  target : ∀ file, R.mem file → s.target file = t.target file
  metadata : ∀ file, R.mem file → s.metadata file = t.metadata file
  names : ∀ path, lasting path →
    ∃ file, R.mem file ∧ s.bound path = some file ∧ t.bound path = some file

theorem alike_tree {s t : Table} {u v : Files} (alike : Alike R lasting s t)
    (agree : ∀ file, R.mem file → u file = v file) :
    Alike R lasting { s with tree := u } { t with tree := v } :=
  { alike with tree := agree }

theorem openFile_alike (c : Conditions) {file : File} (mem : R.mem file) (options : OpenOptions)
    {s t : Table} (alike : Alike R lasting s t) :
    (openFile c file options s.tree).1 = (openFile c file options t.tree).1 ∧
      Alike R lasting { s with tree := (openFile c file options s.tree).2 }
        { t with tree := (openFile c file options t.tree).2 } := by
  obtain ⟨reply, own, others⟩ := openFile_local c file options (alike.tree file mem)
  have others' := (openFile_local c file options (rfl : t.tree file = t.tree file)).2.2
  refine ⟨reply, alike_tree alike fun f inside => ?_⟩
  by_cases same : f = file
  · exact same ▸ own
  · exact (others f same).trans ((alike.tree f inside).trans (others' f same).symm)

/-- A request about a file of the region. -/
theorem files_alike (c : Conditions) {op : SysOp} (within : R.mem (subject op)) {s t : Table}
    (alike : Alike R lasting s t) :
    (files c op s.tree).1 = (files c op t.tree).1 ∧
      Alike R lasting { s with tree := (files c op s.tree).2 }
        { t with tree := (files c op t.tree).2 } := by
  obtain ⟨reply, own, others⟩ := files_local c op (alike.tree _ within)
  have others' := (@files_local c op t.tree t.tree rfl).2.2
  refine ⟨reply, alike_tree alike fun f inside => ?_⟩
  by_cases same : f = subject op
  · exact same ▸ own
  · exact (others f same).trans ((alike.tree f inside).trans (others' f same).symm)

variable (outside : ¬ R.mem root) (near : Near R root lasting k)
include outside near

/-- A name that the rights reach leads to one file of the region, in both tables. -/
theorem resolve_alike {dir : File} {path : Path} (reached : k.reach dir path) {s t : Table}
    (alike : Alike R lasting s t) :
    ∃ file, R.mem file ∧ resolve root s dir path = .ok file ∧ resolve root t dir path = .ok file := by
  rcases near dir path reached with ⟨mem, inside⟩ | ⟨rfl, named, lasts⟩
  · by_cases own : path = []
    · exact ⟨dir, mem, by rw [resolve, if_pos own], by rw [resolve, if_pos own]⟩
    · have elsewhere : dir ≠ root := fun same => outside (same ▸ mem)
      refine ⟨_, R.closed dir path mem inside, ?_, ?_⟩
      · rw [resolve, if_neg own, if_neg elsewhere]
      · rw [resolve, if_neg own, if_neg elsewhere]
  · obtain ⟨file, mem, found, found'⟩ := alike.names path lasts
    refine ⟨file, mem, ?_, ?_⟩
    · rw [resolve, if_neg named, if_pos rfl, found]
    · rw [resolve, if_neg named, if_pos rfl, found']

/-- Tables that agree on what the rights reach answer alike, and agree after it. -/
theorem answer_alike (c : Conditions) {op : SysOp} (permitted : permits k (.sys op)) {s t : Table}
    (alike : Alike R lasting s t) :
    (answer c root op s).1 = (answer c root op t).1 ∧
      Alike R lasting (answer c root op s).2 (answer c root op t).2 := by
  have inRegion {file : File} (own : k.reach file []) : R.mem file := by
    rcases near file [] own with ⟨mem, -⟩ | ⟨-, named, -⟩
    · exact mem
    · exact absurd rfl named
  cases op with
  | openPath path options => exact permitted.elim
  | openAt dir path options =>
    obtain ⟨file, mem, found, found'⟩ := resolve_alike outside near permitted.1 alike
    simp only [answer, found, found']
    exact openFile_alike c mem options alike
  | readLinkAt dir path =>
    obtain ⟨file, mem, found, found'⟩ := resolve_alike outside near permitted alike
    simp only [answer, found, found']
    exact ⟨alike.target file mem, alike⟩
  | metadataAt dir path =>
    obtain ⟨file, mem, found, found'⟩ := resolve_alike outside near permitted alike
    simp only [answer, found, found']
    exact ⟨alike.metadata file mem, alike⟩
  | readLink file => exact ⟨alike.target file (inRegion permitted), alike⟩
  | readDir dir => exact ⟨alike.listing dir (inRegion permitted), alike⟩
  | readToEnd file => exact @files_alike _ _ c (.readToEnd file) (inRegion permitted) _ _ alike
  | writeAll file data =>
    exact @files_alike _ _ c (.writeAll file data) (inRegion permitted.1) _ _ alike

/-- What is opened lies in the region. -/
theorem grant_near (c : Conditions) {op : SysOp} (permitted : permits k (.sys op)) {s t : Table}
    (alike : Alike R lasting s t) :
    Near R root lasting (grant k (.sys op) (answer c root op s).1) := by
  cases op with
  | openAt dir path options =>
    obtain ⟨found, mem, resolved, -⟩ := resolve_alike outside near permitted.1 alike
    cases replied : (answer c root (.openAt dir path options) s).1 with
    | error e => exact near
    | ok opened =>
      simp only [answer, resolved] at replied
      obtain rfl := openFile_label replied
      intro file name reached
      rcases reached with reached | ⟨rfl, inside⟩
      · exact near file name reached
      · exact Or.inl ⟨mem, inside⟩
  | _ => exact near

end Directories

section Sessions

variable [Platform] {ε : Type} [ProcError ε] {R : Region} {root : File} {lasting : Path → Prop}
  {k : Rights}

/-- Two worlds are at the same time, agree on what the rights reach, and on the static if
the rights include it. -/
structure Same (R : Region) (lasting : Path → Prop) (k : Rights) (w t : World (Nat × Table)) :
    Prop where
  time : w.env.1 = t.env.1
  tables : Alike R lasting w.env.2 t.env.2
  static : k.static → w.kernel = t.kernel

/-- A session on a process gives the same result in two histories of the kernel that treat the
process's own directory alike, whatever else they do: to its number, which may lead elsewhere,
to other processes, and to the static unless the version is looked up. -/
theorem session_follows_directory (c : Nat → Conditions) (outside : ¬ R.mem root)
    (near : Near R root lasting k) {churn churn' : Nat → Table → Table}
    (alike : ∀ n s t, Alike R lasting s t → Alike R lasting (churn n s) (churn' n t)) {α : Type}
    {p : Async α} (session : Session ε k p) {w t : World (Nat × Table)} (same : Same R lasting k w t) :
    (run (handle (changing c root churn')) p t).1 = (run (handle (changing c root churn)) p w).1 ∧
      Alike R lasting (run (handle (changing c root churn)) p w).2.env.2
        (run (handle (changing c root churn')) p t).2.env.2 := by
  have simulation := @within_simulation _ _ _ _ _ _ _ policy Plain k
    (handle (changing c root churn)) (handle (changing c root churn'))
    (fun k w t => Near R root lasting k ∧ Same R lasting k w t) ?_ p (within_session session) w t
    ⟨near, same⟩
  · exact ⟨simulation.1, simulation.2.2.tables⟩
  · rintro k op w t permitted ⟨near, same⟩
    cases op with
    | load => exact ⟨(same.static permitted).symm, near, same⟩
    | store value => exact ⟨rfl, near, same.time, same.tables, fun _ => rfl⟩
    | sys op =>
      have before := alike w.env.1 _ _ same.tables
      obtain ⟨reply, after⟩ := answer_alike outside near (c w.env.1) permitted before
      have opened := grant_near outside near (c w.env.1) permitted before
      refine ⟨?_, opened, congrArg (· + 1) same.time, ?_, fun static => same.static ?_⟩
      · simp only [handle, changing, ← same.time]
        exact reply.symm
      · simp only [handle, changing, ← same.time]
        exact after
      · rwa [policy, (grant_kept k _ _).1] at static

end Sessions

section SecondOwner

/-- Process 27, by its first directory. -/
def firstOwner : Process where
  fd := ⟨"/proc#1/27"⟩
  pid := 27
  path := "/proc/27"
  procfs := slashProc

/-- Two directories; the number leads to the first. -/
def twoOwners : Table where
  tree file := if file = ⟨"/proc#1/27/wchan"⟩ then some (encodeUtf8 "do_wait")
    else if file = ⟨"/proc#2/27/wchan"⟩ then some (encodeUtf8 "ep_poll") else none
  listing _ := .error (.os .notFound)
  target _ := .error (.os .notFound)
  metadata _ := .error (.os .notFound)
  bound path := if path = "27" then some ⟨"/proc#1/27"⟩ else none

/-- The number passes to the second directory, whose process goes on elsewhere. -/
def passOn (_ : Nat) (s : Table) : Table where
  tree := Function.update s.tree ⟨"/proc#2/27/wchan"⟩ (some (encodeUtf8 "pipe_read"))
  listing := s.listing
  target := s.target
  metadata := s.metadata
  bound path := if path = "27" then some ⟨"/proc#2/27"⟩ else s.bound path

theorem passOn_alike (n : Nat) {s t : Table}
    (alike : Alike (below firstOwner.fd) (fun _ => False) s t) :
    Alike (below firstOwner.fd) (fun _ => False) s (passOn n t) := by
  refine { alike with tree := fun file mem => ?_, names := fun _ lasts => lasts.elim }
  have apart : file ≠ ⟨"/proc#2/27/wchan"⟩ := by
    rintro rfl
    rcases below_label (by decide) mem with same | longer
    · exact absurd same (by decide)
    · exact absurd longer (by decide)
  exact (alike.tree file mem).trans (Function.update_of_ne apart _ _).symm

theorem session_follows_directory_passOn :
    (run (handle (changing (fun _ => .calm) ⟨"/proc"⟩ passOn))
        ((Accessors.wchan firstOwner : Io CoreError Str).run >>= pure) ⟨0, 0, twoOwners⟩).1 =
      .ok "do_wait" ∧
    (passOn 0 twoOwners).bound "27" = some ⟨"/proc#2/27"⟩ := by
  let _ := littleEndian64
  have outside : ¬ (below firstOwner.fd).mem ⟨"/proc"⟩ := by
    intro mem
    rcases below_label (by decide) mem with same | longer
    · exact absurd same (by decide)
    · exact absurd longer (by decide)
  have near : Near (below firstOwner.fd) ⟨"/proc"⟩ (fun _ => False) (ofProcess firstOwner) := by
    rintro file path ⟨rfl, inside⟩
    exact Or.inl ⟨below_self _, inside⟩
  have owns : Owns (ofProcess firstOwner) firstOwner.fd := fun path inside => ⟨rfl, inside⟩
  have session : Session CoreError (ofProcess firstOwner)
      ((Accessors.wchan firstOwner : Io CoreError Str).run >>= pure) :=
    .process owns (.text (by simp)) fun k r _ _ => .finish k r
  have same : Same (below firstOwner.fd) (fun _ => False) (ofProcess firstOwner)
      ⟨0, 0, twoOwners⟩ ⟨0, 0, twoOwners⟩ :=
    ⟨rfl, ⟨fun _ _ => rfl, fun _ _ => rfl, fun _ _ => rfl, fun _ _ => rfl, fun _ => False.elim⟩,
      fun _ => rfl⟩
  have follows := session_follows_directory (fun _ => .calm) outside near
    (fun n _ _ alike => passOn_alike n alike) session same
  exact ⟨follows.1, rfl⟩

end SecondOwner

end ReusedNumbers
