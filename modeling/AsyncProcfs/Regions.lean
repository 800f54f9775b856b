import AsyncProcfs.Sessions
import AsyncProcfs.Trees

/-!
# Regions of a tree

A region is a part of a tree that no inside name leaves. A program whose rights
stay in a region only sees and only changes its files, so sessions over disjoint
regions do not notice each other, in any interleaving, as long as none of them
uses the static. Failures, listings, links and metadata may change all the time.
-/

namespace Regions

open ProgramRuns Interleavings Permissions FileRights Sessions Text Procfs KernelVersion Processes
  Tasks Trees

section Files

structure Region where
  mem : File → Prop
  closed : ∀ file path, mem file → Inside path → mem ⟨joinPath file.label path⟩

/-- The files below a handle: what inside names lead to. -/
def below (root : File) : Region where
  mem file := ∃ names : List Path, (∀ name ∈ names, Inside name) ∧
    file.label = names.foldl joinPath root.label
  closed := by
    rintro file path ⟨names, inside, label⟩ last
    refine ⟨names ++ [path], ?_, ?_⟩
    · intro name mem
      rcases List.mem_append.mp mem with mem | mem
      · exact inside name mem
      · exact List.mem_singleton.mp mem ▸ last
    · rw [List.foldl_append, ← label]
      rfl

theorem below_self (root : File) : (below root).mem root := ⟨[], by simp, rfl⟩

/-- A path that more can be joined to with a slash. -/
def Solid (path : Path) : Prop := path ≠ [] ∧ path.getLast? ≠ some '/'

instance (path : Path) : Decidable (Solid path) := inferInstanceAs (Decidable (_ ∧ _))

/-- Below a solid root a label is the root's, or starts with it and a slash. -/
theorem below_label {root file : File} (solid : Solid root.label) (mem : (below root).mem file) :
    file.label = root.label ∨ root.label ++ ['/'] <+: file.label := by
  obtain ⟨names, inside, label⟩ := mem
  rw [label]
  clear label
  induction names using List.reverseRecOn with
  | nil => exact Or.inl rfl
  | append_singleton names name ih =>
    have relative := (inside name (by simp)).1
    have ih := ih fun n mem => inside n (List.mem_append_left [name] mem)
    rw [List.foldl_append]
    refine Or.inr ?_
    change _ <+: joinPath (names.foldl joinPath root.label) name
    rw [joinPath, if_neg relative]
    rcases ih with same | longer
    · rw [same, if_neg (not_or.mpr solid)]
      exact ⟨name, by simp⟩
    · split
      · exact longer.trans (List.prefix_append _ _)
      · exact longer.trans (List.prefix_append _ _)

end Files

section Rights

variable {R : Region} {k : Rights}

end Rights

section Isolation

variable [Platform] {ε : Type} [ProcError ε] {ι : Type} [DecidableEq ι] {α : Type}
  {A B : Pool ι Op.Res α (World Tree)} {rights : ι → Rights}

omit [Platform] in
/-- A request that may not change files changes none. -/
theorem content_unchanged (b : Behaviour) {k : Rights} (reads : ¬ k.writes) {op : Op}
    (permitted : permits k op) (w : World Tree) :
    (handle (answer b) op w).2.env.content = w.env.content := by
  cases op with
  | load => rfl
  | store value => rfl
  | sys op =>
    cases op with
    | openPath path options => exact permitted.elim
    | openAt dir path options =>
      have calm : ¬ Changes options := fun changes => reads (permitted.2 changes)
      simp only [Changes, not_or, Bool.not_eq_true] at calm
      simp only [handle, answer, OrdinaryFiles.files, OrdinaryFiles.openFile, calm]
      split
      · rfl
      · split
        · rfl
        · rfl
    | readToEnd file =>
      simp only [handle, answer, OrdinaryFiles.files]
      split <;> rfl
    | writeAll file data => exact absurd permitted.2 reads
    | _ => rfl

/-- Sessions without the right to write change no file, in any interleaving, whatever they read
and whether they look the version up or not. -/
theorem readers_change_nothing (b : Behaviour) (reads : ∀ j, ¬ (rights j).writes)
    (sessions : ∀ j, Session ε (rights j) (A.programs j))
    (reach : Reachable (serves (handle (answer b))) A B) :
    B.shared.env.content = A.shared.env.content := by
  refine @reachable_kept _ _ _ _ _ _ policy Plain ι _ (serves (handle (answer b)))
    (fun _ k => ¬ k.writes) (fun w => w.env.content = A.shared.env.content) ?_ ?_ A B rights reads
    (fun j => within_session (sessions j)) rfl reach
  · intro j k op w r w' reads _ _
    change ¬ (grant k op r).writes
    rwa [(grant_kept k op r).2]
  · intro j k op w r w' reads permitted served same
    have unchanged := content_unchanged b reads permitted w
    rw [serves] at served
    rw [served] at unchanged
    exact unchanged.trans same

end Isolation

section TwoTrees

/-- All rights over a region, but not to the static. -/
def whole (R : Region) : Rights where
  static := False
  writes := True
  reach file path := R.mem file ∧ Inside path

theorem owns_whole (root : File) : Owns (whole (below root)) root :=
  fun _ inside => ⟨below_self root, inside⟩

/-- Every path is there, each directory lists one number, and the trees run different programs. -/
def twoTrees : Behaviour where
  conditions _ := .calm
  listing _ _ := .ok [.ok (encodeUtf8 "27")]
  target _ file := .ok (encodeUtf8 (if file = ⟨"/proc/27/exe"⟩ then "/bin/ls" else "/bin/sleep"))
  metadata _ _ _ := .error (.os .notFound)

def turns (n : Nat) : List Bool := (List.replicate n [true, false]).flatten

/-- Open a process, for which the version is looked up, and follow a link of it. -/
def lookUp [Platform] : Io CoreError (Int32 × Bytes) := do
  let process ← Process.new slashProc 27
  let cwd ← Accessors.cwd process
  return (process.pid, cwd)

/-- Two clients of one tree. -/
def lookups [Platform] : Pool Bool Op.Res (Except CoreError (Int32 × Bytes)) (World Tree) where
  programs _ := lookUp.run
  shared :=
    { kernel := Version.sentinel
      env :=
        { content file := some
            (if file = ⟨"/proc/sys/kernel/osrelease"⟩ then encodeUtf8 "5.4.0-42\n" else [])
          met _ := 0 } }
  log := []

theorem readers_change_nothing_lookups :
    let B := schedule (handle (answer twoTrees)) (turns 6) (@lookups littleEndian64)
    Reachable (serves (handle (answer twoTrees))) (@lookups littleEndian64) B ∧
      B.programs true = .done (.ok (27, encodeUtf8 "/bin/sleep")) ∧
      B.shared.kernel = @Version.toU32 littleEndian64 ⟨5, 4, 0⟩ ∧
      B.shared.env.content = (@lookups littleEndian64).shared.env.content := by
  let _ := littleEndian64
  have reach := reachable_schedule (serves_self (handle (answer twoTrees))) (turns 6) lookups
  let rights : Rights := { whole (below slashProc.file) with static := True, writes := False }
  refine ⟨reach, rfl, rfl, @readers_change_nothing littleEndian64 CoreError _ Bool _ _ lookups _
    (fun _ => rights) twoTrees (fun _ => id) (fun _ => ?_) reach⟩
  have owns : Owns rights slashProc.file := owns_whole slashProc.file
  refine session_procfs_bind owns (.process trivial 27) fun k process _ carried => ?_
  exact session_process_bind carried.1 (.link List.mem_cons_self) fun k₁ cwd _ _ => .finish k₁ _

end TwoTrees

end Regions
