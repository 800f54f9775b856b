import AsyncProcfs.OrdinaryFiles

/-!
# A tree with directories, links and metadata

Its files behave as ordinary ones. What a directory lists, where a link leads and
what the metadata say is up to the kernel, and may be different at every request,
as may failures and the white space around contents. Every request is about one
file: it is answered by that file's part of the tree, and changes no other part.
-/

namespace Trees

open ProgramRuns Text Procfs OrdinaryFiles

section Subjects

/-- The file a request is about. -/
def subject : SysOp → File
  | .openPath path _ => ⟨path⟩
  | .openAt dir path _ => ⟨joinPath dir.label path⟩
  | .readToEnd file => file
  | .writeAll file _ => file
  | .readLink file => file
  | .readLinkAt dir path => ⟨joinPath dir.label path⟩
  | .metadataAt file path => if path = [] then file else ⟨joinPath file.label path⟩
  | .readDir dir => dir

theorem openFile_local (c : Conditions) (file : File) (options : OpenOptions) {s t : Files}
    (same : s file = t file) :
    (openFile c file options s).1 = (openFile c file options t).1 ∧
      (openFile c file options s).2 file = (openFile c file options t).2 file ∧
      ∀ other, other ≠ file → (openFile c file options s).2 other = s other := by
  have others (u : Files) (v : Option Bytes) (other : File) (apart : other ≠ file) :
      Function.update u file v other = u other := Function.update_of_ne apart v u
  simp only [openFile, same]
  cases c.openError file options with
  | some e => exact ⟨rfl, same, fun _ _ => rfl⟩
  | none =>
    cases t file with
    | none =>
      cases options.create with
      | true => exact ⟨rfl, by simp, others s _⟩
      | false => exact ⟨rfl, same, fun _ _ => rfl⟩
    | some content =>
      cases options.truncate with
      | true => exact ⟨rfl, by simp, others s _⟩
      | false => exact ⟨rfl, same, fun _ _ => rfl⟩

theorem openFile_label {c : Conditions} {file opened : File} {options : OpenOptions} {s : Files}
    (ok : (openFile c file options s).1 = .ok opened) : opened = file := by
  simp only [openFile] at ok
  split at ok
  · cases ok
  · split at ok
    · split at ok
      · exact (Except.ok.inj ok).symm
      · cases ok
    · exact (Except.ok.inj ok).symm

/-- An answer depends on the file it is about, and only that file changes. -/
theorem files_local (c : Conditions) (op : SysOp) {s t : Files}
    (same : s (subject op) = t (subject op)) :
    (files c op s).1 = (files c op t).1 ∧
      (files c op s).2 (subject op) = (files c op t).2 (subject op) ∧
      ∀ other, other ≠ subject op → (files c op s).2 other = s other := by
  cases op with
  | openPath path options => exact openFile_local c _ options same
  | openAt dir path options => exact openFile_local c _ options same
  | readToEnd file =>
    have same : s file = t file := same
    simp only [files, same, subject]
    refine ⟨?_, ?_, fun other apart => ?_⟩
    · split <;> rfl
    · split <;> exact same
    · split <;> rfl
  | writeAll file data =>
    have same : s file = t file := same
    simp only [files, same, subject]
    refine ⟨?_, ?_, fun other apart => ?_⟩
    · split <;> rfl
    · split <;> simp
    · split <;> simp [Function.update_of_ne apart]
  | _ => exact ⟨rfl, same, fun _ _ => rfl⟩

end Subjects

section Kernel

/-- Contents, and how many requests there were about each file. -/
structure Tree where
  content : Files
  met : File → Nat

/-- What a request meets, by how many there were about its file before it. -/
structure Behaviour where
  conditions : Nat → Conditions
  listing : Nat → File → Except IoError (List (Except IoError Bytes))
  target : Nat → File → Except IoError Bytes
  metadata : Nat → File → Option Bytes → Except IoError Metadata

/-- Contents are those of ordinary files, and every request counts for its file. -/
def answer (b : Behaviour) : System Tree := fun op s =>
  let file := subject op
  let n := s.met file
  let met := Function.update s.met file (n + 1)
  match op with
  | .readLink _ => (b.target n file, { s with met })
  | .readLinkAt _ _ => (b.target n file, { s with met })
  | .metadataAt _ _ => (b.metadata n file (s.content file), { s with met })
  | .readDir _ => (b.listing n file, { s with met })
  | op =>
    let out := files (b.conditions n) op s.content
    (out.1, { content := out.2, met })

/-- Two trees have the same part at a file. -/
structure SameAt (file : File) (s t : Tree) : Prop where
  content : s.content file = t.content file
  met : s.met file = t.met file

theorem SameAt.trans {file : File} {s t u : Tree} (first : SameAt file s t)
    (second : SameAt file t u) : SameAt file s u :=
  ⟨first.content.trans second.content, first.met.trans second.met⟩

theorem SameAt.symm {file : File} {s t : Tree} (same : SameAt file s t) : SameAt file t s :=
  ⟨same.content.symm, same.met.symm⟩

variable (b : Behaviour) (op : SysOp)

end Kernel

end Trees
