import Mathlib.Data.List.Induction
import AsyncProcfs.Permissions
import AsyncProcfs.Procfs

/-!
# Rights over open files

What a program may do with the file library: the handles it holds and the names
it may use below them, relative ones without a parent component. A handle that
is opened comes with every name below it.
-/

namespace FileRights

open ProgramRuns Permissions Text Procfs

/-- What a program may do: use the static, change files, and name paths at handles. The
empty path is the handle itself. -/
structure Rights where
  static : Prop
  writes : Prop
  reach : File → Path → Prop

instance : Preorder Rights where
  le k k' := (k.static → k'.static) ∧ (k.writes → k'.writes) ∧
    ∀ file path, k.reach file path → k'.reach file path
  le_refl _ := ⟨id, id, fun _ _ => id⟩
  le_trans _ _ _ first second := ⟨second.1 ∘ first.1, second.2.1 ∘ first.2.1,
    fun file path => second.2.2 file path ∘ first.2.2 file path⟩

/-- A name that stays below the directory it is resolved in. -/
def Inside (path : Path) : Prop := path.head? ≠ some '/' ∧ "..".toList ∉ path.splitOn '/'

instance (path : Path) : Decidable (Inside path) := inferInstanceAs (Decidable (_ ∧ _))

/-- Opening with these options may change the tree. -/
def Changes (options : OpenOptions) : Prop :=
  options.write = true ∨ options.create = true ∨ options.truncate = true

instance (options : OpenOptions) : Decidable (Changes options) :=
  inferInstanceAs (Decidable (_ ∨ _))

def permits (k : Rights) : Op → Prop
  | .load => k.static
  | .store _ => k.static
  | .sys (.openPath _ _) => False
  | .sys (.openAt dir path options) => k.reach dir path ∧ (Changes options → k.writes)
  | .sys (.readToEnd file) => k.reach file []
  | .sys (.writeAll file _) => k.reach file [] ∧ k.writes
  | .sys (.readLink file) => k.reach file []
  | .sys (.readLinkAt dir path) => k.reach dir path
  | .sys (.metadataAt file path) => k.reach file path
  | .sys (.readDir dir) => k.reach dir []

/-- A handle that was opened comes with every name below it. -/
def grant (k : Rights) : (op : Op) → op.Res → Rights
  | .sys (.openAt _ _ _), .ok file =>
    { k with reach := fun f path => k.reach f path ∨ f = file ∧ Inside path }
  | _, _ => k

theorem grant_grows (k : Rights) (op : Op) (r : op.Res) : k ≤ grant k op r := by
  cases op with
  | load => exact le_rfl
  | store value => exact le_rfl
  | sys op =>
    cases op with
    | openAt dir path options =>
      cases r with
      | ok file => exact ⟨id, id, fun _ _ => Or.inl⟩
      | error e => exact le_rfl
    | _ => exact le_rfl

/-- Only what is reached grows. -/
theorem grant_kept (k : Rights) (op : Op) (r : op.Res) :
    (grant k op r).static = k.static ∧ (grant k op r).writes = k.writes := by
  cases op with
  | load => exact ⟨rfl, rfl⟩
  | store value => exact ⟨rfl, rfl⟩
  | sys op =>
    cases op with
    | openAt dir path options =>
      cases r with
      | ok file => exact ⟨rfl, rfl⟩
      | error e => exact ⟨rfl, rfl⟩
    | _ => exact ⟨rfl, rfl⟩

def policy : Policy Op.Res Rights where
  permits := permits
  grant := grant
  grows := grant_grows

/-- Every name below the handle may be used. -/
def Owns (k : Rights) (file : File) : Prop := ∀ path, Inside path → k.reach file path

theorem owns_mono {k k' : Rights} (le : k ≤ k') {file : File} (owns : Owns k file) :
    Owns k' file :=
  fun path inside => le.2.2 file path (owns path inside)

theorem inside_nil : Inside [] := by decide

theorem owns_grant (k : Rights) (dir : File) (path : Path) (options : OpenOptions) (file : File) :
    Owns (grant k (.sys (.openAt dir path options)) (.ok file)) file :=
  fun _ inside => Or.inr ⟨rfl, inside⟩

end FileRights
