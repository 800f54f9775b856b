import Mathlib.Logic.Relation
import AsyncProcfs.Cells
import AsyncProcfs.ProgramRuns

/-!
# Interleaved programs over a shared state

Any number of programs take turns: one step answers the next request of one
program and moves the shared state. The log keeps every answered request in
order. Two facts hold of every reachable pool and carry the safety arguments:
a program is what its own part of the log leaves of it, and the whole log is
one sequence of permitted effects on the shared state.
-/

namespace Interleavings

open ProgramRuns Cells

universe u v w

/-- One answered request and the program that issued it. -/
structure Event (ι : Type w) {Op : Type u} (Res : Op → Type u) where
  who : ι
  op : Op
  reply : Res op

structure Pool (ι : Type w) {Op : Type u} (Res : Op → Type u) (α : Type u) (σ : Type v) where
  programs : ι → Prog Res α
  shared : σ
  log : List (Event ι Res)

/-- Which replies and next states a request permits in a state. -/
abbrev Effects {Op : Type u} (Res : Op → Type u) (σ : Type v) :=
  (op : Op) → σ → Res op → σ → Prop

variable {ι : Type w} {Op : Type u} {Res : Op → Type u} {α : Type u} {σ : Type v}

/-- The effects of a handler: its answer, and no other. -/
def serves (h : Handler Res σ) : Effects Res σ := fun op s r s' => h op s = (r, s')

theorem serves_self (h : Handler Res σ) (op : Op) (s : σ) : serves h op s (h op s).1 (h op s).2 := rfl

inductive Step [DecidableEq ι] (eff : Effects Res σ) (P : Pool ι Res α σ) :
    Pool ι Res α σ → Prop
  | act (i : ι) (op : Op) (next : Res op → Prog Res α) (reply : Res op) (after : σ)
      (ready : P.programs i = .call op next) (allowed : eff op P.shared reply after) :
      Step eff P
        { programs := Function.update P.programs i (next reply)
          shared := after
          log := P.log ++ [⟨i, op, reply⟩] }

def Reachable [DecidableEq ι] (eff : Effects Res σ) :
    Pool ι Res α σ → Pool ι Res α σ → Prop :=
  Relation.ReflTransGen (Step eff)

/-- What one step preserves holds in every reachable pool. -/
theorem reachable_invariant [DecidableEq ι] {eff : Effects Res σ} {P Q : Pool ι Res α σ}
    (Inv : Pool ι Res α σ → Prop) (init : Inv P)
    (step : ∀ A B, Inv A → Step eff A B → Inv B) (reach : Reachable eff P Q) : Inv Q := by
  induction reach with
  | refl => exact init
  | tail _ edge ih => exact step _ _ ih edge

/-- The requests one program got answered, with their replies, in order. -/
def ownEvents [DecidableEq ι] (i : ι) (log : List (Event ι Res)) : List (Sigma Res) :=
  log.filterMap fun e => if e.who = i then some ⟨e.op, e.reply⟩ else none

theorem mem_ownEvents [DecidableEq ι] {i : ι} {log : List (Event ι Res)} {op : Op}
    {reply : Res op} : ⟨op, reply⟩ ∈ ownEvents i log ↔ ⟨i, op, reply⟩ ∈ log := by
  simp only [ownEvents, List.mem_filterMap]
  constructor
  · rintro ⟨⟨who, op', reply'⟩, mem, same⟩
    split at same
    · rename_i owner
      dsimp only at owner same
      cases same
      exact owner ▸ mem
    · cases same
  · intro mem
    exact ⟨_, mem, by simp⟩

theorem ownEvents_append [DecidableEq ι] (i : ι) (first second : List (Event ι Res)) :
    ownEvents i (first ++ second) = ownEvents i first ++ ownEvents i second :=
  List.filterMap_append

/-- `Residual p events q`: answering `events` in order leaves `q` of `p`. -/
inductive Residual : Prog Res α → List (Sigma Res) → Prog Res α → Prop
  | here (p : Prog Res α) : Residual p [] p
  | answer {op : Op} {next : Res op → Prog Res α} {reply : Res op}
      {events : List (Sigma Res)} {q : Prog Res α} (rest : Residual (next reply) events q) :
      Residual (.call op next) (⟨op, reply⟩ :: events) q

theorem Residual.snoc {p : Prog Res α} {events : List (Sigma Res)} {op : Op}
    {next : Res op → Prog Res α} (left : Residual p events (.call op next))
    (reply : Res op) : Residual p (events ++ [⟨op, reply⟩]) (next reply) := by
  generalize target : Prog.call op next = q at left
  induction left with
  | here p =>
    subst target
    exact .answer (.here _)
  | answer _ ih => exact .answer (ih target)

/-- Answering a first part of the events already leaves some program. -/
theorem Residual.take {p q : Prog Res α} {first second : List (Sigma Res)}
    (left : Residual p (first ++ second) q) : ∃ middle, Residual p first middle := by
  induction first generalizing p with
  | nil => exact ⟨p, .here p⟩
  | cons event first ih =>
    cases left with
    | answer rest =>
      obtain ⟨middle, left⟩ := ih rest
      exact ⟨middle, .answer left⟩

theorem residual_done_iff {a : α} {events : List (Sigma Res)} {q : Prog Res α} :
    Residual (.done a) events q ↔ events = [] ∧ q = .done a := by
  constructor
  · intro left
    cases left
    exact ⟨rfl, rfl⟩
  · rintro ⟨rfl, rfl⟩
    exact .here _

theorem residual_call_iff {op : Op} {next : Res op → Prog Res α}
    {events : List (Sigma Res)} {q : Prog Res α} :
    Residual (.call op next) events q ↔ (events = [] ∧ q = .call op next) ∨
      ∃ reply rest, events = ⟨op, reply⟩ :: rest ∧ Residual (next reply) rest q := by
  constructor
  · intro left
    cases left with
    | here => exact Or.inl ⟨rfl, rfl⟩
    | answer rest => exact Or.inr ⟨_, _, rfl, rest⟩
  · rintro (⟨rfl, rfl⟩ | ⟨reply, rest, rfl, left⟩)
    · exact .here _
    · exact .answer left

/-- Every program of a reachable pool is what its own log entries leave of it. -/
theorem reachable_residual [DecidableEq ι] {eff : Effects Res σ} {P Q : Pool ι Res α σ}
    (fresh : P.log = []) (reach : Reachable eff P Q) (i : ι) :
    Residual (P.programs i) (ownEvents i Q.log) (Q.programs i) := by
  refine reachable_invariant
    (fun A => Residual (P.programs i) (ownEvents i A.log) (A.programs i)) ?_ ?_ reach
  · rw [fresh]
    exact .here _
  · rintro A B inv ⟨j, op, next, reply, after, ready, -⟩
    by_cases own : j = i
    · subst own
      rw [ready] at inv
      simpa [ownEvents] using inv.snoc reply
    · have other : i ≠ j := fun same => own same.symm
      simpa [ownEvents, own, other] using inv

/-- A program left alone runs as under a handler with permitted answers. -/
theorem reachable_run [DecidableEq ι] {eff : Effects Res σ} {h : Handler Res σ}
    (permitted : ∀ op s, eff op s (h op s).1 (h op s).2) (P : Pool ι Res α σ) (i : ι)
    {a : α} {s : σ} (ran : run h (P.programs i) P.shared = (a, s)) :
    ∃ log, Reachable eff P
      { programs := Function.update P.programs i (.done a)
        shared := s
        log := P.log ++ log } := by
  generalize start : P.programs i = p at ran
  induction p generalizing P with
  | done b =>
    cases ran
    refine ⟨[], ?_⟩
    rw [List.append_nil, ← start, Function.update_eq_self]
    exact .refl
  | call op next ih =>
    have step := Step.act i op next (h op P.shared).1 (h op P.shared).2 start
      (permitted op P.shared)
    obtain ⟨log, rest⟩ := ih (h op P.shared).1
      { programs := Function.update P.programs i (next (h op P.shared).1)
        shared := (h op P.shared).2
        log := P.log ++ [⟨i, op, (h op P.shared).1⟩] } (Function.update_self i _ _) ran
    refine ⟨⟨i, op, (h op P.shared).1⟩ :: log, ?_⟩
    rw [Function.update_idem, List.append_assoc] at rest
    exact Relation.ReflTransGen.head step rest

/-- Let the programs act in the order of a list; one that has ended is passed over. -/
def schedule [DecidableEq ι] (h : Handler Res σ) : List ι → Pool ι Res α σ → Pool ι Res α σ
  | [], P => P
  | i :: order, P => match P.programs i with
    | .done _ => schedule h order P
    | .call op next => schedule h order
        { programs := Function.update P.programs i (next (h op P.shared).1)
          shared := (h op P.shared).2
          log := P.log ++ [⟨i, op, (h op P.shared).1⟩] }

theorem reachable_schedule [DecidableEq ι] {eff : Effects Res σ} {h : Handler Res σ}
    (permitted : ∀ op s, eff op s (h op s).1 (h op s).2) (order : List ι) (P : Pool ι Res α σ) :
    Reachable eff P (schedule h order P) := by
  induction order generalizing P with
  | nil => exact .refl
  | cons i order ih =>
    rw [schedule]
    split
    · exact ih P
    · rename_i op next ready
      exact .head (.act i op next _ _ ready (permitted op P.shared)) (ih _)

/-- `Path s log t`: the logged effects lead from `s` to `t`, one after another. -/
inductive Path (eff : Effects Res σ) (s : σ) : List (Event ι Res) → σ → Prop
  | start : Path eff s [] s
  | snoc {log : List (Event ι Res)} {t t' : σ} {e : Event ι Res}
      (path : Path eff s log t) (allowed : eff e.op t e.reply t') :
      Path eff s (log ++ [e]) t'

theorem reachable_path [DecidableEq ι] {eff : Effects Res σ} {P Q : Pool ι Res α σ}
    (fresh : P.log = []) (reach : Reachable eff P Q) :
    Path eff P.shared Q.log Q.shared := by
  refine reachable_invariant (fun A => Path eff P.shared A.log A.shared) ?_ ?_ reach
  · rw [fresh]
    exact .start
  · rintro A B inv ⟨j, op, next, reply, after, -, allowed⟩
    exact .snoc (e := ⟨j, op, reply⟩) inv allowed

section Cell

variable {V : Type*} {eff : Effects Res σ} (view : σ → V) (writes : Op → Option V)

/-- A part of the state that only some requests write holds the last value written. -/
theorem path_lastWrite
    (cell : ∀ op s r s', eff op s r s' → view s' = (writes op).getD (view s))
    {s t : σ} {log : List (Event ι Res)} (path : Path eff s log t) :
    view t = lastWrite (fun e => writes e.op) (view s) log := by
  induction path with
  | start => rfl
  | snoc _ allowed ih => rw [lastWrite_snoc, cell _ _ _ _ allowed, ih]

/-- Every logged effect took place in the state that the log before it leads to. -/
theorem path_at {s t : σ} {before after : List (Event ι Res)} {e : Event ι Res}
    (path : Path eff s (before ++ e :: after) t) :
    ∃ u u', Path eff s before u ∧ eff e.op u e.reply u' := by
  induction after using List.reverseRecOn generalizing t with
  | nil =>
    generalize whole : before ++ [e] = log at path
    cases path with
    | start => simp at whole
    | snoc rest allowed =>
      obtain ⟨rfl, last⟩ := List.append_inj' whole rfl
      cases last
      exact ⟨_, _, rest, allowed⟩
  | append_singleton after last ih =>
    generalize whole : before ++ e :: (after ++ [last]) = log at path
    cases path with
    | start => simp at whole
    | snoc rest _ =>
      rw [← List.cons_append, ← List.append_assoc] at whole
      obtain ⟨rfl, -⟩ := List.append_inj' whole rfl
      exact ih rest

end Cell

end Interleavings
