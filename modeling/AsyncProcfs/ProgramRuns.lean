import Mathlib.Data.List.Induction
import Mathlib.Logic.Function.Basic

/-!
# Programs as trees of typed requests

A program returns a value or issues one request and continues with its reply.
A handler answers a request and moves a state; `run` is the sequential reading
of a program under a handler. `exec` is the same reading for programs that may
stop early with an error, and `runAll` strings several programs together.
-/

namespace ProgramRuns

universe u v

/-- A finite tree of requests; `Res op` is the type of the replies to `op`. -/
inductive Prog {Op : Type u} (Res : Op → Type u) (α : Type u) : Type u where
  | done (value : α)
  | call (op : Op) (next : Res op → Prog Res α)

namespace Prog

variable {Op : Type u} {Res : Op → Type u} {α β γ : Type u}

def bind (p : Prog Res α) (f : α → Prog Res β) : Prog Res β :=
  match p with
  | .done a => f a
  | .call op next => .call op (fun r => (next r).bind f)

instance : Monad (Prog Res) where
  pure := .done
  bind := bind

theorem bind_done (p : Prog Res α) : p.bind .done = p := by
  induction p with
  | done a => rfl
  | call op next ih =>
    simp only [bind]
    congr 1
    funext r
    exact ih r

theorem bind_assoc (p : Prog Res α) (f : α → Prog Res β) (g : β → Prog Res γ) :
    (p.bind f).bind g = p.bind (fun a => (f a).bind g) := by
  induction p with
  | done a => rfl
  | call op next ih =>
    simp only [bind]
    congr 1
    funext r
    exact ih r

instance : LawfulMonad (Prog Res) :=
  LawfulMonad.mk' (Prog Res) bind_done (fun _ _ => rfl) bind_assoc

end Prog

variable {Op : Type u} {Res : Op → Type u} {α β ε : Type u} {σ : Type v}

/-- Issue one request and return its reply. -/
def request (op : Op) : Prog Res (Res op) := .call op .done

/-- A handler answers every request and moves its own state. -/
abbrev Handler (Res : Op → Type u) (σ : Type v) := (op : Op) → σ → Res op × σ

def run (h : Handler Res σ) : Prog Res α → σ → α × σ
  | .done a, s => (a, s)
  | .call op next, s => run h (next (h op s).1) (h op s).2

/-- The requests a run issues, in order. -/
def requests (h : Handler Res σ) : Prog Res α → σ → List Op
  | .done _, _ => []
  | .call op next, s => op :: requests h (next (h op s).1) (h op s).2

section Runs

variable (h : Handler Res σ) (s : σ)

@[simp] theorem run_pure (a : α) : run h (pure a) s = (a, s) := rfl

theorem run_bind (p : Prog Res α) (f : α → Prog Res β) :
    run h (p >>= f) s = run h (f (run h p s).1) (run h p s).2 := by
  induction p generalizing s with
  | done a => rfl
  | call op next ih => exact ih (h op s).1 (h op s).2

@[simp] theorem requests_pure (a : α) : requests h (pure a : Prog Res α) s = [] := rfl

theorem requests_bind (p : Prog Res α) (f : α → Prog Res β) :
    requests h (p >>= f) s =
      requests h p s ++ requests h (f (run h p s).1) (run h p s).2 := by
  induction p generalizing s with
  | done a => rfl
  | call op next ih => exact congrArg (op :: ·) (ih (h op s).1 (h op s).2)

end Runs

/-- A program that may stop early with an error. -/
abbrev Fallible (Res : Op → Type u) (ε α : Type u) := ExceptT ε (Prog Res) α

/-- Keep the outcome of a fallible program as a value instead of stopping. -/
def attempt {ε' : Type u} (p : Fallible Res ε' α) : Fallible Res ε (Except ε' α) :=
  ExceptT.lift p.run

/-- Stop with the error of a finished outcome, or go on with its value. -/
def ofOutcome (r : Except ε α) : Fallible Res ε α := ExceptT.mk (pure r)

def exec (h : Handler Res σ) (p : Fallible Res ε α) (s : σ) : Except ε α × σ :=
  run h p.run s

section Outcomes

variable (h : Handler Res σ) (s : σ)

@[simp] theorem exec_pure (a : α) :
    exec h (pure a : Fallible Res ε α) s = (.ok a, s) := rfl

@[simp] theorem exec_throw (e : ε) :
    exec h (throw e : Fallible Res ε α) s = (.error e, s) := rfl

@[simp] theorem exec_ofOutcome (r : Except ε α) :
    exec h (ofOutcome r : Fallible Res ε α) s = (r, s) := rfl

@[simp] theorem exec_lift (p : Prog Res α) :
    exec h (liftM p : Fallible Res ε α) s = (.ok (run h p s).1, (run h p s).2) := by
  change run h (p >>= fun a => pure (Except.ok a)) s = _
  rw [run_bind, run_pure]

@[simp] theorem exec_attempt {ε' : Type u} (p : Fallible Res ε' α) :
    exec h (attempt p : Fallible Res ε (Except ε' α)) s =
      (.ok (exec h p s).1, (exec h p s).2) :=
  exec_lift h s p.run

/-- The one rule for sequencing: an error skips the rest and keeps the state. -/
theorem exec_bind (p : Fallible Res ε α) (f : α → Fallible Res ε β) :
    exec h (p >>= f) s = match (exec h p s).1 with
      | .ok a => exec h (f a) (exec h p s).2
      | .error e => (.error e, (exec h p s).2) := by
  change run h (p.run >>= _) s = _
  rw [run_bind]
  change run h (ExceptT.bindCont f (exec h p s).1) (exec h p s).2 = _
  cases (exec h p s).1 with
  | ok a => rfl
  | error e => rfl

theorem exec_bind_ok {p : Fallible Res ε α} {s s' : σ} {a : α}
    (ok : exec h p s = (.ok a, s')) (f : α → Fallible Res ε β) :
    exec h (p >>= f) s = exec h (f a) s' := by
  rw [exec_bind, ok]

/-- A sequence that returns has returned from its first part. -/
theorem exec_bind_fst_eq_ok {p : Fallible Res ε α} {f : α → Fallible Res ε β} {b : β}
    (ok : (exec h (p >>= f) s).1 = .ok b) :
    ∃ a, (exec h p s).1 = .ok a ∧ (exec h (f a) (exec h p s).2).1 = .ok b := by
  rw [exec_bind] at ok
  cases first : (exec h p s).1 with
  | ok a =>
    rw [first] at ok
    exact ⟨a, rfl, ok⟩
  | error e =>
    rw [first] at ok
    cases ok

@[simp] theorem exec_map (f : α → β) (p : Fallible Res ε α) :
    exec h (f <$> p) s = ((exec h p s).1.map f, (exec h p s).2) := by
  rw [← bind_pure_comp, exec_bind]
  cases (exec h p s).1 with
  | ok a => rfl
  | error e => rfl

/-- A fallible program issues the requests of its second part only after success. -/
theorem requests_run_bind (p : Fallible Res ε α) (f : α → Fallible Res ε β) :
    requests h (p >>= f).run s = requests h p.run s ++ match (exec h p s).1 with
      | .ok a => requests h (f a).run (exec h p s).2
      | .error _ => [] := by
  change requests h (p.run >>= _) s = _
  rw [requests_bind]
  congr 1
  change requests h (ExceptT.bindCont f (exec h p s).1) (exec h p s).2 = _
  cases (exec h p s).1 with
  | ok a => rfl
  | error e => rfl

theorem requests_attempt {ε' : Type u} (p : Fallible Res ε' α) :
    requests h (attempt p : Fallible Res ε (Except ε' α)).run s = requests h p.run s := by
  change requests h (p.run >>= fun a => pure (Except.ok a)) s = _
  rw [requests_bind, requests_pure, List.append_nil]

end Outcomes

/-- `Issues P p`: whatever the replies, the program issues only requests satisfying `P`. -/
def Issues (P : Op → Prop) : Prog Res α → Prop
  | .done _ => True
  | .call op next => P op ∧ ∀ r, Issues P (next r)

theorem issues_bind {P : Op → Prop} {p : Prog Res α} {f : α → Prog Res β}
    (first : Issues P p) (rest : ∀ a, Issues P (f a)) : Issues P (p >>= f) := by
  induction p with
  | done a => exact rest a
  | call op next ih => exact ⟨first.1, fun r => ih r (first.2 r)⟩

theorem issues_run_bind {P : Op → Prop} {p : Fallible Res ε α} {f : α → Fallible Res ε β}
    (first : Issues P p.run) (rest : ∀ a, Issues P (f a).run) : Issues P (p >>= f).run := by
  refine issues_bind first fun r => ?_
  cases r with
  | ok a => exact rest a
  | error e => trivial

theorem issues_lift {P : Op → Prop} {p : Prog Res α} (first : Issues P p) :
    Issues P (liftM p : Fallible Res ε α).run :=
  issues_bind first fun _ => trivial

theorem issues_ofOutcome {P : Op → Prop} (r : Except ε α) :
    Issues P (ofOutcome r : Fallible Res ε α).run := trivial

theorem issues_mono {P Q : Op → Prop} (implies : ∀ op, P op → Q op) {p : Prog Res α}
    (issues : Issues P p) : Issues Q p := by
  induction p with
  | done a => trivial
  | call op next ih => exact ⟨implies op issues.1, fun r => ih r (issues.2 r)⟩

theorem issues_requests {P : Op → Prop} (h : Handler Res σ) {p : Prog Res α}
    (issues : Issues P p) (s : σ) : ∀ op ∈ requests h p s, P op := by
  induction p generalizing s with
  | done a => simp [requests]
  | call op next ih =>
    intro op' mem
    rcases List.mem_cons.mp mem with rfl | mem
    · exact issues.1
    · exact ih _ (issues.2 _) _ op' mem

/-- A view of the state that no issued request moves is the same after the run. -/
theorem run_view {V : Type*} {P : Op → Prop} {h : Handler Res σ} (view : σ → V)
    (still : ∀ op, P op → ∀ s, view (h op s).2 = view s) {p : Prog Res α}
    (issues : Issues P p) (s : σ) : view (run h p s).2 = view s := by
  induction p generalizing s with
  | done a => rfl
  | call op next ih =>
    exact (ih _ (issues.2 _) _).trans (still op issues.1 s)

/-- Run one program after another, each under its own handler. -/
def runAll : List (Handler Res σ × Prog Res α) → σ → List α × σ
  | [], s => ([], s)
  | (h, p) :: rest, s =>
    let first := run h p s
    let tail := runAll rest first.2
    (first.1 :: tail.1, tail.2)

theorem runAll_append (before after : List (Handler Res σ × Prog Res α)) (s : σ) :
    runAll (before ++ after) s =
      ((runAll before s).1 ++ (runAll after (runAll before s).2).1,
        (runAll after (runAll before s).2).2) := by
  induction before generalizing s with
  | nil => rfl
  | cons first rest ih => simp only [List.cons_append, runAll, ih]

section Calls

universe w

variable {C : Type w} {Call : Type u} {Ans : Call → Type u} (under : C → Handler Res σ)
  (program : (call : Call) → Prog Res (Ans call))

/-- Calls one after another, each under the handler its conditions give, with what it returned. -/
def runEach (calls : List (C × Call)) (s : σ) : List ((call : Call) × Ans call) × σ :=
  runAll (calls.map fun x => (under x.1, (fun r => ⟨x.2, r⟩) <$> program x.2)) s

theorem runEach_snoc (calls : List (C × Call)) (x : C × Call) (s : σ) :
    let before := runEach under program calls s
    let out := run (under x.1) (program x.2) before.2
    runEach under program (calls ++ [x]) s = (before.1 ++ [⟨x.2, out.1⟩], out.2) := by
  intro before out
  rw [runEach, List.map_append, runAll_append]
  simp only [List.map_cons, List.map_nil, runAll, ← bind_pure_comp, run_bind, run_pure]
  rfl

variable {under program}

/-- What every call keeps, a run of them keeps. -/
theorem runEach_kept {P : List ((call : Call) × Ans call) → σ → Prop} {calls : List (C × Call)}
    {s : σ} (start : P [] s)
    (step : ∀ events now, ∀ x ∈ calls, P events now →
      P (events ++ [⟨x.2, (run (under x.1) (program x.2) now).1⟩])
        (run (under x.1) (program x.2) now).2) :
    P (runEach under program calls s).1 (runEach under program calls s).2 := by
  induction calls using List.reverseRecOn with
  | nil => exact start
  | append_singleton calls x ih =>
    rw [runEach_snoc]
    refine step _ _ x (by simp) (ih fun events now y mem => ?_)
    exact step events now y (List.mem_append_left [x] mem)

end Calls

end ProgramRuns
