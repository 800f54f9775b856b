import Mathlib.Order.Basic
import AsyncProcfs.EntryLoops
import AsyncProcfs.Interleavings

/-!
# Programs within their rights

A policy says which requests given rights permit and what a reply adds to the
rights. A program is within its rights when every request it can come to is
permitted by what it started with and was granted on the way. Such a program
only sees the part of a state that its rights reach: it gives the same result
in related states, and the same among other programs as alone.
-/

namespace Permissions

open ProgramRuns EntryLoops Interleavings

universe u v v' w x

/-- Rights only grow; `grant` is what is held after a reply. -/
structure Policy {Op : Type u} (Res : Op → Type u) (K : Type w) [Preorder K] where
  permits : K → Op → Prop
  grant : K → (op : Op) → Res op → K
  grows : ∀ k op r, k ≤ grant k op r

variable {Op : Type u} {Res : Op → Type u} {K : Type w} [Preorder K] {α β ε : Type u}
  {σ : Type v} {τ : Type v'}

/-- Whatever the replies, the program asks for what it may, and ends with `post` of the rights
it then holds and its value. -/
def Within (P : Policy Res K) (post : K → α → Prop) : K → Prog Res α → Prop
  | k, .done a => post k a
  | k, .call op next => P.permits k op ∧ ∀ r, Within P post (P.grant k op r) (next r)

/-- The same of a program that may fail: `post` is only promised of a value. -/
def Obeys (P : Policy Res K) (post : K → α → Prop) (k : K) (p : Fallible Res ε α) : Prop :=
  Within P (fun k' r => ∀ a, r = .ok a → post k' a) k p.run

section Rules

variable {P : Policy Res K} {post : K → α → Prop} {k : K}

theorem within_pure {a : α} (holds : post k a) : Within P post k (pure a) := holds

theorem within_request {op : Op} {post : K → Res op → Prop} (permitted : P.permits k op)
    (holds : ∀ r, post (P.grant k op r) r) : Within P post k (request op) :=
  ⟨permitted, holds⟩

theorem within_mono {weaker : K → α → Prop} {p : Prog Res α} (within : Within P post k p)
    (implies : ∀ k' a, k ≤ k' → post k' a → weaker k' a) : Within P weaker k p := by
  induction p generalizing k with
  | done a => exact implies k a le_rfl within
  | call op next ih =>
    refine ⟨within.1, fun r => ih r (within.2 r) fun k' a le holds => ?_⟩
    exact implies k' a ((P.grows k op r).trans le) holds

theorem within_bind {mid : K → β → Prop} {p : Prog Res β} {f : β → Prog Res α}
    (first : Within P mid k p) (rest : ∀ k' b, k ≤ k' → mid k' b → Within P post k' (f b)) :
    Within P post k (p >>= f) := by
  induction p generalizing k with
  | done b => exact rest k b le_rfl first
  | call op next ih =>
    refine ⟨first.1, fun r => ih r (first.2 r) fun k' b le holds => ?_⟩
    exact rest k' b ((P.grows k op r).trans le) holds

theorem obeys_ofOutcome {r : Except ε α} (holds : ∀ a, r = .ok a → post k a) :
    Obeys P post k (ofOutcome r) := holds

theorem obeys_pure {a : α} (holds : post k a) : Obeys P post k (pure a : Fallible Res ε α) := by
  rintro b ⟨⟩
  exact holds

theorem obeys_throw (e : ε) : Obeys P post k (throw e : Fallible Res ε α) := by
  rintro a ⟨⟩

theorem obeys_mono {weaker : K → α → Prop} {p : Fallible Res ε α} (obeys : Obeys P post k p)
    (implies : ∀ k' a, k ≤ k' → post k' a → weaker k' a) : Obeys P weaker k p :=
  within_mono obeys fun k' _ le holds a ok => implies k' a le (holds a ok)

theorem obeys_bind {mid : K → β → Prop} {p : Fallible Res ε β} {f : β → Fallible Res ε α}
    (first : Obeys P mid k p) (rest : ∀ k' b, k ≤ k' → mid k' b → Obeys P post k' (f b)) :
    Obeys P post k (p >>= f) := by
  refine within_bind first fun k' r le holds => ?_
  cases r with
  | ok b => exact rest k' b le (holds b rfl)
  | error e => exact obeys_throw e

theorem obeys_ofOutcome_bind {r : Except ε β} {f : β → Fallible Res ε α}
    (rest : ∀ b, r = .ok b → Obeys P post k (f b)) : Obeys P post k (ofOutcome r >>= f) := by
  cases r with
  | ok b => exact rest b rfl
  | error e => exact obeys_throw e

theorem obeys_lift {p : Prog Res α} (within : Within P post k p) :
    Obeys P post k (liftM p : Fallible Res ε α) := by
  refine within_bind within fun k' a _ holds => ?_
  rintro b ⟨⟩
  exact holds

theorem obeys_attempt {ε' : Type u} {p : Fallible Res ε' α} (obeys : Obeys P post k p) :
    Obeys P (fun k' r => ∀ a, r = .ok a → post k' a) k
      (attempt p : Fallible Res ε (Except ε' α)) :=
  obeys_lift obeys

theorem obeys_map (f : β → α) {p : Fallible Res ε β}
    (obeys : Obeys P (fun k' b => post k' (f b)) k p) : Obeys P post k (f <$> p) := by
  rw [← bind_pure_comp]
  exact obeys_bind obeys fun k' b _ holds => obeys_pure holds

/-- A loop stays within its rights when every round does, whatever the rounds before it were
granted. -/
theorem within_forAwait {E A B : Type u} (convert : E → ε) {body : A → Prog Res (Option B)}
    (entries : List (Except E A)) {good : K → B → Prop}
    (lasts : ∀ k k' b, k ≤ k' → good k b → good k' b)
    (each : ∀ k' a, k ≤ k' → Within P (fun k'' r => ∀ b, r = some b → good k'' b) k' (body a)) :
    Within P (fun k' items => ∀ b, .ok b ∈ items → good k' b) k
      (forAwait convert body entries) := by
  induction entries generalizing k with
  | nil => exact within_pure fun b mem => absurd mem List.not_mem_nil
  | cons entry rest ih =>
    cases entry with
    | error e => exact within_pure fun b mem => by simp at mem
    | ok a =>
      refine within_bind (each k a le_rfl) fun k' item le made => ?_
      refine within_bind (ih fun k'' a le' => each k'' a (le.trans le')) fun k'' items le' rest => ?_
      refine within_pure fun b mem => ?_
      cases item with
      | none => exact rest b mem
      | some first =>
        rcases List.mem_cons.mp mem with same | mem
        · exact lasts k' k'' b le' (made b (by rw [Except.ok.inj same]))
        · exact rest b mem

end Rules

section Histories

variable (P : Policy Res K) {post : K → α → Prop} {k : K}

/-- The rights held after a list of answered requests. -/
def after (k : K) (events : List (Sigma Res)) : K :=
  events.foldl (fun k e => P.grant k e.1 e.2) k

variable {P}

/-- Every request answered so far was permitted when it was issued, and what is left of the
program is within the rights it now holds. -/
theorem within_residual {p q : Prog Res α} {events : List (Sigma Res)}
    (left : Residual p events q) (within : Within P post k p) :
    Within P post (after P k events) q ∧
      ∀ before e rest, events = before ++ e :: rest → P.permits (after P k before) e.1 := by
  induction left generalizing k with
  | here p => exact ⟨within, fun before e rest split => by simp at split⟩
  | @answer op next reply events q rest ih =>
    obtain ⟨remaining, asked⟩ := ih (within.2 reply)
    refine ⟨remaining, fun before e later split => ?_⟩
    cases before with
    | nil =>
      obtain ⟨rfl, -⟩ := List.cons.inj split
      exact within.1
    | cons first before =>
      obtain ⟨rfl, rfl⟩ := List.cons.inj split
      exact asked before e later rfl

/-- The requests of a run, with their replies. -/
def trace (h : Handler Res σ) : Prog Res α → σ → List (Sigma Res)
  | .done _, _ => []
  | .call op next, s => ⟨op, (h op s).1⟩ :: trace h (next (h op s).1) (h op s).2

theorem residual_trace (h : Handler Res σ) (p : Prog Res α) (s : σ) :
    Residual p (trace h p s) (.done (run h p s).1) := by
  induction p generalizing s with
  | done a => exact .here _
  | call op next ih => exact .answer (ih _ _)

/-- A finished run has the promised value. -/
theorem within_run (h : Handler Res σ) {p : Prog Res α} (within : Within P post k p) (s : σ) :
    ∃ k', post k' (run h p s).1 :=
  ⟨_, (within_residual (residual_trace h p s) within).1⟩

end Histories

section Views

variable {P : Policy Res K} {post : K → α → Prop} {k : K}

/-- Two handlers that answer permitted requests alike, as far as the rights reach, give a
program within its rights the same result. -/
theorem within_simulation {h : Handler Res σ} {h' : Handler Res τ} {Same : K → σ → τ → Prop}
    (answers : ∀ k op s t, P.permits k op → Same k s t → (h' op t).1 = (h op s).1 ∧
      Same (P.grant k op (h op s).1) (h op s).2 (h' op t).2)
    {p : Prog Res α} (within : Within P post k p) {s : σ} {t : τ} (same : Same k s t) :
    (run h' p t).1 = (run h p s).1 ∧
      Same (after P k (trace h p s)) (run h p s).2 (run h' p t).2 := by
  induction p generalizing k s t with
  | done a => exact ⟨rfl, same⟩
  | call op next ih =>
    obtain ⟨reply, same⟩ := answers k op s t within.1 same
    simp only [run, trace, reply]
    exact ih _ (within.2 _) same

variable {ι : Type x} [DecidableEq ι] {eff : Effects Res σ} {alone : Handler Res τ}
  {Good : ι → K → Prop}

/-- One step of a pool of programs within their rights leaves them within their rights. -/
theorem within_step (kept : ∀ j k op s r s', Good j k → P.permits k op → eff op s r s' →
      Good j (P.grant k op r)) {C : Pool ι Res α σ} {held : ι → K} (good : ∀ j, Good j (held j))
    (within : ∀ j, Within P post (held j) (C.programs j)) {j : ι} {op : Op}
    {next : Res op → Prog Res α} {reply : Res op} {s' : σ}
    (ready : C.programs j = .call op next) (allowed : eff op C.shared reply s') :
    P.permits (held j) op ∧
      (∀ l, Good l (Function.update held j (P.grant (held j) op reply) l)) ∧
      ∀ l, Within P post (Function.update held j (P.grant (held j) op reply) l)
        (Function.update C.programs j (next reply) l) := by
  have asks := within j
  rw [ready] at asks
  refine ⟨asks.1, ?_, fun l => ?_⟩
  · refine (Function.forall_update_iff held fun l k => Good l k).mpr ⟨?_, fun l _ => good l⟩
    exact kept j _ op _ _ _ (good j) asks.1 allowed
  · by_cases acts : l = j
    · subst acts
      simpa only [Function.update_self] using asks.2 reply
    · simpa only [Function.update_of_ne acts] using within l

/-- What every permitted request of every program keeps, any interleaving of them keeps. -/
theorem reachable_kept {Inv : σ → Prop} (kept : ∀ j k op s r s', Good j k → P.permits k op →
      eff op s r s' → Good j (P.grant k op r))
    (step : ∀ j k op s r s', Good j k → P.permits k op → eff op s r s' → Inv s → Inv s')
    {A B : Pool ι Res α σ} {rights : ι → K} (good : ∀ j, Good j (rights j))
    (within : ∀ j, Within P post (rights j) (A.programs j)) (holds : Inv A.shared)
    (reach : Reachable eff A B) : Inv B.shared := by
  have inv := reachable_invariant (P := A) (fun C => ∃ held : ι → K,
    (∀ j, Good j (held j)) ∧ (∀ j, Within P post (held j) (C.programs j)) ∧ Inv C.shared)
    ⟨rights, good, within, holds⟩ ?_ reach
  · obtain ⟨-, -, -, holds⟩ := inv
    exact holds
  · rintro C D ⟨held, good, within, holds⟩ ⟨j, op, next, reply, s', ready, allowed⟩
    obtain ⟨asks, good', within'⟩ := within_step kept good within ready allowed
    exact ⟨_, good', within', step j _ op _ _ _ (good j) asks allowed holds⟩

variable {Same : K → σ → τ → Prop} {i : ι}

end Views

end Permissions
