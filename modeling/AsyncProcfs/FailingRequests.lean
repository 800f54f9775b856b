import AsyncProcfs.Permissions

/-!
# Programs that stop at a failing request

A reply may carry a failure. A program that stops at failures asks for nothing
behind a failing reply: its error comes from that reply and reports it. In a
run of such a program either every reply is good, or all but the last are.
-/

namespace FailingRequests

open ProgramRuns Permissions

universe u v w

variable {Op : Type u} {Res : Op → Type u} {E : Type w} {ε ε' α β : Type u} {σ : Type v}

/-- Whatever the replies, a failing one ends the program with an error that reports it. -/
def Stops (failure : (op : Op) → Res op → Option E) (reports : Op → E → ε → Prop) :
    Prog Res (Except ε α) → Prop
  | .done _ => True
  | .call op next => ∀ r, Stops failure reports (next r) ∧
      ∀ e, failure op r = some e → ∃ e', next r = .done (.error e') ∧ reports op e e'

section Rules

variable {failure : (op : Op) → Res op → Option E} {reports : Op → E → ε → Prop}

end Rules

section Runs

variable {failure : (op : Op) → Res op → Option E} {reports : Op → E → ε → Prop}

/-- A reply that is no failure. -/
def Good (failure : (op : Op) → Res op → Option E) (x : Sigma Res) : Prop :=
  failure x.1 x.2 = none

end Runs

end FailingRequests
