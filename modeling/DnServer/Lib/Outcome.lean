import Mathlib

/-!
# Calls that may fail

A call returns, raises an error, touches memory it may not touch, or has not
come to an end in the steps it was given. Over a state that the calls hand on,
`StateT` gives the programs. `Defined` are the calls that do no harm and end.
-/

namespace DnServer.Lib

/-- What a call ends in. -/
inductive Outcome (ε α : Type)
  | ok (a : α)
  | error (e : ε)
  /-- The behaviour is undefined. -/
  | fault
  /-- More steps are needed. -/
  | unfinished
  deriving DecidableEq, Repr

namespace Outcome

variable {ε α β : Type}

/-- What follows runs only where the call returned. -/
protected def bind : Outcome ε α → (α → Outcome ε β) → Outcome ε β
  | ok a, f => f a
  | error e, _ => error e
  | fault, _ => fault
  | unfinished, _ => unfinished

instance : Monad (Outcome ε) where
  pure := ok
  bind := Outcome.bind

end Outcome

end DnServer.Lib
