/-! # Tokens for cancelling

A token is raised once and stays so. Copies of a token share its flag, so each of them raises it and
sees it raised. -/

namespace ClusterMetrics

/-- Tokens as they were made, each by the number of its flag. -/
structure Tokens where
  flags : List Nat
  /-- The flags that were raised. -/
  raised : List Nat
deriving Repr, DecidableEq

namespace Tokens

/-- One token, not raised. -/
def single : Tokens := ⟨[0], []⟩

def isRaised (t : Tokens) (i : Nat) : Bool :=
  match t.flags[i]? with
  | some flag => t.raised.contains flag
  | none => false

/-- The tokens and a copy of token `i`. -/
def copy (t : Tokens) (i : Nat) : Tokens :=
  match t.flags[i]? with
  | some flag => { t with flags := t.flags ++ [flag] }
  | none => t

/-- The tokens and one with a flag of its own. -/
def fresh (t : Tokens) : Tokens := { t with flags := t.flags ++ [t.flags.foldl max 0 + 1] }

/-- The tokens with token `i` raised. -/
def raise (t : Tokens) (i : Nat) : Tokens :=
  match t.flags[i]? with
  | some flag => { t with raised := flag :: t.raised }
  | none => t

/-- Whether each token is raised, in the order in which they were made. -/
def states (t : Tokens) : List Bool := t.flags.map t.raised.contains

end Tokens

end ClusterMetrics
