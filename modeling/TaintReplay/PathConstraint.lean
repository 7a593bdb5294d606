import TaintReplay.Text.Hex

/-!
# Path constraints

A `PathConstraint` is the decision at a symbolic conditional branch: the expression of the program counter, the address
of the branch, the successor that was reached and the one that was not. Constraints are logged in the order in which the
branches were met.
-/

namespace TaintReplay

structure PathConstraint where
  /-- The number of the expression of the program counter. -/
  symbol : Nat
  source : UInt64
  taken : UInt64
  notTaken : UInt64
  deriving DecidableEq, Repr

def PathConstraint.render (c : PathConstraint) : String :=
  Text.address c.source.toNat ++ ": taken " ++ Text.address c.taken.toNat ++ ", not taken " ++
    Text.address c.notTaken.toNat ++ " (#" ++ toString c.symbol ++ ")"

/-- The constraints of a session, the oldest first. -/
abbrev PathLog := List PathConstraint

/-- The constraints recorded at one branch. -/
def PathLog.recordedAt (log : PathLog) (source : UInt64) : PathLog := log.filter (·.source == source)

end TaintReplay
