import TaintReplay.Register
import TaintReplay.Text.Hex

/-!
# Locations

A `Location` is where an operand's value lives: a full register, a range of memory, nowhere (`constant`), or a place
that is not known. The marks of the analysis sit on single `Cell`s; `Location.cells` are the cells of a location.
-/

namespace TaintReplay

/-- The smallest thing that carries a mark. -/
inductive Cell where
  | register (r : Register)
  | byte (address : UInt64)
  deriving DecidableEq, Repr

inductive Location where
  | register (r : Register)
  | memory (address : UInt64) (size : Nat)
  | constant
  | unknown
  deriving DecidableEq, Repr

namespace Location

def render : Location → String
  | register r => r.name
  | memory address size => "[" ++ Text.address address.toNat ++ "]:" ++ toString size
  | constant => "const"
  | unknown => "?"

/-- The cells of a location. A range of memory wraps around at the end of the address space. -/
def cells : Location → List Cell
  | register r => [.register r]
  | memory address size => (List.range size).map fun i => .byte (address + UInt64.ofNat i)
  | constant | unknown => []

end Location

end TaintReplay
