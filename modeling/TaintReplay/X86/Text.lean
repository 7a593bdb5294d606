import TaintReplay.Text.Hex
import TaintReplay.X86.Operand

/-!
# Assembly text

`Instruction.text` writes an instruction as assembly: marks, mnemonic, and the operands in order. Immediates and
distances are signed hexadecimal numbers; memory shows its access size, a segment if there is one, and the sum of its
address in brackets.
-/

namespace TaintReplay.X86

open TaintReplay.Text

/-- The word for an access of so many bytes. -/
def sizeWord : Option Nat → String
  | some 1 => "byte"
  | some 2 => "word"
  | some 4 => "dword"
  | some 6 => "far"
  | some 8 => "qword"
  | some 10 => "mword"
  | some 16 => "xmmword"
  | some 32 => "ymmword"
  | some 64 => "zmmword"
  | _ => "ptr"

/-- The largest displacement that has a text of its own. -/
def maxDisplacement : Nat := 0x7fffffff

/-- A displacement behind the rest of a sum. The lowest one shares the text of its neighbour. -/
def displacementText (d : Int) : String :=
  if d = 0 then ""
  else if d < 0 then " - " ++ address (min d.natAbs maxDisplacement)
  else " + " ++ address d.natAbs

def Address.text : Address → String
  | absolute value => "[" ++ address value.toNat ++ "]"
  | sum base index displacement =>
    let scaled := index.map fun (r, scale) => r.name ++ " * " ++ toString scale
    let terms := (base.map (·.name)).toList ++ scaled.toList
    "[" ++ String.intercalate " + " terms ++ displacementText displacement ++ "]"

def Operand.text : Operand → String
  | register r => r.name
  | masked r mask zeroing =>
    r.name ++ "\x7bk" ++ toString mask ++ "\x7d" ++ (if zeroing then "\x7bz\x7d" else "")
  | immediate value => signedHex value
  | relative distance => if distance < 0 then "$" ++ signedHex distance else "$+" ++ signedHex distance
  | memory size segment a =>
    sizeWord size ++ " " ++ (segment.map fun s => s.name ++ ":").getD "" ++ a.text

def Instruction.text (i : Instruction) : String :=
  let head := String.intercalate " " (i.marks ++ [i.opcode.mnemonic])
  match i.operands with
  | [] => head
  | operands => head ++ " " ++ String.intercalate ", " (operands.map (·.text))

end TaintReplay.X86
