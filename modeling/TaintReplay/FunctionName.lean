/-!
# Names of tainted functions

A function that executes tainted instructions gets a name that begins with `T`, a number of at least three digits and an
underscore. `isTagged` recognises such a beginning of exactly three digits in front of a name that is not empty.
-/

namespace TaintReplay.FunctionName

/-- A number with at least three digits. -/
def paddedNumber (n : Nat) : String :=
  let digits := Nat.toDigits 10 n
  String.ofList (List.replicate (3 - digits.length) '0' ++ digits)

/-- The name of the function that was the `index`-th to turn out tainted. -/
def tagged (index : Nat) (name : String) : String := "T" ++ paddedNumber index ++ "_" ++ name

/-- Does a name begin with `T`, three digits and an underscore, with something behind them? -/
def isTagged (name : String) : Bool :=
  match name.toList with
  | 'T' :: a :: b :: c :: '_' :: _ :: _ => a.isDigit && b.isDigit && c.isDigit
  | _ => false

end TaintReplay.FunctionName
