import TaintReplay.Json.Token

/-!
# Readers

A `Reader` reads a value from the tokens of a text, one after the other, so that the first problem in the text is the
one that is reported. The combinators know what a reader of structured data needs: scalars of one type, optional values,
lists, objects, values of any kind (`value`), and values that are skipped (`skip`).

A fault of the data is reported at the place where the smallest list or object around it has been left, which is behind
its closing bracket if that follows at once (`located`, `enclosed`).
-/

namespace TaintReplay.Json

/-- What is left of a text. -/
structure Stream where
  tokens : List Token
  /-- The offset up to which the text has been read. -/
  here : Nat
  /-- The length of the text. -/
  finish : Nat

abbrev Reader := EStateM Problem Stream

namespace Reader

variable {α β σ : Type}

/-! ## Tokens -/

/-- The shape of the next token, if there is one; blanks in front of it are passed. -/
def peek : Reader (Option Shape) := do
  let s ← get
  match s.tokens with
  | [] => set { s with here := s.finish }; return none
  | t :: _ => set { s with here := t.start }; return some t.shape

/-- Passes the next token. -/
def eat : Reader Unit := modify fun s =>
  match s.tokens with
  | [] => s
  | t :: rest => { s with tokens := rest, here := t.stop }

/-- Reports a fault at the byte that was looked at last, if there is one. -/
def fail (fault : TextFault) : Reader α := do
  let s ← get
  throw (fault.at (min (s.here + 1) s.finish))

/-- The shape of the next token; at the end of the text the fault is reported. -/
def demand (fault : TextFault) : Reader Shape := do
  match ← peek with
  | some shape => return shape
  | none => fail fault

/-- A result that may be a problem. -/
def ofResult : Except Problem α → Reader α
  | .ok x => return x
  | .error p => throw p

/-- A result that may be a fault of the data. -/
def ofData : Except DataFault α → Reader α
  | .ok x => return x
  | .error fault => throw ⟨.ofData fault, none⟩

/-- Reports a fault that has no place yet at the place where reading has come to. -/
def located (r : Reader α) : Reader α := fun s =>
  match r s with
  | .error ⟨fault, none⟩ s => .error ⟨fault, some s.here⟩ s
  | result => result

/-! ## Scalars -/

/-- A value that is no list and no object; `accept` says which values are wanted. -/
def scalar (accept : Value → Except DataFault α) : Reader α := located do
  match ← demand .endInValue with
  | .scalar s =>
    let v ← ofResult s.value
    eat
    ofData (accept v)
  | .mark .openList => ofData (accept (.array []))
  | .mark .openObject => ofData (accept (.object []))
  | _ => fail .noValue

/-- A value that may be `null`. -/
def optional (r : Reader α) : Reader (Option α) := do
  match ← peek with
  | some (.scalar ⟨_, .ok .null, _⟩) => eat; return none
  | _ => some <$> r

/-! ## Lists and objects -/

/-- Runs a reader on what stands inside brackets, and then the reader of the closing bracket. That one runs even if the
first has failed, but only the first failure counts. -/
def enclosed (close : Reader Unit) (body : Reader α) : Reader α := fun s =>
  match body s with
  | .ok x s => match close s with
    | .ok _ s => .ok x s
    | .error p s => .error p s
  | .error p s => match close s with
    | .ok _ s => .error p s
    | .error _ s => .error p s

def closeList : Reader Unit := do
  match ← demand .endInList with
  | .mark .closeList => eat
  | .mark .comma =>
    eat
    match ← peek with
    | some (.mark .closeList) => fail .trailingComma
    | _ => fail .trailingCharacters
  | _ => fail .trailingCharacters

def closeObject : Reader Unit := do
  match ← demand .endInObject with
  | .mark .closeObject => eat
  | .mark .comma => fail .trailingComma
  | _ => fail .trailingCharacters

/-- Goes on to the next item of a list and says whether there is one. -/
def nextItem (first : Bool) : Reader Bool := do
  match ← demand .endInList with
  | .mark .closeList => return false
  | .mark .comma =>
    if first then return true
    eat
    match ← demand .endInValue with
    | .mark .closeList => fail .trailingComma
    | _ => return true
  | _ => if first then return true else fail .noCommaInList

/-- The key of a member. -/
def key : Reader String := do
  match ← demand .endInValue with
  | .scalar ⟨true, value, _⟩ =>
    match ← ofResult value with
    | .text s => eat; return s
    | _ => fail .keyNotText
  | .mark .closeObject => fail .trailingComma
  | _ => fail .keyNotText

/-- Goes on to the next member of an object, if there is one, and reads its key. -/
def nextKey (first : Bool) : Reader (Option String) := do
  match ← demand .endInObject with
  | .mark .closeObject => return none
  | .mark .comma =>
    if first then fail .keyNotText
    eat
    return some (← key)
  | _ => if first then return some (← key) else fail .noCommaInObject

def colon : Reader Unit := do
  match ← demand .endInObject with
  | .mark .colon => eat
  | _ => fail .noColon

/-- The number of tokens left, which bounds the number of items and members. -/
def budget : Reader Nat := return (← get).tokens.length + 1

/-- Reads the items of a list one after the other, from its first one or from a later one on. -/
def foldItems (step : σ → Reader σ) (x : σ) (first : Bool) : Reader σ := do
  loop (← budget) x first
where
  loop : Nat → σ → Bool → Reader σ
    | 0, x, _ => return x
    | n + 1, x, first => do if ← nextItem first then loop n (← step x) false else return x

/-- Reads the members of an object one after the other, each by its key. -/
def foldMembers (step : String → σ → Reader σ) (x : σ) : Reader σ := do
  loop (← budget) x true
where
  loop : Nat → σ → Bool → Reader σ
    | 0, x, _ => return x
    | n + 1, x, first => do
      match ← nextKey first with
      | some k => loop n (← step k x) false
      | none => return x

/-- The items of a list, or those behind its first ones if `first` does not hold. -/
def items (item : Reader α) (first : Bool) : Reader (List α) := do
  return (← foldItems (fun xs => return (← item) :: xs) [] first).reverse

/-- How deeply lists and objects may be nested. -/
def maxDepth : Nat := 127

/-- Enters a list or an object of which `depth` more may be nested. -/
def enter (depth : Nat) (body : Nat → Reader α) : Reader α :=
  match depth with
  | 0 => fail .tooDeep
  | depth + 1 => do eat; body depth

/-- Structured data, written as a list or as an object; `expected` names it. -/
def structured (expected : String) (depth : Nat) (list object : Nat → Reader α) : Reader α := located do
  match ← demand .endInValue with
  | .mark .openList => enter depth fun depth => enclosed closeList (list depth)
  | .mark .openObject => enter depth fun depth => enclosed closeObject (object depth)
  | .scalar s =>
    let v ← ofResult s.value
    eat
    ofData (.error (.wrongType v expected))
  | _ => fail .noValue

/-- A list of values of one kind. -/
def list (depth : Nat) (item : Nat → Reader α) : Reader (List α) := located do
  match ← demand .endInValue with
  | .mark .openList => enter depth fun depth => enclosed closeList (items (item depth) true)
  | .mark .openObject => ofData (.error (.wrongType (.object []) "a sequence"))
  | .scalar s =>
    let v ← ofResult s.value
    eat
    ofData (.error (.wrongType v "a sequence"))
  | _ => fail .noValue

/-! ## Values of any kind -/

/-- A value of any kind, in which `depth` lists and objects may be nested. -/
def value (depth : Nat) : Reader Value := located do
  match ← demand .endInValue with
  | .scalar s =>
    let v ← ofResult s.value
    eat
    return v
  | .mark .openList =>
    match depth with
    | 0 => fail .tooDeep
    | depth + 1 =>
      eat
      .array <$> enclosed closeList (items (value depth) true)
  | .mark .openObject =>
    match depth with
    | 0 => fail .tooDeep
    | depth + 1 =>
      eat
      let step (k : String) (members : List (String × Value)) : Reader (List (String × Value)) := do
        colon
        return (k, ← value depth) :: members
      (fun members => .object members.reverse) <$> enclosed closeObject (foldMembers step [])
  | _ => fail .noValue

/-! ## Skipping -/

/-- What stands around a value that is skipped. -/
inductive Container where
  | list
  | object
  deriving DecidableEq, Repr

namespace Container

def close : Container → Mark
  | list => .closeList
  | object => .closeObject

def atEnd : Container → TextFault
  | list => .endInList
  | object => .endInObject

def noComma : Container → TextFault
  | list => .noCommaInList
  | object => .noCommaInObject

end Container

/-- Passes a scalar without reading it. -/
def pass (s : Scalar) : Reader Unit := do
  discard (ofResult s.stop)
  eat

/-- Passes what stands in front of the next value: the key and the colon in an object. -/
def skipKey : Container → Reader Unit
  | .list => return
  | .object => do
    match ← demand .endInObject with
    | .scalar s => if s.isText then pass s else fail .keyNotText
    | _ => fail .keyNotText
    colon

/-- What is expected next while a value is skipped. -/
inductive Expected where
  | value
  /-- An item or the end, at the start of a list or an object. -/
  | firstItem
  /-- A comma or the end. -/
  | comma
  deriving DecidableEq, Repr

/-- One step of skipping: passes a token or a key, and says what is expected next inside which containers. -/
def skipStep : Expected → List Container → Reader (Expected × List Container)
  | .value, around => do
    match ← demand .endInValue with
    | .scalar s => pass s; return (.comma, around)
    | .mark .openList => eat; return (.firstItem, .list :: around)
    | .mark .openObject => eat; return (.firstItem, .object :: around)
    | _ => fail .noValue
  | expected, [] => return (expected, [])
  | .firstItem, c :: around => do
    match ← demand c.atEnd with
    | .mark m =>
      if m = c.close then eat; return (.comma, around)
      skipKey c
      return (.value, c :: around)
    | _ =>
      skipKey c
      return (.value, c :: around)
  | .comma, c :: around => do
    match ← demand c.atEnd with
    | .mark m =>
      if m = c.close then eat; return (.comma, around)
      if m ≠ .comma then fail c.noComma
      eat
      skipKey c
      return (.value, c :: around)
    | _ => fail c.noComma

/-- Skips up to the end of the outermost value. -/
def skipAll : Nat → Expected → List Container → Reader Unit
  | 0, _, _ => return
  | n + 1, expected, around => do
    match ← skipStep expected around with
    | (.comma, []) => return
    | (expected, around) => skipAll n expected around

/-- Skips a value. Nesting is not limited. -/
def skip : Reader Unit := do skipAll (2 * (← budget)) .value []

/-! ## Texts -/

/-- Reads a whole text. -/
def run (r : Reader α) (bytes : List UInt8) : Except Error α :=
  let whole : Reader α := do
    let x ← r
    match ← peek with
    | some _ => fail .trailingCharacters
    | none => return x
  match whole ⟨tokens bytes, 0, bytes.length⟩ with
  | .ok x _ => .ok x
  | .error p s => .error ⟨p.fault, .ofOffset bytes (p.offset.getD s.here)⟩

end Reader

/-! ## What values are wanted -/

namespace Value

/-- A natural number below a bound; `expected` names the type. -/
def asNatural (bound : Nat) (expected : String) (v : Value) : Except DataFault Nat :=
  match v with
  | number (.integer n) => if 0 ≤ n ∧ n < bound then .ok n.toNat else .error (.wrongValue v expected)
  | v => .error (.wrongType v expected)

def asWord (v : Value) : Except DataFault UInt64 := (v.asNatural UInt64.size "u64").map UInt64.ofNat

def asHalfWord (v : Value) : Except DataFault UInt32 := (v.asNatural UInt32.size "u32").map UInt32.ofNat

def asByte (v : Value) : Except DataFault UInt8 := (v.asNatural UInt8.size "u8").map UInt8.ofNat

def asBool : Value → Except DataFault Bool
  | bool b => .ok b
  | v => .error (.wrongType v "a boolean")

def asText : Value → Except DataFault String
  | text s => .ok s
  | v => .error (.wrongType v "a string")

def asArray : Value → Except DataFault (List Value)
  | array items => .ok items
  | v => .error (.wrongType v "a sequence")

def asObject : Value → Except DataFault (List (String × Value))
  | object members => .ok members
  | v => .error (.wrongType v "a map")

end Value

end TaintReplay.Json
