import TaintReplay.Image.Fault

/-!
# Memory images

An `Image` is the memory of the process: segments of bytes, and the address ranges of its functions. Ranges may overlap;
the first one that contains an address is the one that counts. A `Segment` never reaches beyond the end of the address
space (`toNat_stop`), which `Image.map` checks, and neither reading nor writing leaves the segment.
-/

namespace TaintReplay

structure Segment where
  start : UInt64
  data : Array UInt8
  inSpace : start.toNat + data.size < UInt64.size

namespace Segment

/-- The address behind the last byte. -/
def stop (s : Segment) : UInt64 := s.start + UInt64.ofNat s.data.size

theorem toNat_stop (s : Segment) : s.stop.toNat = s.start.toNat + s.data.size := by
  have h := s.inSpace
  simp only [UInt64.size] at h
  simp only [stop, UInt64.toNat_add, UInt64.toNat_ofNat']
  omega

def contains (s : Segment) (address : UInt64) : Bool := s.start ≤ address && address < s.stop

theorem contains_iff (s : Segment) (address : UInt64) :
    s.contains address ↔ s.start.toNat ≤ address.toNat ∧ address.toNat < s.start.toNat + s.data.size := by
  simp [contains, UInt64.le_iff_toNat_le, UInt64.lt_iff_toNat_lt, toNat_stop]

/-- The place of an address among the bytes. -/
def offset (s : Segment) (address : UInt64) : Nat := (address - s.start).toNat

/-- The bytes from an address on, at most `count` of them. -/
def read (s : Segment) (address : UInt64) (count : Nat) : List UInt8 :=
  (s.data.extract (s.offset address) (s.offset address + count)).toList

/-- How many of `count` bytes from an address on lie in the segment. -/
def room (s : Segment) (address : UInt64) (count : Nat) : Nat := min count (s.data.size - s.offset address)

/-- The bytes with those from `start` on replaced by `bytes`, as far as there are any. -/
def overlay (data : Array UInt8) (start : Nat) (bytes : List UInt8) : Array UInt8 :=
  let fitting := bytes.take (data.size - start)
  data.extract 0 start ++ fitting.toArray ++ data.extract (start + fitting.length) data.size

theorem size_overlay (data : Array UInt8) (start : Nat) (bytes : List UInt8) :
    (overlay data start bytes).size = data.size := by
  simp [overlay]
  omega

/-- Writes bytes from an address on, as far as the segment reaches. -/
def write (s : Segment) (address : UInt64) (bytes : List UInt8) : Segment where
  start := s.start
  data := overlay s.data (s.offset address) bytes
  inSpace := by rw [size_overlay]; exact s.inSpace

def render (s : Segment) : String :=
  Text.hexPadded 16 s.start.toNat ++ "-" ++ Text.hexPadded 16 s.stop.toNat

end Segment

/-- The address range of a function. -/
structure FunctionRange where
  start : UInt64
  stop : UInt64
  name : String
  deriving DecidableEq, Repr

def FunctionRange.contains (f : FunctionRange) (address : UInt64) : Bool := f.start ≤ address && address < f.stop

structure Image where
  segments : List Segment := []
  functions : List FunctionRange := []

namespace Image

/-- Adds a segment behind the others. -/
def map (image : Image) (start : UInt64) (data : Array UInt8) : Except ImageError Image :=
  if inSpace : start.toNat + data.size < UInt64.size then
    .ok { image with segments := image.segments ++ [⟨start, data, inSpace⟩] }
  else .error (.wraps start data.size)

/-- One segment and nothing else. -/
def flat (start : UInt64) (data : Array UInt8) : Except ImageError Image := ({} : Image).map start data

def addFunction (image : Image) (f : FunctionRange) : Image := { image with functions := image.functions ++ [f] }

def functionAt (image : Image) (address : UInt64) : Option FunctionRange :=
  image.functions.find? (·.contains address)

def segmentAt (image : Image) (address : UInt64) : Option Segment := image.segments.find? (·.contains address)

/-- The bytes from an address on to the end of its segment, at most `count` of them. -/
def read (image : Image) (address : UInt64) (count : Nat) : List UInt8 :=
  match image.segmentAt address with
  | some s => s.read address count
  | none => []

/-- Reads bytes from an address on to the front of a buffer, and says how many there were. -/
def readInto (image : Image) (address : UInt64) (buffer : List UInt8) : List UInt8 × Nat :=
  let bytes := image.read address buffer.length
  (bytes ++ buffer.drop bytes.length, bytes.length)

/-- Writes into the first segment that contains the address. -/
def writeFirst (address : UInt64) (bytes : List UInt8) : List Segment → List Segment
  | [] => []
  | s :: rest => if s.contains address then s.write address bytes :: rest else s :: writeFirst address bytes rest

/-- Writes bytes from an address on, as far as its segment reaches, and says how many were written. -/
def write (image : Image) (address : UInt64) (bytes : List UInt8) : Image × Nat :=
  ({ image with segments := writeFirst address bytes image.segments },
    ((image.segmentAt address).map (·.room address bytes.length)).getD 0)

end Image

end TaintReplay
