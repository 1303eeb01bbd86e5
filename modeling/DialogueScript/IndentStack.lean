import DialogueScript.Text.Line

/-!
The widths of the open blocks, outermost first, and their encoding as bytes. Each width is larger
than the one before it and fits in sixteen bits; the base level has width zero and is not stored.
-/

namespace DialogueScript

structure IndentStack where
  widths : List Nat
deriving DecidableEq, Repr, Inhabited

namespace IndentStack

def empty : IndentStack := ⟨[]⟩

/-- The width of the innermost open block, zero at the base level. -/
def top (s : IndentStack) : Nat := s.widths.getLastD 0

def depth (s : IndentStack) : Nat := s.widths.length

def isEmpty (s : IndentStack) : Bool := s.widths.isEmpty

def push (s : IndentStack) (width : Nat) : IndentStack := ⟨s.widths ++ [width]⟩

def pop (s : IndentStack) : IndentStack := ⟨s.widths.dropLast⟩

/-- The levels that stay open on a line of the given width. -/
def kept (s : IndentStack) (width : Nat) : List Nat := s.widths.takeWhile (· ≤ width)

def display (s : IndentStack) : String :=
  "[" ++ ", ".intercalate (s.widths.map toString) ++ "]"

/-! ### Widths -/

/-- The largest width there is. -/
def maxWidth : Nat := 65535

/-- The width of some leading blanks. A tab counts for `tabWidth` columns wherever it stands, and
the sum stops at the largest width. -/
def measure (tabWidth : Nat) (indentation : Text) : Nat :=
  indentation.foldl (fun width c => min maxWidth (width + if c = '\t' then tabWidth else 1)) 0

/-! ### Bytes -/

inductive DecodeError where
  | truncated (expected found : Nat)
  | trailingBytes (count : Nat)
  | notIncreasing (index width : Nat)
deriving DecidableEq, Repr

def DecodeError.message : DecodeError → String
  | .truncated expected found =>
    s!"indentation state is truncated: expected {expected} bytes, found {found}"
  | .trailingBytes count => s!"indentation state has {count} unexpected trailing bytes"
  | .notIncreasing index width =>
    s!"indentation widths must strictly increase, but level {index} is {width}"

/-- A number below 65536 as two bytes, the low one first. -/
def encodeWord (n : Nat) : List UInt8 := [UInt8.ofNat n, UInt8.ofNat (n / 256)]

def decodeWord (lo hi : UInt8) : Nat := lo.toNat + 256 * hi.toNat

/-- The number of levels, then every width. -/
def encode (s : IndentStack) : List UInt8 :=
  encodeWord s.widths.length ++ s.widths.flatMap encodeWord

/-- Reads widths that have to exceed `below`; `index` is the level of the first of them. -/
def decodeLevels (index below : Nat) : List UInt8 → Except DecodeError (List Nat)
  | lo :: hi :: rest =>
    let width := decodeWord lo hi
    if width ≤ below then .error (.notIncreasing index width)
    else (decodeLevels (index + 1) width rest).map (width :: ·)
  | _ => .ok []

/-- Reads an encoded stack. No bytes at all stand for the empty stack. -/
def decode : List UInt8 → Except DecodeError IndentStack
  | [] => .ok empty
  | [_] => .error (.truncated 2 1)
  | lo :: hi :: rest =>
    let count := decodeWord lo hi
    if rest.length < 2 * count then .error (.truncated (2 + 2 * count) (rest.length + 2))
    else if 2 * count < rest.length then .error (.trailingBytes (rest.length - 2 * count))
    else (decodeLevels 0 0 rest).map .mk

end IndentStack

end DialogueScript
