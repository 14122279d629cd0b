/-
What several parts of the agent share: the panics a modelled function can end in,
`common.NanoToMills`, and the numbers that lie in bytes.

A function that can panic returns `Except Panic`, so that "does not panic" is a statement
about its result.
-/
import Kyanos.GoNum

set_option autoImplicit false

open GoNum

namespace Kyanos

/-- The panics of the modelled code: the four it raises itself, the exit of a fatal log
entry, and the four of the runtime it can run into. -/
inductive Panic
  | fuse (left right newLeft newRight : ℕ)
  | removeTooMuch
  | invalidParseState
  | emptyRequest
  | fatal (columnType : ℤ)
  | nilDereference
  | indexOutOfRange
  | sliceOutOfRange
  | interfaceConversion
deriving DecidableEq, Repr

/-- The text of a panic. `FuseAsLeft` and `FuseAsRight` raise the same one. -/
def Panic.message : Panic → String
  | .fuse l r nl nr =>
      "FuseAsLeft error, buffer left: " ++ toString l ++ ", right: " ++ toString r
        ++ ", new buffer left: " ++ toString nl ++ ", new buffer right: " ++ toString nr
  | .removeTooMuch => "try to remove size greater than me"
  | .invalidParseState => "invalid parse state!"
  | .emptyRequest => "A request cannot have an empty payload."
  | .fatal columnType => "Unexpected/unhandled column type " ++ toString columnType
  | .nilDereference => "runtime error: invalid memory address or nil pointer dereference"
  | .indexOutOfRange => "runtime error: index out of range"
  | .sliceOutOfRange => "runtime error: slice bounds out of range"
  | .interfaceConversion => "interface conversion: interface is nil"

/-- `NanoToMills`: the conversion and the division both round. -/
def nanoToMills (x : ℤ) : ℚ := float64 (float64 x / 1000000)

/-- A little-endian number, the lowest byte first. -/
def littleEndian (bytes : List UInt8) : ℕ := bytes.foldr (fun b n => b.toNat + 256 * n) 0

/-- A big-endian number, the highest byte first. -/
def bigEndian (bytes : List UInt8) : ℕ := littleEndian bytes.reverse

end Kyanos
