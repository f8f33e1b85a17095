import Vespertine.Library.Word

/-!
# Kernel constants and panics

Page sizes shared by all memory modules and the ways in which kernel code stops.
-/

namespace Vespertine

/-- Size of a 4 KiB page. -/
def NORMAL_PAGE_SIZE : Nat := 0x1000

/-- Size of a 2 MiB page. -/
def HUGE_PAGE_SIZE : Nat := 0x200000

/-- The two page sizes the kernel maps. -/
inductive BlockSize
  | Normal
  | Huge
deriving DecidableEq, Repr

/-- Bytes of a page. -/
def BlockSize.bytes : BlockSize → Nat
  | .Normal => NORMAL_PAGE_SIZE
  | .Huge => HUGE_PAGE_SIZE

/-- Ways in which the kernel stops instead of returning. -/
inductive Panic
  | indexOutOfBounds
  | doubleFree (addr : Nat)
  | outOfMemory
  | capacityOverflow
  | unwrapNone
  | physNotAligned4k
  | virtNotAligned4k
  | physNotAligned2m
  | virtNotAligned2m
  | diverges
deriving DecidableEq, Repr

/-- Errors an invocation returns to its caller. -/
inductive InvocationError
  | AccessDenied
  | InvalidHandle
  | InvalidArgument
  | InvalidPointer
  | UnsupportedOperation
  | PathNotFound
  | BufferFull
  | OutOfMemory
  | WouldBlock
  | PoolExhausted
  | NameTooLong
  | InvalidEncoding
  | NotMapped
  | ThreadSpawnFail
deriving DecidableEq, Repr

/-- Kernel code either returns or panics. -/
abbrev Kernel := Except Panic

end Vespertine
