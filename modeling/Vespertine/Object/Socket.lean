import Mathlib.Tactic.SplitIfs
import Vespertine.Kernel
import Vespertine.Library.Ring

/-!
# Sockets

A socket pair is two endpoints joined by two buses.  Each endpoint reads one bus and writes the
other; a bus holds a ring of bytes, a closed flag and the wakers of a waiting reader and writer.
`read_async` and `write_async` are polled: they move at most 512 bytes through a buffer of their own
and return, or store the waker and wait.

The copies between that buffer and the caller's memory are given by whether they succeed.
-/

namespace Vespertine

/-- Cells of a ring; one of them stays unused. -/
def BUFFER_SIZE : Nat := 4096

/-- Length of `temp_buf`, the most that one poll moves. -/
def TEMP_SIZE : Nat := 512

instance : NeZero BUFFER_SIZE := ⟨by decide⟩

/-- A ring of bytes, written at its head and read at its tail. -/
structure RingBuffer where
  data : Fin BUFFER_SIZE → UInt8
  head : Nat
  tail : Nat
  head_lt : head < BUFFER_SIZE
  tail_lt : tail < BUFFER_SIZE

namespace RingBuffer

/-- An empty ring. -/
def new : RingBuffer := ⟨fun _ => 0, 0, 0, by decide, by decide⟩

/-- Nothing to read. -/
def isEmpty (buffer : RingBuffer) : Bool := buffer.head == buffer.tail

/-- No room to write. -/
def isFull (buffer : RingBuffer) : Bool := (buffer.head + 1) % BUFFER_SIZE == buffer.tail

/-- Bytes to read. -/
def len (buffer : RingBuffer) : Nat :=
  if buffer.head ≥ buffer.tail then
    buffer.head - buffer.tail
  else
    BUFFER_SIZE - (buffer.tail - buffer.head)

/-- Bytes that can be written. -/
def availableSpace (buffer : RingBuffer) : Nat :=
  if buffer.isFull then 0 else BUFFER_SIZE - buffer.len - 1

/-- One round of the loop of `push_slice`. -/
def pushByte (buffer : RingBuffer) (byte : UInt8) : RingBuffer :=
  { buffer with
    data := Function.update buffer.data ⟨buffer.head, buffer.head_lt⟩ byte
    head := (buffer.head + 1) % BUFFER_SIZE
    head_lt := Nat.mod_lt _ (by decide) }

/-- Write as many bytes as there is room for. -/
def pushSlice (buffer : RingBuffer) (src : List UInt8) : Nat × RingBuffer :=
  let n := min src.length buffer.availableSpace
  (n, (src.take n).foldl pushByte buffer)

/-- One round of the loop of `pop_slice`. -/
def popByte (buffer : RingBuffer) : UInt8 × RingBuffer :=
  (buffer.data ⟨buffer.tail, buffer.tail_lt⟩,
    { buffer with
      tail := (buffer.tail + 1) % BUFFER_SIZE
      tail_lt := Nat.mod_lt _ (by decide) })

/-- The loop of `pop_slice`. -/
def popBytes : (count : Nat) → RingBuffer → List UInt8 × RingBuffer
  | 0, buffer => ([], buffer)
  | count + 1, buffer =>
      let (byte, buffer) := buffer.popByte
      let (bytes, buffer) := popBytes count buffer
      (byte :: bytes, buffer)

/-- Read as many bytes as there are, up to the room of the destination. -/
def popSlice (buffer : RingBuffer) (room : Nat) : List UInt8 × RingBuffer :=
  popBytes (min room buffer.len) buffer

end RingBuffer

/-- The task a waker wakes. -/
abbrev Waker := Nat

/-- One direction of a socket pair. -/
structure SocketBus where
  buffer : RingBuffer
  isClosed : Bool
  readWaker : Option Waker
  writeWaker : Option Waker

/-- An open bus without bytes. -/
def SocketBus.new : SocketBus := ⟨.new, false, none, none⟩

/-- The two endpoints of a pair. -/
inductive Side
  | first
  | second
deriving DecidableEq, Repr

/-- The other endpoint. -/
def Side.peer : Side → Side
  | .first => .second
  | .second => .first

/-- A socket pair; `bus side` is the bus that the endpoint reads and its peer writes. -/
structure SocketPair where
  bus : Side → SocketBus
  isNb : Side → Bool

/-- What polling an operation returns. -/
inductive Poll
  | ready (result : Except InvocationError Nat)
  | pending

/-- What a call on an endpoint does besides changing the pair. -/
structure PollOutcome where
  poll : Poll
  /-- Bytes copied to the caller. -/
  delivered : List UInt8
  /-- Wakers invoked. -/
  woken : List Waker

namespace SocketPair

/-- Two open buses, crossed between two blocking endpoints. -/
def newPair : SocketPair := ⟨fun _ => .new, fun _ => false⟩

/-- The bus an endpoint writes. -/
def writeBus (pair : SocketPair) (side : Side) : SocketBus := pair.bus side.peer

/-- Replace one bus. -/
def setBus (pair : SocketPair) (side : Side) (bus : SocketBus) : SocketPair :=
  { pair with bus := Function.update pair.bus side bus }

/-- The first part of `read_async`: bytes that are there are read. -/
def readBuffered (pair : SocketPair) (side : Side) (len : Nat) (copied : Bool) :
    Option (PollOutcome × SocketPair) :=
  if len = 0 then
    some (⟨.ready (.ok 0), [], []⟩, pair)
  else
    let bus := pair.bus side
    if bus.buffer.isEmpty then
      none
    else
      let (bytes, buffer) := bus.buffer.popSlice (min len TEMP_SIZE)
      if copied then
        some (⟨.ready (.ok bytes.length), bytes, bus.writeWaker.toList⟩,
          pair.setBus side { bus with buffer, writeWaker := none })
      else
        some (⟨.ready (.error .InvalidPointer), [], []⟩, pair.setBus side { bus with buffer })

/-- The rest of `read_async`, for an empty ring. -/
def readDrained (pair : SocketPair) (side : Side) (waker : Waker) : PollOutcome × SocketPair :=
  let bus := pair.bus side
  if bus.isClosed then
    (⟨.ready (.ok 0), [], []⟩, pair)
  else if pair.isNb side then
    (⟨.ready (.error .WouldBlock), [], []⟩, pair)
  else
    (⟨.pending, [], []⟩, pair.setBus side { bus with readWaker := some waker })

/-- Poll a read of up to `len` bytes. -/
def readAsync (pair : SocketPair) (side : Side) (len : Nat) (copied : Bool) (waker : Waker) :
    PollOutcome × SocketPair :=
  (pair.readBuffered side len copied).getD (pair.readDrained side waker)

/-- The part of `write_async` before it locks the ring, if it returns there. -/
def writeRefused (pair : SocketPair) (side : Side) (len : Nat) (copied : Bool) :
    Option PollOutcome :=
  if (pair.writeBus side).isClosed then
    some ⟨.ready (.error .UnsupportedOperation), [], []⟩
  else if len = 0 then
    some ⟨.ready (.ok 0), [], []⟩
  else if copied then
    none
  else
    some ⟨.ready (.error .InvalidPointer), [], []⟩

/-- The rest of `write_async`, with the ring locked and the bytes in `temp_buf`. -/
def writeLocked (pair : SocketPair) (side : Side) (temp : List UInt8) (waker : Waker) :
    PollOutcome × SocketPair :=
  let bus := pair.writeBus side
  if bus.isClosed then
    (⟨.ready (.error .UnsupportedOperation), [], []⟩, pair)
  else if bus.buffer.isFull then
    if pair.isNb side then
      (⟨.ready (.error .WouldBlock), [], []⟩, pair)
    else
      (⟨.pending, [], []⟩, pair.setBus side.peer { bus with writeWaker := some waker })
  else
    let (count, buffer) := bus.buffer.pushSlice temp
    (⟨.ready (.ok count), [], bus.readWaker.toList⟩,
      pair.setBus side.peer { bus with buffer, readWaker := none })

/-- Poll a write of the bytes `src` of the caller. -/
def writeAsync (pair : SocketPair) (side : Side) (src : List UInt8) (copied : Bool)
    (waker : Waker) : PollOutcome × SocketPair :=
  match pair.writeRefused side src.length copied with
  | some outcome => (outcome, pair)
  | none => pair.writeLocked side (src.take TEMP_SIZE) waker

/-- `SocketOp::SetNB`. -/
def setNb (pair : SocketPair) (side : Side) (nb : Bool) : PollOutcome × SocketPair :=
  (⟨.ready (.ok 0), [], []⟩, { pair with isNb := Function.update pair.isNb side nb })

/-- Drop an endpoint: the bus it writes is closed and whoever waits on it is woken. -/
def drop (pair : SocketPair) (side : Side) : PollOutcome × SocketPair :=
  let bus := pair.writeBus side
  (⟨.ready (.ok 0), [], bus.readWaker.toList ++ bus.writeWaker.toList⟩,
    pair.setBus side.peer { bus with isClosed := true, readWaker := none, writeWaker := none })

end SocketPair

section Contents

variable {buffer : RingBuffer}

/-- The bytes to read, in order. -/
def RingBuffer.contents (buffer : RingBuffer) : List UInt8 :=
  Ring.window buffer.data buffer.tail buffer.len

@[simp] theorem RingBuffer.length_contents (buffer : RingBuffer) :
    buffer.contents.length = buffer.len :=
  Ring.length_window _ _ _

theorem RingBuffer.len_lt (buffer : RingBuffer) : buffer.len < BUFFER_SIZE :=
  Ring.distance_lt buffer.head_lt

theorem RingBuffer.isEmpty_iff : buffer.isEmpty = true ↔ buffer.contents = [] := by
  have head_lt := buffer.head_lt
  have tail_lt := buffer.tail_lt
  rw [← List.length_eq_zero_iff, length_contents, isEmpty, beq_iff_eq, len]
  split <;> omega

theorem RingBuffer.isFull_iff : buffer.isFull = true ↔ buffer.len + 1 = BUFFER_SIZE := by
  have head_lt := buffer.head_lt
  have tail_lt := buffer.tail_lt
  rw [isFull, beq_iff_eq, Ring.add_one_mod head_lt, len]
  split_ifs <;> omega

theorem RingBuffer.availableSpace_eq (buffer : RingBuffer) :
    buffer.availableSpace = BUFFER_SIZE - buffer.len - 1 := by
  rw [availableSpace]
  split
  next full =>
    have := isFull_iff.mp full
    omega
  next => rfl

/-- A byte is written behind the others. -/
theorem RingBuffer.contents_pushByte (byte : UInt8) (room : buffer.len + 1 < BUFFER_SIZE) :
    (buffer.pushByte byte).contents = buffer.contents ++ [byte] := by
  have advanced : (buffer.pushByte byte).len = buffer.len + 1 :=
    Ring.distance_advance buffer.head_lt buffer.tail_lt room
  have place : (⟨buffer.head, buffer.head_lt⟩ : Fin BUFFER_SIZE) =
      Fin.ofNat BUFFER_SIZE (buffer.tail + buffer.len) :=
    Fin.ext (Ring.add_distance buffer.head_lt buffer.tail_lt).symm
  rw [contents, advanced, Ring.window_snoc, contents, pushByte]
  dsimp only
  rw [place, Ring.window_update _ _ buffer.len_lt, Function.update_self]

/-- Bytes are written in order as long as there is room. -/
theorem RingBuffer.contents_pushBytes {bytes : List UInt8}
    (room : buffer.len + bytes.length < BUFFER_SIZE) :
    (bytes.foldl pushByte buffer).contents = buffer.contents ++ bytes := by
  induction bytes generalizing buffer with
  | nil => simp
  | cons byte bytes ih =>
      rw [List.length_cons] at room
      have pushed : (buffer.pushByte byte).contents = buffer.contents ++ [byte] :=
        contents_pushByte byte (by omega)
      have longer : (buffer.pushByte byte).len = buffer.len + 1 := by
        rw [← length_contents, pushed]
        simp
      rw [List.foldl_cons, ih (by omega), pushed, List.append_assoc, List.singleton_append]

/-- A slice is written as far as there is room. -/
theorem RingBuffer.contents_pushSlice (buffer : RingBuffer) (src : List UInt8) :
    (buffer.pushSlice src).2.contents = buffer.contents ++ src.take (buffer.pushSlice src).1 := by
  have lt := buffer.len_lt
  refine contents_pushBytes ?_
  rw [List.length_take, availableSpace_eq]
  omega

theorem RingBuffer.contents_popByte (occupied : 0 < buffer.len) :
    buffer.contents = buffer.popByte.1 :: buffer.popByte.2.contents := by
  have retreated : buffer.popByte.2.len + 1 = buffer.len :=
    Ring.distance_retreat buffer.head_lt buffer.tail_lt occupied
  have place : Fin.ofNat BUFFER_SIZE buffer.tail = ⟨buffer.tail, buffer.tail_lt⟩ :=
    Fin.ext (Nat.mod_eq_of_lt buffer.tail_lt)
  rw [contents, ← retreated, Ring.window_cons, place, contents, popByte]
  dsimp only
  rw [Ring.window_mod]

/-- Bytes are read in order. -/
theorem RingBuffer.contents_popBytes {count : Nat} (enough : count ≤ buffer.len) :
    buffer.contents = (popBytes count buffer).1 ++ (popBytes count buffer).2.contents ∧
      (popBytes count buffer).1.length = count := by
  induction count generalizing buffer with
  | zero => exact ⟨rfl, rfl⟩
  | succ count ih =>
      have popped : buffer.contents = buffer.popByte.1 :: buffer.popByte.2.contents :=
        contents_popByte (by omega)
      have shorter : buffer.len = buffer.popByte.2.len + 1 := by
        rw [← length_contents, popped, List.length_cons, length_contents]
      obtain ⟨rest, length_eq⟩ := @ih buffer.popByte.2 (by omega)
      refine ⟨?_, congrArg (· + 1) length_eq⟩
      rw [popped, rest]
      rfl

/-- A slice is read as far as there are bytes. -/
theorem RingBuffer.contents_popSlice (buffer : RingBuffer) (room : Nat) :
    buffer.contents = (buffer.popSlice room).1 ++ (buffer.popSlice room).2.contents ∧
      (buffer.popSlice room).1.length = min room buffer.len :=
  contents_popBytes (Nat.min_le_right _ _)

/-- A slice read is the front of the ring, and the ring keeps the rest. -/
theorem RingBuffer.popSlice_eq (buffer : RingBuffer) (room : Nat) :
    (buffer.popSlice room).1 = buffer.contents.take room ∧
      (buffer.popSlice room).2.contents = buffer.contents.drop room := by
  obtain ⟨popped, length_eq⟩ := buffer.contents_popSlice room
  rw [List.take_eq_take_min, List.drop_eq_drop_min, length_contents]
  constructor
  · rw [popped, List.take_left' length_eq]
  · rw [popped, List.drop_left' length_eq]

end Contents
end Vespertine
