import Vespertine.Object.SocketStream
import Vespertine.Object.UserCopy

/-!
# Failed socket calls

What a call on a socket leaves behind when it returns an error.  A write copies from its caller
before it touches the ring.  A read takes its bytes out of the ring first: if they cannot be stored
they are gone, and the writer that waits for room is not woken.
-/

namespace Vespertine
namespace SocketErrors

open UserCopy
open SocketStream (setBus_same setBus_other setBus_agrees)

/-- A call with the pointer that the caller gives; a write names the bytes behind it as well. -/
inductive Transfer
  | read (ptr : BitVec 64) (len : Nat)
  | write (ptr : BitVec 64) (src : List UInt8)

/-- The copy between a call and its caller; nothing is copied for a ring without bytes or a bus that
is closed. -/
def Transfer.copy (pair : SocketPair) (side : Side) (faults : Nat → Bool) : Transfer → Outcome
  | .read ptr len => safeCopyTo faults ptr (min (min len TEMP_SIZE) (pair.bus side).buffer.len)
  | .write ptr src =>
      safeCopyFrom faults ptr
        (if (pair.writeBus side).isClosed then 0 else min src.length TEMP_SIZE)

/-- Poll a call; `none` when the kernel halts in the copy. -/
def transfer (pair : SocketPair) (side : Side) (faults : Nat → Bool) (waker : Waker)
    (call : Transfer) : Option (PollOutcome × SocketPair) :=
  (call.copy pair side faults).result.map fun copied =>
    match call with
    | .read _ len => pair.readAsync side len copied waker
    | .write _ src => pair.writeAsync side src copied waker

/-- A call that fails leaves the rings as they are, so that a read with a good buffer gets what it
would have got before; one that takes bytes out of a ring wakes the writer that waits there. -/
structure FailsCleanly (pair : SocketPair) (side : Side) (outcome : PollOutcome)
    (next : SocketPair) : Prop where
  unchanged : ∀ problem, outcome.poll = .ready (.error problem) →
    ∀ bus, (next.bus bus).buffer = (pair.bus bus).buffer
  retry : ∀ problem, outcome.poll = .ready (.error problem) → ∀ len waker,
    (next.readAsync side len true waker).1.delivered =
      (pair.readAsync side len true waker).1.delivered
  released : ∀ bus, (next.bus bus).buffer.len < (pair.bus bus).buffer.len →
    ∀ waker ∈ (pair.bus bus).writeWaker, waker ∈ outcome.woken

/-- The call is a read whose bytes cannot be stored. -/
def Transfer.Loses (pair : SocketPair) (side : Side) (faults : Nat → Bool) : Transfer → Prop
  | .read ptr len => (Transfer.read ptr len |>.copy pair side faults).result = some false
  | .write _ _ => False

instance (pair : SocketPair) (side : Side) (faults : Nat → Bool) (call : Transfer) :
    Decidable (call.Loses pair side faults) :=
  match call with
  | .read _ _ => inferInstanceAs (Decidable (_ = _))
  | .write _ _ => inferInstanceAs (Decidable False)

section Calls

variable {pair next : SocketPair} {side : Side} {outcome : PollOutcome} {len : Nat}
  {src : List UInt8} {copied : Bool} {waker : Waker}

/-- An empty copy succeeds. -/
theorem safeCopy_empty (faults : Nat → Bool) (ptr : BitVec 64) :
    (safeCopy faults ptr 0).result = some true := by
  rw [safeCopy]
  split
  next => rfl
  next user =>
    have ptr_lt := ptr.isLt
    rw [copyUser, if_neg (by unfold wordSize; omega), if_neg (by omega)]
    rfl

/-- A call that leaves the pair as it is fails cleanly. -/
theorem FailsCleanly.of_eq (same : next = pair) : FailsCleanly pair side outcome next := by
  subst same
  exact ⟨fun _ _ _ => rfl, fun _ _ _ _ => rfl, fun _ shorter => absurd shorter (lt_irrefl _)⟩

/-- So does one that does not fail and takes no bytes. -/
theorem FailsCleanly.of_grows (succeeds : ∀ problem, outcome.poll ≠ .ready (.error problem))
    (grows : ∀ bus, (pair.bus bus).buffer.len ≤ (next.bus bus).buffer.len) :
    FailsCleanly pair side outcome next :=
  ⟨fun problem fails => absurd fails (succeeds problem),
    fun problem fails => absurd fails (succeeds problem),
    fun bus shorter => absurd (grows bus) (Nat.not_le.mpr shorter)⟩

/-- A write copies before it touches the ring. -/
theorem write_failsCleanly (pair : SocketPair) (side : Side) (src : List UInt8) (copied : Bool)
    (waker : Waker) :
    FailsCleanly pair side (pair.writeAsync side src copied waker).1
      (pair.writeAsync side src copied waker).2 := by
  rw [SocketPair.writeAsync]
  split
  next => exact .of_eq rfl
  next =>
    rw [SocketPair.writeLocked]
    dsimp only
    split_ifs
    · exact .of_eq rfl
    · exact .of_eq rfl
    · exact .of_grows (by rintro _ ⟨⟩) fun bus =>
        (setBus_agrees (fun bus => bus.buffer.len) (by rfl) bus).ge
    · refine .of_grows (by rintro _ ⟨⟩) fun bus => ?_
      by_cases own : bus = side.peer
      · have pushed := (pair.writeBus side).buffer.contents_pushSlice (src.take TEMP_SIZE)
        have longer := congrArg List.length pushed
        rw [List.length_append, RingBuffer.length_contents, RingBuffer.length_contents] at longer
        rw [own, setBus_same]
        exact le_of_le_of_eq (Nat.le_add_right _ _) longer.symm
      · rw [setBus_other _ own]

theorem drained_failsCleanly (pair : SocketPair) (side : Side) (waker : Waker) :
    FailsCleanly pair side (pair.readDrained side waker).1 (pair.readDrained side waker).2 := by
  rw [SocketPair.readDrained]
  split_ifs
  · exact .of_eq rfl
  · exact .of_eq rfl
  · exact .of_grows (by rintro _ ⟨⟩) fun bus =>
      (setBus_agrees (fun bus => bus.buffer.len) (by rfl) bus).ge

/-- A read whose bytes are stored wakes the writer. -/
theorem stored_failsCleanly (pair : SocketPair) (side : Side) (len : Nat) (waker : Waker) :
    FailsCleanly pair side (pair.readAsync side len true waker).1
      (pair.readAsync side len true waker).2 := by
  rw [SocketPair.readAsync, SocketPair.readBuffered]
  split
  next => exact .of_eq rfl
  next =>
    dsimp only
    split
    next => exact drained_failsCleanly pair side waker
    next =>
      rw [if_pos rfl]
      refine ⟨by rintro _ ⟨⟩, by rintro _ ⟨⟩, fun bus shorter waker waits => ?_⟩
      by_cases own : bus = side
      · subst own
        exact Option.mem_toList.mpr waits
      · rw [Option.getD_some, setBus_other _ own] at shorter
        exact absurd shorter (lt_irrefl _)

/-- A read whose bytes cannot be stored has taken them from the ring. -/
theorem lost_shorter (some_bytes : 0 < min (min len TEMP_SIZE) (pair.bus side).buffer.len) :
    (pair.readAsync side len false waker).1 = ⟨.ready (.error .InvalidPointer), [], []⟩ ∧
      ((pair.readAsync side len false waker).2.bus side).buffer.contents =
        (pair.bus side).buffer.contents.drop (min len TEMP_SIZE) ∧
      ((pair.readAsync side len false waker).2.bus side).writeWaker =
        (pair.bus side).writeWaker ∧
      ((pair.readAsync side len false waker).2.bus side).buffer.len <
        (pair.bus side).buffer.len := by
  have occupied : (pair.bus side).buffer.isEmpty = false := by
    rw [Bool.eq_false_iff, ne_eq, RingBuffer.isEmpty_iff, ← List.length_eq_zero_iff,
      RingBuffer.length_contents]
    omega
  have read_eq : pair.readAsync side len false waker =
      (⟨.ready (.error .InvalidPointer), [], []⟩, pair.setBus side
        { pair.bus side with
          buffer := ((pair.bus side).buffer.popSlice (min len TEMP_SIZE)).2 }) := by
    rw [SocketPair.readAsync, SocketPair.readBuffered, if_neg (by omega)]
    simp only [occupied]
    rfl
  have rest := ((pair.bus side).buffer.popSlice_eq (min len TEMP_SIZE)).2
  rw [read_eq, setBus_same]
  refine ⟨rfl, rest, rfl, ?_⟩
  rw [← RingBuffer.length_contents, rest, List.length_drop, RingBuffer.length_contents]
  omega

end Calls

/-- In every state of the rings a call fails cleanly if and only if it is not a read whose bytes
cannot be stored in the caller's buffer. -/
theorem transfer_failsCleanly_iff {pair next : SocketPair} {side : Side} {faults : Nat → Bool}
    {waker : Waker} {call : Transfer} {outcome : PollOutcome}
    (polled : transfer pair side faults waker call = some (outcome, next)) :
    FailsCleanly pair side outcome next ↔ ¬call.Loses pair side faults := by
  obtain ⟨copied, copy_eq, result_eq⟩ := Option.map_eq_some_iff.mp polled
  cases call with
  | write ptr src =>
      have same : (outcome, next) = pair.writeAsync side src copied waker := result_eq.symm
      have clean := write_failsCleanly pair side src copied waker
      rw [← same] at clean
      exact iff_of_true clean id
  | read ptr len =>
      have same : (outcome, next) = pair.readAsync side len copied waker := result_eq.symm
      rw [Transfer.Loses, copy_eq, Option.some_inj]
      cases copied with
      | true =>
          have clean := stored_failsCleanly pair side len waker
          rw [← same] at clean
          exact iff_of_true clean nofun
      | false =>
          refine iff_of_false (fun clean => ?_) (not_not.mpr rfl)
          have some_bytes : 0 < min (min len TEMP_SIZE) (pair.bus side).buffer.len := by
            rw [Nat.pos_iff_ne_zero]
            intro none_left
            rw [Transfer.copy, none_left, safeCopyTo, safeCopy_empty] at copy_eq
            cases copy_eq
          obtain ⟨fails, -, -, shorter⟩ := @lost_shorter pair side len waker some_bytes
          rw [← same] at fails shorter
          have unchanged := clean.unchanged .InvalidPointer (congrArg PollOutcome.poll fails) side
          rw [unchanged] at shorter
          exact lt_irrefl _ shorter

/-- The second endpoint has filled the ring and waits for room; the first has not read yet. -/
def fullPair : SocketPair where
  bus
    | .first => ⟨⟨fun _ => 7, 4095, 0, by decide, RingBuffer.new.tail_lt⟩, false, none, some 2⟩
    | .second => .new
  isNb := fun _ => false

/-- A read whose bytes can be stored wakes the writer. -/
theorem transfer_failsCleanly_iff_stored :
    ∃ outcome next, transfer fullPair .first (fun _ => false) 1 (.read 0x1000 2) =
        some (outcome, next) ∧ outcome.woken = [2] ∧ FailsCleanly fullPair .first outcome next := by
  obtain ⟨outcome, next, polled, woken⟩ : ∃ outcome next,
      transfer fullPair .first (fun _ => false) 1 (.read 0x1000 2) = some (outcome, next) ∧
        outcome.woken = [2] := ⟨_, _, rfl, rfl⟩
  exact ⟨outcome, next, polled, woken, (transfer_failsCleanly_iff polled).mpr (by decide)⟩

/-- A read into a page that is not there fails; its 512 bytes are gone, and the writer sleeps on. -/
theorem failed_read_loses :
    ∃ outcome next, transfer fullPair .first (fun _ => true) 1 (.read 0x1000 4096) =
        some (outcome, next) ∧ outcome = ⟨.ready (.error .InvalidPointer), [], []⟩ ∧
      (next.bus .first).buffer.contents = (fullPair.bus .first).buffer.contents.drop 512 ∧
      (next.bus .first).writeWaker = some 2 ∧ ¬FailsCleanly fullPair .first outcome next := by
  obtain ⟨fails, rest, asleep, shorter⟩ := @lost_shorter fullPair .first 4096 1 (by decide)
  obtain ⟨polled, polled_eq⟩ : ∃ polled, polled = fullPair.readAsync .first 4096 false 1 :=
    ⟨_, rfl⟩
  have transfer_eq : transfer fullPair .first (fun _ => true) 1 (.read 0x1000 4096) =
      some polled := polled_eq ▸ rfl
  rw [← polled_eq] at fails rest asleep shorter
  refine ⟨polled.1, polled.2, transfer_eq, fails, rest, asleep, fun clean => ?_⟩
  have unchanged := clean.unchanged .InvalidPointer (congrArg PollOutcome.poll fails) .first
  rw [unchanged] at shorter
  exact lt_irrefl _ shorter

end SocketErrors
end Vespertine
