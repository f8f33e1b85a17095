import Vespertine.Library.Transition
import Vespertine.Object.Socket

/-!
# Socket streams

Runs of calls on the two endpoints of a socket pair.  In each direction the bytes accepted from
writers are the bytes delivered to readers followed by the bytes in the ring.

Dropping an endpoint closes the bus it wrote, so its peer reads what is left and then the end of the
stream.  The bus it read stays open: its peer goes on writing bytes that nobody will read.
-/

namespace Vespertine
namespace SocketStream

/-- Calls on a socket pair; `copied` says whether the copy of the caller's memory succeeds. -/
inductive Call
  | read (side : Side) (len : Nat) (copied : Bool) (waker : Waker)
  | write (side : Side) (src : List UInt8) (copied : Bool) (waker : Waker)
  | setNb (side : Side) (nb : Bool)
  | drop (side : Side)

/-- The endpoint of a call. -/
def Call.side : Call → Side
  | .read side .. | .write side .. | .setNb side _ | .drop side => side

/-- No copy of the caller's memory fails. -/
def Call.copies : Call → Bool
  | .read _ _ copied _ | .write _ _ copied _ => copied
  | .setNb .. | .drop _ => true

/-- A call with its outcome. -/
structure Event where
  call : Call
  outcome : PollOutcome

/-- A socket pair in use. -/
structure State where
  pair : SocketPair
  /-- Endpoints whose last reference is gone. -/
  dropped : Side → Bool
  /-- What has happened so far. -/
  trace : List Event

/-- A new pair. -/
def State.new : State := ⟨.newPair, fun _ => false, []⟩

/-- Serve a call. -/
def perform (pair : SocketPair) : Call → PollOutcome × SocketPair
  | .read side len copied waker => pair.readAsync side len copied waker
  | .write side src copied waker => pair.writeAsync side src copied waker
  | .setNb side nb => pair.setNb side nb
  | .drop side => pair.drop side

/-- An endpoint that is gone receives no calls. -/
inductive Gone
  | gone

/-- The endpoints that are gone after a call. -/
def droppedBy (dropped : Side → Bool) : Call → Side → Bool
  | .drop side => Function.update dropped side true
  | .read .. | .write .. | .setNb .. => dropped

/-- One call on a pair in use. -/
def step (state : State) (call : Call) : Except Gone State :=
  if state.dropped call.side then
    .error .gone
  else
    let (outcome, pair) := perform state.pair call
    .ok ⟨pair, droppedBy state.dropped call, state.trace ++ [⟨call, outcome⟩]⟩

/-- A socket pair receiving calls. -/
def service (permitted : State → Call → Prop) : Machine State Call Gone := ⟨step, permitted⟩

/-- Bytes an event accepts from a writer. -/
def Event.accepted (side : Side) (event : Event) : List UInt8 :=
  match event.call, event.outcome.poll with
  | .write writer src _ _, .ready (.ok count) => if writer = side then src.take count else []
  | _, _ => []

/-- Bytes an event delivers to a reader. -/
def Event.delivered (side : Side) (event : Event) : List UInt8 :=
  if event.call.side = side then event.outcome.delivered else []

/-- Bytes accepted from the writers of an endpoint. -/
def accepted (side : Side) (trace : List Event) : List UInt8 := trace.flatMap (Event.accepted side)

/-- Bytes delivered to the readers of an endpoint. -/
def delivered (side : Side) (trace : List Event) : List UInt8 :=
  trace.flatMap (Event.delivered side)

/-- What an endpoint has written is what its peer has read and what the ring holds. -/
def Fifo (state : State) : Prop :=
  ∀ side, accepted side state.trace =
    delivered side.peer state.trace ++ (state.pair.writeBus side).buffer.contents

section Polls

variable {pair : SocketPair} {side : Side}

@[simp] theorem peer_peer (side : Side) : side.peer.peer = side := by cases side <;> rfl

theorem peer_ne (side : Side) : side.peer ≠ side := by cases side <;> decide

theorem ne_iff_peer {side other : Side} : other ≠ side ↔ other = side.peer := by
  cases side <;> cases other <;> decide

@[simp] theorem setBus_same (pair : SocketPair) (side : Side) (bus : SocketBus) :
    (pair.setBus side bus).bus side = bus := by
  simp [SocketPair.setBus]

theorem setBus_other {other : Side} (bus : SocketBus) (ne : other ≠ side) :
    (pair.setBus side bus).bus other = pair.bus other := by
  simp [SocketPair.setBus, ne]

/-- A call changes the ring of its endpoint's bus, if any, and keeps the rings of other buses. -/
structure Moves (pair : SocketPair) (call : Call) (outcome : PollOutcome) (next : SocketPair) :
    Prop where
  /-- Bytes read leave the front of the ring. -/
  read : (pair.bus call.side).buffer.contents =
    Event.delivered call.side ⟨call, outcome⟩ ++ (next.bus call.side).buffer.contents
  /-- Bytes written join its end. -/
  written : (next.writeBus call.side).buffer.contents =
    (pair.writeBus call.side).buffer.contents ++ Event.accepted call.side ⟨call, outcome⟩

end Polls

/-- A call that is served. -/
theorem step_ok {state after : State} {call : Call} (step_eq : step state call = .ok after) :
    state.dropped call.side = false ∧ after = ⟨(perform state.pair call).2,
      droppedBy state.dropped call, state.trace ++ [⟨call, (perform state.pair call).1⟩]⟩ := by
  rw [step] at step_eq
  split at step_eq
  · cases step_eq
  next alive => exact ⟨by simpa using alive, (Except.ok.inj step_eq).symm⟩

theorem accepted_write (side : Side) (src : List UInt8) (copied : Bool) (waker : Waker)
    (count : Nat) (bytes : List UInt8) (woken : List Waker) :
    Event.accepted side ⟨.write side src copied waker, ⟨.ready (.ok count), bytes, woken⟩⟩ =
      src.take count :=
  if_pos rfl

section Fifo

variable {pair next : SocketPair} {side : Side} {outcome : PollOutcome}

/-- Outcomes without bytes move none. -/
theorem moves_nothing {call : Call} (silent : outcome.delivered = [])
    (refused : Event.accepted call.side ⟨call, outcome⟩ = [])
    (buffer_eq : ∀ side, (next.bus side).buffer = (pair.bus side).buffer) :
    Moves pair call outcome next := by
  refine ⟨?_, ?_⟩
  · rw [Event.delivered, if_pos rfl, silent, buffer_eq, List.nil_append]
  · rw [refused, List.append_nil, SocketPair.writeBus, buffer_eq, SocketPair.writeBus]

/-- Replacing a bus by one that agrees with it in some respect changes no bus in that respect. -/
theorem setBus_agrees {α : Type} {bus : SocketBus} (view : SocketBus → α)
    (same : view bus = view (pair.bus side)) (other : Side) :
    view ((pair.setBus side bus).bus other) = view (pair.bus other) := by
  by_cases own : other = side
  · subst own
    rw [setBus_same, same]
  · rw [setBus_other bus own]

theorem readBuffered_moves {len : Nat} {waker : Waker}
    (read_eq : pair.readBuffered side len true = some (outcome, next)) :
    Moves pair (.read side len true waker) outcome next := by
  rw [SocketPair.readBuffered] at read_eq
  split at read_eq
  · cases read_eq
    exact moves_nothing rfl rfl fun _ => rfl
  · dsimp only at read_eq
    split at read_eq
    · cases read_eq
    · cases read_eq
      have popped := ((pair.bus side).buffer.contents_popSlice (min len TEMP_SIZE)).1
      refine ⟨?_, ?_⟩
      · rw [Event.delivered, if_pos rfl, Call.side, setBus_same]
        exact popped
      · rw [SocketPair.writeBus, Call.side, setBus_other _ (peer_ne side)]
        exact (List.append_nil _).symm

theorem readDrained_moves {len : Nat} {copied : Bool} {waker : Waker} :
    Moves pair (.read side len copied waker) (pair.readDrained side waker).1
      (pair.readDrained side waker).2 := by
  rw [SocketPair.readDrained]
  split_ifs
  · exact moves_nothing rfl rfl fun _ => rfl
  · exact moves_nothing rfl rfl fun _ => rfl
  · exact moves_nothing rfl rfl (setBus_agrees SocketBus.buffer (by rfl))

theorem read_moves {len : Nat} {waker : Waker} :
    Moves pair (.read side len true waker) (pair.readAsync side len true waker).1
      (pair.readAsync side len true waker).2 := by
  rw [SocketPair.readAsync]
  cases read_eq : pair.readBuffered side len true with
  | none => exact readDrained_moves
  | some result => exact readBuffered_moves read_eq

theorem writeRefused_moves {src : List UInt8} {waker : Waker} {copied : Bool}
    (refused : pair.writeRefused side src.length copied = some outcome) :
    Moves pair (.write side src copied waker) outcome pair := by
  rw [SocketPair.writeRefused] at refused
  split_ifs at refused
  · cases refused
    exact moves_nothing rfl rfl fun _ => rfl
  · cases refused
    exact moves_nothing rfl (by simp [Event.accepted]) fun _ => rfl
  · cases refused
    exact moves_nothing rfl rfl fun _ => rfl

theorem writeLocked_moves {src : List UInt8} {waker : Waker} {copied : Bool} :
    Moves pair (.write side src copied waker)
      (pair.writeLocked side (src.take TEMP_SIZE) waker).1
      (pair.writeLocked side (src.take TEMP_SIZE) waker).2 := by
  rw [SocketPair.writeLocked]
  dsimp only
  split_ifs
  · exact moves_nothing rfl rfl fun _ => rfl
  · exact moves_nothing rfl rfl fun _ => rfl
  · exact moves_nothing rfl rfl (setBus_agrees SocketBus.buffer (by rfl))
  · have pushed := (pair.writeBus side).buffer.contents_pushSlice (src.take TEMP_SIZE)
    have le : ((pair.writeBus side).buffer.pushSlice (src.take TEMP_SIZE)).1 ≤ TEMP_SIZE :=
      (Nat.min_le_left _ _).trans (List.length_take_le _ _)
    refine ⟨?_, ?_⟩
    · rw [Event.delivered, if_pos rfl, Call.side, setBus_other _ (peer_ne side).symm]
      rfl
    · rw [SocketPair.writeBus, Call.side, setBus_same]
      refine pushed.trans ?_
      rw [List.take_take, Nat.min_eq_left le]
      exact congrArg _ (accepted_write ..).symm

theorem write_moves {src : List UInt8} {waker : Waker} {copied : Bool} :
    Moves pair (.write side src copied waker) (pair.writeAsync side src copied waker).1
      (pair.writeAsync side src copied waker).2 := by
  rw [SocketPair.writeAsync]
  split
  next outcome refused => exact writeRefused_moves refused
  next => exact writeLocked_moves

/-- Every call whose copies succeed moves bytes from the end of one ring or to the front of the
other. -/
theorem perform_moves {call : Call} (copies : call.copies = true) :
    Moves pair call (perform pair call).1 (perform pair call).2 := by
  cases call with
  | read side len copied waker =>
      obtain rfl : copied = true := copies
      exact read_moves
  | write side src copied waker => exact write_moves
  | setNb side nb => exact moves_nothing rfl rfl fun _ => rfl
  | drop side => exact moves_nothing rfl rfl (setBus_agrees SocketBus.buffer (by rfl))

/-- Nobody but the caller accepts or delivers. -/
theorem event_other {call : Call} (ne : call.side ≠ side) :
    Event.accepted side ⟨call, outcome⟩ = [] ∧ Event.delivered side ⟨call, outcome⟩ = [] := by
  refine ⟨?_, if_neg ne⟩
  cases call with
  | write writer src copied waker =>
      rw [Event.accepted]
      split
      next event_eq _ =>
        cases event_eq
        exact if_neg ne
      next => rfl
  | read _ _ _ _ | setNb _ _ | drop _ => rfl

/-- A call keeps what is accepted equal to what is delivered and buffered. -/
theorem Fifo.step {state after : State} {call : Call} (fifo : Fifo state)
    (copies : call.copies = true) (step_eq : step state call = .ok after) : Fifo after := by
  obtain ⟨-, rfl⟩ := step_ok step_eq
  have moves : Moves state.pair call (perform state.pair call).1 (perform state.pair call).2 :=
    perform_moves copies
  generalize perform state.pair call = result at moves
  intro side
  simp only [accepted, delivered, List.flatMap_append, List.flatMap_cons, List.flatMap_nil,
    List.append_nil]
  by_cases own : call.side = side
  · subst own
    rw [(event_other (peer_ne call.side).symm).2, List.append_nil, moves.written,
      ← List.append_assoc]
    exact congrArg (· ++ _) (fifo call.side)
  · have read := moves.read
    rw [ne_iff_peer.mp own] at read
    rw [(event_other own).1, List.append_nil, List.append_assoc]
    exact (fifo side).trans (congrArg _ read)

/-- In every run of calls whose copies succeed, the bytes accepted in each direction are the bytes
delivered followed by those in the ring, which holds at most 4095. -/
theorem socket_stream_fifo {calls : List Call} {final : State}
    (copies : ∀ call ∈ calls, call.copies = true)
    (run_eq : (service fun _ call => call.copies = true).run .new calls = .ok final) (side : Side) :
    accepted side final.trace =
        delivered side.peer final.trace ++ (final.pair.writeBus side).buffer.contents ∧
      (final.pair.writeBus side).buffer.contents.length ≤ 4095 ∧
      (final.pair.writeBus side).buffer.head < 4096 ∧
      (final.pair.writeBus side).buffer.tail < 4096 := by
  have keeps (state : State) (call : Call) (next : State) (fifo : Fifo state)
      (permitted : call.copies = true) (step_eq : step state call = .ok next) : Fifo next :=
    fifo.step permitted step_eq
  have permits := (service fun _ call => call.copies = true).permits_of_mem .new
    fun call mem _ => copies call mem
  have fifo : Fifo final := Machine.run_keeps _ keeps (fun _ => rfl) permits run_eq
  have length_lt := (final.pair.writeBus side).buffer.len_lt
  refine ⟨fifo side, ?_, RingBuffer.head_lt _, RingBuffer.tail_lt _⟩
  rw [RingBuffer.length_contents]
  exact Nat.lt_succ_iff.mp length_lt

/-- Three bytes are written and two of them read. -/
theorem socket_stream_fifo_three_bytes :
    ∃ final, (service fun _ call => call.copies = true).run .new
        [.write .first [1, 2, 3] true 0, .read .second 2 true 0] = .ok final ∧
      accepted .first final.trace = [1, 2, 3] ∧
      (final.pair.writeBus .first).buffer.contents = [3] ∧
      accepted .first final.trace =
        delivered .second final.trace ++ (final.pair.writeBus .first).buffer.contents := by
  obtain ⟨final, run_eq, values⟩ := map_eq_ok.mp
    (show ((service fun _ call => call.copies = true).run .new
        [.write .first [1, 2, 3] true 0, .read .second 2 true 0]).map (fun final =>
          (accepted .first final.trace, (final.pair.writeBus .first).buffer.contents)) =
      .ok ([1, 2, 3], [3]) by rfl)
  obtain ⟨accepted_eq, contents_eq⟩ := Prod.mk.inj values
  exact ⟨final, run_eq, accepted_eq, contents_eq, (socket_stream_fifo (by decide) run_eq .first).1⟩

end Fifo

section Closing

/-- A bus is closed when the endpoint that writes it is gone, and only then. -/
def ClosedByWriter (state : State) : Prop :=
  ∀ side, (state.pair.bus side).isClosed = state.dropped side.peer

/-- A read delivers what the ring holds, as far as there is room; a write is refused with an error
and leaves the ring as it was. -/
def SeesClose (state : State) (call : Call) : Prop :=
  state.dropped call.side = false →
    match call with
    | .read side len copied waker =>
        let (outcome, next) := state.pair.readAsync side len copied waker
        outcome.poll = .ready (.ok outcome.delivered.length) ∧
          outcome.delivered = (state.pair.bus side).buffer.contents.take (min len TEMP_SIZE) ∧
          (next.bus side).buffer.contents =
            (state.pair.bus side).buffer.contents.drop (min len TEMP_SIZE)
    | .write side src copied waker =>
        let (outcome, next) := state.pair.writeAsync side src copied waker
        (∃ problem, outcome.poll = .ready (.error problem)) ∧
          (next.writeBus side).buffer.contents = (state.pair.writeBus side).buffer.contents
    | .setNb .. | .drop _ => True

/-- A read of buffered bytes has its copy succeed; a write has bytes that cannot be copied, or a
full ring and an endpoint that does not block. -/
def SparesPeer (state : State) (call : Call) : Prop :=
  state.dropped call.side = false →
    match call with
    | .read side len copied _ =>
        len ≠ 0 → (state.pair.bus side).buffer.isEmpty = false → copied = true
    | .write side src copied _ =>
        src ≠ [] ∧ (copied = true →
          (state.pair.writeBus side).buffer.isFull = true ∧ state.pair.isNb side = true)
    | .setNb .. | .drop _ => True

variable {pair : SocketPair} {side : Side}

theorem readAsync_isClosed (len : Nat) (copied : Bool) (waker : Waker) (other : Side) :
    ((pair.readAsync side len copied waker).2.bus other).isClosed = (pair.bus other).isClosed := by
  rw [SocketPair.readAsync, SocketPair.readBuffered]
  dsimp only
  split_ifs
  · rfl
  · rw [Option.getD_none, SocketPair.readDrained]
    split_ifs
    · rfl
    · rfl
    · exact setBus_agrees SocketBus.isClosed (by rfl) other
  · exact setBus_agrees SocketBus.isClosed (by rfl) other
  · exact setBus_agrees SocketBus.isClosed (by rfl) other

theorem writeAsync_isClosed (src : List UInt8) (copied : Bool) (waker : Waker) (other : Side) :
    ((pair.writeAsync side src copied waker).2.bus other).isClosed =
      (pair.bus other).isClosed := by
  rw [SocketPair.writeAsync]
  split
  · rfl
  · rw [SocketPair.writeLocked]
    dsimp only
    split_ifs
    · rfl
    · rfl
    · exact setBus_agrees SocketBus.isClosed (by rfl) other
    · exact setBus_agrees SocketBus.isClosed (by rfl) other

/-- Calls other than drops close nothing, and a drop closes the bus that the peer reads. -/
theorem ClosedByWriter.step {state after : State} {call : Call} (closed : ClosedByWriter state)
    (step_eq : step state call = .ok after) : ClosedByWriter after := by
  obtain ⟨-, rfl⟩ := step_ok step_eq
  intro side
  cases call with
  | read caller len copied waker =>
      exact (readAsync_isClosed len copied waker side).trans (closed side)
  | write caller src copied waker =>
      exact (writeAsync_isClosed src copied waker side).trans (closed side)
  | setNb caller nb => exact closed side
  | drop caller =>
      change ((state.pair.setBus caller.peer _).bus side).isClosed =
        Function.update state.dropped caller true side.peer
      by_cases own : side = caller.peer
      · subst own
        rw [setBus_same, peer_peer, Function.update_self]
      · have stays : side.peer ≠ caller := fun same => own (by rw [← same, peer_peer])
        rw [setBus_other _ own, Function.update_of_ne stays]
        exact closed side

/-- What a read of a closed bus meets the law under. -/
theorem read_sees_iff {len : Nat} {copied : Bool} {waker : Waker}
    (closed : (pair.bus side).isClosed = true) :
    ((pair.readAsync side len copied waker).1.poll =
        .ready (.ok (pair.readAsync side len copied waker).1.delivered.length) ∧
      (pair.readAsync side len copied waker).1.delivered =
        (pair.bus side).buffer.contents.take (min len TEMP_SIZE) ∧
      ((pair.readAsync side len copied waker).2.bus side).buffer.contents =
        (pair.bus side).buffer.contents.drop (min len TEMP_SIZE)) ↔
      (len ≠ 0 → (pair.bus side).buffer.isEmpty = false → copied = true) := by
  by_cases zero : len = 0
  · simp [SocketPair.readAsync, SocketPair.readBuffered, zero]
  · by_cases empty : (pair.bus side).buffer.isEmpty = true
    · have nothing := RingBuffer.isEmpty_iff.mp empty
      simp [SocketPair.readAsync, SocketPair.readBuffered, SocketPair.readDrained, zero, empty,
        closed, nothing]
    · obtain ⟨front, rest⟩ := (pair.bus side).buffer.popSlice_eq (min len TEMP_SIZE)
      cases copied with
      | false => simp [SocketPair.readAsync, SocketPair.readBuffered, zero, empty]
      | true => simp [SocketPair.readAsync, SocketPair.readBuffered, zero, empty, front, rest]

/-- What a write to an open bus meets the law under. -/
theorem write_sees_iff {src : List UInt8} {copied : Bool} {waker : Waker}
    (opened : (pair.writeBus side).isClosed = false) :
    ((∃ problem, (pair.writeAsync side src copied waker).1.poll = .ready (.error problem)) ∧
      ((pair.writeAsync side src copied waker).2.writeBus side).buffer.contents =
        (pair.writeBus side).buffer.contents) ↔
      (src ≠ [] ∧ (copied = true →
        (pair.writeBus side).buffer.isFull = true ∧ pair.isNb side = true)) := by
  by_cases none : src = []
  · simp [SocketPair.writeAsync, SocketPair.writeRefused, none, opened]
  · cases copied with
    | false => simp [SocketPair.writeAsync, SocketPair.writeRefused, none, opened]
    | true =>
        by_cases full : (pair.writeBus side).buffer.isFull = true
        · cases nb : pair.isNb side <;>
            simp [SocketPair.writeAsync, SocketPair.writeRefused, SocketPair.writeLocked, none,
              opened, full, nb]
        · simp [SocketPair.writeAsync, SocketPair.writeRefused, SocketPair.writeLocked, none,
            opened, full]

/-- With one endpoint gone, it is its peer that calls. -/
theorem caller_eq_peer {state : State} {call : Call} (gone : state.dropped side = true)
    (alive : state.dropped call.side = false) : call.side = side.peer := by
  refine ne_iff_peer.mp fun same => ?_
  rw [same, gone] at alive
  cases alive

/-- With the peer gone, a call meets the law exactly when it is spared. -/
theorem seesClose_iff {state : State} {call : Call} (closed : ClosedByWriter state)
    (gone : state.dropped side = true) : SeesClose state call ↔ SparesPeer state call := by
  refine imp_congr_right fun alive => ?_
  have caller : call.side = side.peer := caller_eq_peer gone alive
  cases call with
  | read reader len copied waker =>
      refine read_sees_iff ?_
      rw [closed, show reader = side.peer from caller, peer_peer, gone]
  | write writer src copied waker =>
      refine write_sees_iff ?_
      rw [SocketPair.writeBus, closed, peer_peer]
      exact alive
  | setNb _ _ | drop _ => exact Iff.rfl

theorem step_dropped {state after : State} {call : Call} (step_eq : step state call = .ok after)
    (gone : state.dropped side = true) : after.dropped side = true := by
  obtain ⟨-, rfl⟩ := step_ok step_eq
  cases call with
  | drop caller =>
      by_cases own : side = caller
      · simp [droppedBy, own]
      · simp [droppedBy, own, gone]
  | read _ _ _ _ | write _ _ _ _ | setNb _ _ => exact gone

/-- What its peer has read and can still read does not change once an endpoint is gone. -/
theorem SeesClose.step {state after : State} {call : Call} {bytes : List UInt8}
    (sees : SeesClose state call) (gone : state.dropped side = true)
    (total : delivered side.peer state.trace ++ (state.pair.bus side.peer).buffer.contents = bytes)
    (step_eq : step state call = .ok after) :
    delivered side.peer after.trace ++ (after.pair.bus side.peer).buffer.contents = bytes := by
  obtain ⟨alive, rfl⟩ := step_ok step_eq
  have caller : call.side = side.peer := caller_eq_peer gone alive
  have moved : (state.pair.bus call.side).buffer.contents =
      Event.delivered call.side ⟨call, (perform state.pair call).1⟩ ++
        ((perform state.pair call).2.bus call.side).buffer.contents := by
    cases call with
    | read reader len copied waker =>
        obtain ⟨-, front, rest⟩ := sees alive
        rw [Event.delivered, if_pos rfl]
        exact (List.take_append_drop (min len TEMP_SIZE) _).symm.trans
          (congrArg₂ _ front.symm rest.symm)
    | write _ _ _ _ => exact write_moves.read
    | setNb _ _ | drop _ => exact (perform_moves rfl).read
  rw [caller] at moved
  rw [← total, moved]
  simp [delivered]

/-- Once an endpoint is gone, the calls of a run on its peer all meet the law exactly when each read
of buffered bytes has its copy succeed and each write has bytes that cannot be copied, or a full
ring and an endpoint that does not block.  The peer then reads what was buffered, in order. -/
theorem peer_sees_close_iff {before : List Call} {state : State} {side : Side}
    (gone : state.dropped side = true)
    (run_eq : (service fun _ _ => True).run .new before = .ok state) (after : List Call) :
    ((service SeesClose).Permits state after ↔ (service SparesPeer).Permits state after) ∧
      ∀ final, (service SeesClose).Permits state after →
        (service SeesClose).run state after = .ok final →
        delivered side.peer final.trace ++ (final.pair.bus side.peer).buffer.contents =
          delivered side.peer state.trace ++ (state.pair.bus side.peer).buffer.contents := by
  have opened : ClosedByWriter .new := fun _ => rfl
  have keeps (state : State) (call : Call) (next : State) (holds : ClosedByWriter state)
      (_ : True) (step_eq : step state call = .ok next) : ClosedByWriter next :=
    holds.step step_eq
  have closed : ClosedByWriter state :=
    Machine.run_keeps (service fun _ _ => True) keeps opened
      (Machine.permits_of_mem _ _ fun _ _ _ => trivial) run_eq
  constructor
  · have keeps (state : State) (call : Call) (next : State)
        (holds : ClosedByWriter state ∧ state.dropped side = true)
        (step_eq : step state call = .ok next) : ClosedByWriter next ∧ next.dropped side = true :=
      ⟨holds.1.step step_eq, step_dropped step_eq holds.2⟩
    exact Machine.permits_congr keeps (fun _ _ holds => seesClose_iff holds.1 holds.2) after
      ⟨closed, gone⟩
  · intro final permits after_eq
    have keeps (current : State) (call : Call) (next : State)
        (holds : current.dropped side = true ∧
          delivered side.peer current.trace ++ (current.pair.bus side.peer).buffer.contents =
            delivered side.peer state.trace ++ (state.pair.bus side.peer).buffer.contents)
        (sees : SeesClose current call) (step_eq : step current call = .ok next) :
        next.dropped side = true ∧
          delivered side.peer next.trace ++ (next.pair.bus side.peer).buffer.contents =
            delivered side.peer state.trace ++ (state.pair.bus side.peer).buffer.contents :=
      ⟨step_dropped step_eq holds.1, sees.step holds.1 holds.2 step_eq⟩
    exact (Machine.run_keeps (service SeesClose) keeps ⟨gone, rfl⟩ permits after_eq).2

/-- The first endpoint goes with one byte written; its peer reads it and then the end. -/
theorem peer_sees_close_iff_one_byte :
    ∃ state, (service fun _ _ => True).run .new
        [.write .first [1] true 0, .drop .first] = .ok state ∧
      state.dropped .first = true ∧
      (service SeesClose).Permits state [.read .second 2 true 0, .read .second 2 true 0] := by
  obtain ⟨state, run_eq, gone⟩ : ∃ state, (service fun _ _ => True).run .new
      [.write .first [1] true 0, .drop .first] = .ok state ∧ state.dropped .first = true :=
    ⟨_, rfl, rfl⟩
  refine ⟨state, run_eq, gone, (peer_sees_close_iff gone run_eq _).1.mpr ?_⟩
  exact ⟨fun _ _ _ => rfl, fun _ _ => ⟨fun _ _ _ => rfl, fun _ _ => trivial⟩⟩

/-- The first endpoint goes and its peer writes a byte that is accepted. -/
theorem write_after_close_accepted :
    ∃ state, (service fun _ _ => True).run .new [.drop .first] = .ok state ∧
      state.dropped .first = true ∧
      (perform state.pair (.write .second [1] true 0)).1.poll = .ready (.ok 1) ∧
      ¬ (service SeesClose).Permits state [.write .second [1] true 0] := by
  refine ⟨_, rfl, rfl, rfl, fun sees => ?_⟩
  obtain ⟨⟨problem, poll_eq⟩, -⟩ := sees.1 rfl
  cases poll_eq

end Closing

end SocketStream
end Vespertine
