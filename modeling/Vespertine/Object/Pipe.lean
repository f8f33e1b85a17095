import Vespertine.Object.SocketStream

/-!
# A pipe from end to end

One thread calls `write_all` on one end of a socket pair and closes it; another calls `read_to_end`
on the other end.  The threads interleave inside the polls: a write checks the closed flag before it
takes the lock of the ring, and a read that finds the ring empty looks at the closed flag while it
still holds that lock.  Closing takes no lock.

A poll that is pending is made again once the thread is woken; here it may be made again at any
time.  The copies of the callers' memory succeed.
-/

namespace Vespertine
namespace Pipe

/-- Errors of the standard library's loops. -/
inductive IoError
  | invocation (problem : InvocationError)
  | writeFailed

/-- Where the writing thread is. -/
inductive WritePhase
  /-- At the head of the loop of `write_all`, or polling again. -/
  | calling
  /-- Past the checks of `write_async`, with the bytes in `temp_buf`. -/
  | copied
  /-- `write_all` has returned. -/
  | returned (result : Except IoError Unit)
  /-- The write end is closed. -/
  | closed (result : Except IoError Unit)

/-- Where the reading thread is. -/
inductive ReadPhase
  /-- In the loop of `read_to_end`, about to poll. -/
  | calling
  /-- Holding the lock of a ring it found empty. -/
  | drained
  /-- `read_to_end` has returned. -/
  | returned (result : Except IoError (List UInt8))

/-- A pipe in use. -/
structure State where
  pair : SocketPair
  /-- Bytes that `write_all` counts as written. -/
  total : Nat
  writer : WritePhase
  /-- Bytes that `read_to_end` has collected. -/
  buf : List UInt8
  reader : ReadPhase

/-- A new pair, blocking or not, before the first call. -/
def State.start (isNb : Side → Bool) : State :=
  ⟨{ SocketPair.newPair with isNb }, 0, .calling, [], .calling⟩

/-- The thread that moves, with the waker of its call. -/
inductive Move
  | write (waker : Waker)
  | read (waker : Waker)

/-- A thread that waits for a lock, or is done, does not move. -/
inductive Stuck
  | stuck

/-- What the loop of `write_all` does with the result of a poll. -/
def State.finishWrite (state : State) : Poll → State
  | .ready (.ok 0) => { state with writer := .returned (.error .writeFailed) }
  | .ready (.ok count) => { state with total := state.total + count, writer := .calling }
  | .ready (.error problem) => { state with writer := .returned (.error (.invocation problem)) }
  | .pending => { state with writer := .calling }

/-- What the loop of `read_to_end` does with the result of a poll. -/
def State.finishRead (state : State) (chunk : List UInt8) : Poll → State
  | .ready (.ok 0) => { state with reader := .returned (.ok state.buf) }
  | .ready (.ok count) => { state with buf := state.buf ++ chunk.take count, reader := .calling }
  | .ready (.error problem) => { state with reader := .returned (.error (.invocation problem)) }
  | .pending => { state with reader := .calling }

section Steps

variable (side : Side) (data : List UInt8)

/-- One step of the thread that writes `data` to the end `side` and then closes it. -/
def writeStep (state : State) (waker : Waker) : Except Stuck State :=
  match state.writer with
  | .calling =>
      if state.total < data.length then
        match state.pair.writeRefused side (data.length - state.total) true with
        | some outcome => .ok (state.finishWrite outcome.poll)
        | none => .ok { state with writer := .copied }
      else
        .ok { state with writer := .returned (.ok ()) }
  | .copied =>
      match state.reader with
      | .drained => .error .stuck
      | .calling | .returned _ =>
          let (outcome, pair) :=
            state.pair.writeLocked side ((data.drop state.total).take TEMP_SIZE) waker
          .ok ({ state with pair }.finishWrite outcome.poll)
  | .returned result =>
      .ok { state with pair := (state.pair.drop side).2, writer := .closed result }
  | .closed _ => .error .stuck

/-- One step of the thread that reads the other end. -/
def readStep (state : State) (waker : Waker) : Except Stuck State :=
  match state.reader with
  | .calling =>
      match state.pair.readBuffered side.peer TEMP_SIZE true with
      | some (outcome, pair) => .ok ({ state with pair }.finishRead outcome.delivered outcome.poll)
      | none => .ok { state with reader := .drained }
  | .drained =>
      let (outcome, pair) := state.pair.readDrained side.peer waker
      .ok ({ state with pair }.finishRead outcome.delivered outcome.poll)
  | .returned _ => .error .stuck

/-- One step of either thread. -/
def step (state : State) : Move → Except Stuck State
  | .write waker => writeStep side data state waker
  | .read waker => readStep side state waker

/-- The two threads, moving in any order. -/
def pipe : Machine State Move Stuck := ⟨step side data, fun _ _ => True⟩

end Steps

/-- `write_all` has returned `Ok`. -/
def WritePhase.succeeded : WritePhase → Prop
  | .returned result | .closed result => result = .ok ()
  | .calling | .copied => False

/-- The write end is closed. -/
def WritePhase.isClosed : WritePhase → Bool
  | .closed _ => true
  | .calling | .copied | .returned _ => false

/-- What the two threads keep. -/
structure Piped (side : Side) (data : List UInt8) (state : State) : Prop where
  total_le : state.total ≤ data.length
  /-- Bytes written are collected or in the ring. -/
  conserved : data.take state.total =
    state.buf ++ (state.pair.writeBus side).buffer.contents
  /-- The bus is closed by closing the write end. -/
  closed : (state.pair.writeBus side).isClosed = state.writer.isClosed
  /-- `write_all` succeeds when everything is written. -/
  complete : state.writer.succeeded → state.total = data.length
  /-- The ring stays empty while the reader holds its lock. -/
  empty : state.reader = .drained → (state.pair.writeBus side).buffer.contents = []
  /-- `read_to_end` succeeds when the ring is empty and closed. -/
  ended : ∀ bytes, state.reader = .returned (.ok bytes) → bytes = state.buf ∧
    (state.pair.writeBus side).buffer.contents = [] ∧ state.writer.isClosed = true

section Finish

/-- The bytes a poll counts. -/
def count : Poll → Nat
  | .ready (.ok count) => count
  | .ready (.error _) | .pending => 0

variable (state : State) (chunk : List UInt8) (poll : Poll)

@[simp] theorem finishWrite_pair : (state.finishWrite poll).pair = state.pair := by
  unfold State.finishWrite
  split <;> rfl

@[simp] theorem finishWrite_buf : (state.finishWrite poll).buf = state.buf := by
  unfold State.finishWrite
  split <;> rfl

@[simp] theorem finishWrite_reader : (state.finishWrite poll).reader = state.reader := by
  unfold State.finishWrite
  split <;> rfl

@[simp] theorem finishWrite_total :
    (state.finishWrite poll).total = state.total + count poll := by
  unfold State.finishWrite
  split <;> rfl

@[simp] theorem finishWrite_isClosed : (state.finishWrite poll).writer.isClosed = false := by
  unfold State.finishWrite
  split <;> rfl

@[simp] theorem finishWrite_succeeded : ¬ (state.finishWrite poll).writer.succeeded := by
  unfold State.finishWrite
  split <;> simp [WritePhase.succeeded]

@[simp] theorem finishRead_pair : (state.finishRead chunk poll).pair = state.pair := by
  unfold State.finishRead
  split <;> rfl

@[simp] theorem finishRead_total : (state.finishRead chunk poll).total = state.total := by
  unfold State.finishRead
  split <;> rfl

@[simp] theorem finishRead_writer : (state.finishRead chunk poll).writer = state.writer := by
  unfold State.finishRead
  split <;> rfl

@[simp] theorem finishRead_buf :
    (state.finishRead chunk poll).buf = state.buf ++ chunk.take (count poll) := by
  unfold State.finishRead
  split <;> simp [count]

theorem finishRead_ne_drained : (state.finishRead chunk poll).reader ≠ .drained := by
  unfold State.finishRead
  split <;> nofun

/-- `read_to_end` succeeds on `Ok(0)`. -/
theorem finishRead_ok {bytes : List UInt8}
    (reader_eq : (state.finishRead chunk poll).reader = .returned (.ok bytes)) :
    poll = .ready (.ok 0) ∧ bytes = state.buf := by
  unfold State.finishRead at reader_eq
  split at reader_eq <;> cases reader_eq
  exact ⟨rfl, rfl⟩

end Finish

section Polls

variable {pair next : SocketPair} {side : Side} {outcome : PollOutcome}

/-- A locked write appends what it counts. -/
theorem writeLocked_spec (temp : List UInt8) (waker : Waker) :
    ((pair.writeLocked side temp waker).2.writeBus side).buffer.contents =
        (pair.writeBus side).buffer.contents ++
          temp.take (count (pair.writeLocked side temp waker).1.poll) ∧
      count (pair.writeLocked side temp waker).1.poll ≤ temp.length ∧
      ((pair.writeLocked side temp waker).2.writeBus side).isClosed =
        (pair.writeBus side).isClosed := by
  rw [SocketPair.writeLocked]
  dsimp only
  split_ifs with closed full
  · simp [count]
  · simp [count]
  · simp [count, SocketPair.writeBus]
  · refine ⟨?_, Nat.min_le_left _ _, ?_⟩
    · rw [SocketPair.writeBus, SocketStream.setBus_same]
      exact (pair.writeBus side).buffer.contents_pushSlice temp
    · rw [SocketPair.writeBus, SocketStream.setBus_same]

/-- A write that is refused before it takes the lock counts nothing. -/
theorem writeRefused_count {len : Nat} (refused : pair.writeRefused side len true = some outcome) :
    count outcome.poll = 0 := by
  rw [SocketPair.writeRefused] at refused
  split_ifs at refused <;> cases refused <;> rfl

/-- A read of buffered bytes takes at least one from the front of the ring. -/
theorem readBuffered_spec
    (read_eq : pair.readBuffered side TEMP_SIZE true = some (outcome, next)) :
    (pair.bus side).buffer.contents = outcome.delivered ++ (next.bus side).buffer.contents ∧
      outcome.poll = .ready (.ok outcome.delivered.length) ∧ outcome.delivered ≠ [] ∧
      (next.bus side).isClosed = (pair.bus side).isClosed := by
  rw [SocketPair.readBuffered, if_neg (by decide)] at read_eq
  dsimp only at read_eq
  rw [if_pos rfl] at read_eq
  split_ifs at read_eq with empty
  cases read_eq
  obtain ⟨popped, length_eq⟩ := (pair.bus side).buffer.contents_popSlice (min TEMP_SIZE TEMP_SIZE)
  refine ⟨?_, rfl, fun none => empty ?_, ?_⟩
  · rw [SocketStream.setBus_same]
    exact popped
  · rw [RingBuffer.isEmpty_iff, ← List.length_eq_zero_iff, RingBuffer.length_contents]
    have zero : (0 : Nat) = min (min TEMP_SIZE TEMP_SIZE) (pair.bus side).buffer.len :=
      (congrArg List.length none).symm.trans length_eq
    have positive : 0 < TEMP_SIZE := by decide
    omega
  · rw [SocketStream.setBus_same]

/-- A read finds nothing only in an empty ring. -/
theorem readBuffered_none (read_eq : pair.readBuffered side TEMP_SIZE true = none) :
    (pair.bus side).buffer.contents = [] := by
  rw [SocketPair.readBuffered, if_neg (by decide)] at read_eq
  dsimp only at read_eq
  rw [if_pos rfl] at read_eq
  split_ifs at read_eq with empty
  exact RingBuffer.isEmpty_iff.mp empty

/-- A read of an empty ring moves nothing and ends the stream only if the bus is closed. -/
theorem readDrained_spec (waker : Waker) :
    ((pair.readDrained side waker).2.bus side).buffer = (pair.bus side).buffer ∧
      ((pair.readDrained side waker).2.bus side).isClosed = (pair.bus side).isClosed ∧
      (pair.readDrained side waker).1.delivered = [] ∧
      ((pair.readDrained side waker).1.poll = .ready (.ok 0) →
        (pair.bus side).isClosed = true) := by
  rw [SocketPair.readDrained]
  split_ifs with closed nb
  · exact ⟨rfl, rfl, rfl, fun _ => closed⟩
  · exact ⟨rfl, rfl, rfl, by rintro ⟨⟩⟩
  · exact ⟨by rw [SocketStream.setBus_same], by rw [SocketStream.setBus_same], rfl, by rintro ⟨⟩⟩

end Polls

section Run

variable {side : Side} {data : List UInt8} {state after : State} {waker : Waker}

/-- The writer, still open, writes some more bytes, or none. -/
theorem Piped.advance (piped : Piped side data state) (count : Nat)
    (opened : state.writer.isClosed = false) (le : state.total + count ≤ data.length)
    (total_eq : after.total = state.total + count) (buf_eq : after.buf = state.buf)
    (reader_eq : after.reader = state.reader)
    (contents_eq : (after.pair.writeBus side).buffer.contents =
      (state.pair.writeBus side).buffer.contents ++ (data.drop state.total).take count)
    (closed_eq : (after.pair.writeBus side).isClosed = (state.pair.writeBus side).isClosed)
    (still : after.writer.isClosed = false)
    (complete : after.writer.succeeded → after.total = data.length)
    (free : count = 0 ∨ state.reader ≠ .drained) : Piped side data after where
  total_le := by rw [total_eq]; exact le
  conserved := by
    rw [total_eq, buf_eq, contents_eq, List.take_add, piped.conserved, List.append_assoc]
  closed := by rw [closed_eq, piped.closed, opened, still]
  complete := complete
  empty drained := by
    rw [reader_eq] at drained
    obtain rfl : count = 0 := free.resolve_right fun free => free drained
    rw [contents_eq, piped.empty drained, List.take_zero, List.append_nil]
  ended bytes returned := by
    rw [reader_eq] at returned
    have closed := (piped.ended bytes returned).2.2
    rw [opened] at closed
    cases closed

/-- The writer's steps keep what both threads rely on. -/
theorem Piped.writeStep (piped : Piped side data state)
    (step_eq : writeStep side data state waker = .ok after) : Piped side data after := by
  rw [Pipe.writeStep] at step_eq
  split at step_eq
  next writer_eq =>
    have opened : state.writer.isClosed = false := by rw [writer_eq]; rfl
    split_ifs at step_eq with unfinished
    · split at step_eq
      next outcome refused =>
        cases step_eq
        have nothing := writeRefused_count refused
        refine piped.advance 0 opened piped.total_le ?_ (by simp) (by simp) (by simp)
          (by simp) (by simp) (by simp) (.inl rfl)
        rw [finishWrite_total, nothing]
      next =>
        cases step_eq
        exact piped.advance 0 opened piped.total_le rfl rfl rfl (by simp) rfl rfl nofun
          (.inl rfl)
    · cases step_eq
      refine piped.advance 0 opened piped.total_le rfl rfl rfl (by simp) rfl rfl ?_
        (.inl rfl)
      exact fun _ => Nat.le_antisymm piped.total_le (Nat.le_of_not_lt unfinished)
  next writer_eq =>
    have opened : state.writer.isClosed = false := by rw [writer_eq]; rfl
    have locked : state.reader ≠ .drained ∧ after = { state with
        pair := (state.pair.writeLocked side ((data.drop state.total).take TEMP_SIZE) waker).2
        }.finishWrite
          (state.pair.writeLocked side ((data.drop state.total).take TEMP_SIZE) waker).1.poll := by
      split at step_eq
      next => cases step_eq
      next reader_eq => exact ⟨by rw [reader_eq]; nofun, (Except.ok.inj step_eq).symm⟩
      next reader_eq => exact ⟨by rw [reader_eq]; nofun, (Except.ok.inj step_eq).symm⟩
    obtain ⟨free, rfl⟩ := locked
    obtain ⟨contents_eq, count_le, closed_eq⟩ :=
      @writeLocked_spec state.pair side ((data.drop state.total).take TEMP_SIZE) waker
    rw [List.length_take, List.length_drop] at count_le
    rw [List.take_take, Nat.min_eq_left (count_le.trans (Nat.min_le_left _ _))] at contents_eq
    have total_le := piped.total_le
    refine piped.advance _ opened ?_ (finishWrite_total _ _) (by simp) (by simp) (by simpa)
      (by simpa) (by simp) (by simp) (.inr free)
    omega
  next result writer_eq =>
    cases step_eq
    have same : ((state.pair.drop side).2.writeBus side).buffer =
        (state.pair.writeBus side).buffer := by
      rw [SocketPair.drop, SocketPair.writeBus, SocketStream.setBus_same]
    refine ⟨piped.total_le, ?_, ?_, fun succeeded => ?_, ?_, fun bytes returned => ?_⟩
    · rw [same]
      exact piped.conserved
    · rw [SocketPair.drop, SocketPair.writeBus, SocketStream.setBus_same]
      rfl
    · refine piped.complete ?_
      rw [writer_eq]
      exact succeeded
    · rw [same]
      exact piped.empty
    · obtain ⟨bytes_eq, none_left, -⟩ := piped.ended bytes returned
      exact ⟨bytes_eq, by rw [same]; exact none_left, rfl⟩
  next => cases step_eq

/-- The reader collects what a poll took from the ring, and stops when the stream has ended. -/
theorem Piped.finishRead {pair : SocketPair} {chunk : List UInt8} {poll : Poll}
    (piped : Piped side data state)
    (front : (state.pair.writeBus side).buffer.contents =
      chunk.take (count poll) ++ (pair.writeBus side).buffer.contents)
    (closed_eq : (pair.writeBus side).isClosed = (state.pair.writeBus side).isClosed)
    (ends : poll = .ready (.ok 0) → (pair.writeBus side).buffer.contents = [] ∧
      (state.pair.writeBus side).isClosed = true) :
    Piped side data ({ state with pair }.finishRead chunk poll) where
  total_le := by
    rw [finishRead_total]
    exact piped.total_le
  conserved := by
    rw [finishRead_total, finishRead_buf, finishRead_pair, List.append_assoc, ← front]
    exact piped.conserved
  closed := by
    rw [finishRead_pair, finishRead_writer]
    exact closed_eq.trans piped.closed
  complete := by
    rw [finishRead_total, finishRead_writer]
    exact piped.complete
  empty drained := absurd drained (finishRead_ne_drained _ _ _)
  ended bytes returned := by
    obtain ⟨poll_eq, bytes_eq⟩ := finishRead_ok _ _ _ returned
    obtain ⟨none_left, closed⟩ := ends poll_eq
    rw [finishRead_buf, finishRead_pair, finishRead_writer, poll_eq]
    refine ⟨bytes_eq.trans (List.append_nil _).symm, none_left, ?_⟩
    exact piped.closed.symm.trans closed

/-- The reader's steps keep what both threads rely on. -/
theorem Piped.readStep (piped : Piped side data state)
    (step_eq : readStep side state waker = .ok after) : Piped side data after := by
  rw [Pipe.readStep] at step_eq
  split at step_eq
  next reader_eq =>
    split at step_eq
    next outcome pair read_eq =>
      cases step_eq
      obtain ⟨front, poll_eq, some, closed_eq⟩ := readBuffered_spec read_eq
      refine piped.finishRead ?_ closed_eq fun ended => ?_
      · rw [poll_eq]
        exact front.trans (congrArg (· ++ _) (List.take_length).symm)
      · rw [poll_eq] at ended
        injection ended with ended
        injection ended with zero
        exact absurd (List.eq_nil_of_length_eq_zero zero) some
    next read_eq =>
      cases step_eq
      exact { piped with
        empty _ := readBuffered_none read_eq
        ended := nofun }
  next reader_eq =>
    obtain ⟨buffer_eq, closed_eq, nothing, ends⟩ := @readDrained_spec state.pair side.peer waker
    generalize state.pair.readDrained side.peer waker = result at *
    cases step_eq
    refine piped.finishRead ?_ closed_eq fun ended => ⟨?_, ends ended⟩
    · rw [nothing, List.take_nil, List.nil_append]
      exact congrArg _ buffer_eq.symm
    · exact (congrArg _ buffer_eq).trans (piped.empty reader_eq)
  next => cases step_eq

/-- Either thread's steps keep what both rely on. -/
theorem Piped.step {move : Move} (piped : Piped side data state)
    (step_eq : step side data state move = .ok after) : Piped side data after := by
  cases move with
  | write waker => exact piped.writeStep step_eq
  | read waker => exact piped.readStep step_eq

/-- In every run of the two threads, `read_to_end` returns `Ok` only after the write end is closed
and with every byte that was written; if `write_all` returned `Ok` these are all the bytes. -/
theorem pipe_end_to_end {isNb : Side → Bool} {moves : List Move} {final : State}
    (run_eq : (pipe side data).run (.start isNb) moves = .ok final) (bytes : List UInt8)
    (returned : final.reader = .returned (.ok bytes)) :
    final.writer.isClosed = true ∧ bytes = data.take final.total ∧
      (final.writer.succeeded → bytes = data) := by
  have start : Piped side data (.start isNb) :=
    ⟨Nat.zero_le _, rfl, rfl, nofun, nofun, nofun⟩
  have keeps (state : State) (move : Move) (next : State) (holds : Piped side data state)
      (_ : True) (step_eq : Pipe.step side data state move = .ok next) : Piped side data next :=
    holds.step step_eq
  have piped : Piped side data final :=
    Machine.run_keeps (pipe side data) keeps start
      (Machine.permits_of_mem _ _ fun _ _ _ => trivial) run_eq
  obtain ⟨bytes_eq, none_left, closed⟩ := piped.ended bytes returned
  have all_written : bytes = data.take final.total := by
    rw [piped.conserved, none_left, List.append_nil, bytes_eq]
  refine ⟨closed, all_written, fun succeeded => ?_⟩
  rw [all_written, piped.complete succeeded, List.take_length]

/-- Three bytes go through a pipe whose reader polls before they are written and again before the
write end is closed. -/
theorem pipe_end_to_end_three_bytes :
    ∃ final, (pipe .first [1, 2, 3]).run (.start fun _ => false)
        [.write 0, .read 1, .read 1, .write 0, .read 1, .read 1, .write 0, .write 0, .read 1] =
          .ok final ∧
      final.reader = .returned (.ok [1, 2, 3]) ∧ final.writer.succeeded ∧
      ([1, 2, 3] : List UInt8) = [1, 2, 3].take final.total := by
  obtain ⟨final, run_eq, returned, succeeded⟩ : ∃ final, (pipe .first [1, 2, 3]).run
      (.start fun _ => false)
        [.write 0, .read 1, .read 1, .write 0, .read 1, .read 1, .write 0, .write 0, .read 1] =
          .ok final ∧
      final.reader = .returned (.ok [1, 2, 3]) ∧ final.writer.succeeded := ⟨_, rfl, rfl, rfl⟩
  exact ⟨final, run_eq, returned, succeeded, (pipe_end_to_end run_eq _ returned).2.1⟩

end Run

end Pipe
end Vespertine
