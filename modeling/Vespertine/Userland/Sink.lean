import Mathlib.Algebra.Order.BigOperators.Group.List
import Vespertine.Object.SocketStream

/-!
# Printing

`print!` collects what is formatted in a buffer of 1024 bytes and writes the buffer to the sink when
it is full and when it is dropped.  The sink is a socket.  A write to a socket takes at most 512
bytes, and no more than there is room for; how many it took is what the write returns, and the
buffer is empty afterwards whatever that is.
-/

namespace Vespertine
namespace Sink

/-- Length of the buffer. -/
def BUF_SIZE : Nat := 1024

/-- The buffer: its bytes up to `pos`. -/
structure SinkWriter where
  buf : List UInt8
  fits : buf.length ≤ BUF_SIZE

namespace SinkWriter

/-- An empty buffer. -/
def new : SinkWriter := ⟨[], Nat.zero_le _⟩

/-- The bytes given to `sys_invoke`, if any, and the buffer afterwards: the answer is ignored. -/
def flush (writer : SinkWriter) : List (List UInt8) × SinkWriter :=
  if writer.buf.length = 0 then ([], writer) else ([writer.buf], new)

/-- The loop of `write_str`, and what its flushes give to `sys_invoke`. -/
def writeStr (writer : SinkWriter) (bytes : List UInt8) : List (List UInt8) × SinkWriter :=
  if ended : bytes = [] then
    ([], writer)
  else
    let space := BUF_SIZE - writer.buf.length
    if full : space = 0 then
      let (more, last) := writer.flush.2.writeStr bytes
      (writer.flush.1 ++ more, last)
    else
      let chunkSize := min bytes.length space
      writeStr ⟨writer.buf ++ bytes.take chunkSize, by
        have fits := writer.fits
        rw [List.length_append, List.length_take]
        omega⟩ (bytes.drop chunkSize)
termination_by (bytes.length, writer.buf.length)
decreasing_by
  · have some_buf : writer.buf.length ≠ 0 := by
      intro empty
      have none_left : BUF_SIZE - writer.buf.length = 0 := full
      rw [empty] at none_left
      cases none_left
    rw [flush, if_neg some_buf]
    exact Prod.Lex.right _ (Nat.pos_of_ne_zero some_buf)
  · refine Prod.Lex.left _ _ ?_
    have some_bytes : 0 < bytes.length := List.length_pos_of_ne_nil ended
    rw [List.length_drop]
    omega

/-- A sequence of `write_str` calls and the drop of the writer. -/
def print (writer : SinkWriter) : List (List UInt8) → List (List UInt8)
  | [] => writer.flush.1
  | bytes :: rest => (writer.writeStr bytes).1 ++ (writer.writeStr bytes).2.print rest

/-- Whatever the strings, the buffers written hold them in order. -/
theorem writeStr_spec (writer : SinkWriter) (bytes : List UInt8) :
    (writer.writeStr bytes).1.flatten ++ (writer.writeStr bytes).2.buf = writer.buf ++ bytes ∧
      ∀ block ∈ (writer.writeStr bytes).1, block.length = BUF_SIZE := by
  fun_induction writeStr writer bytes with
  | case1 writer => exact ⟨(List.append_nil _).symm, nofun⟩
  | case2 writer bytes ended space full more last rest_eq ih =>
      have fits := writer.fits
      have length_eq : writer.buf.length = BUF_SIZE := by
        have none_left : BUF_SIZE - writer.buf.length = 0 := full
        omega
      have flush_eq : writer.flush = ([writer.buf], new) :=
        if_neg (by rw [length_eq]; decide)
      rw [rest_eq, flush_eq] at ih
      rw [flush_eq]
      obtain ⟨joined, sizes⟩ := ih
      refine ⟨?_, fun block mem => ?_⟩
      · exact (List.append_assoc ..).trans (congrArg (writer.buf ++ ·) joined)
      · rcases List.mem_cons.mp mem with rfl | mem
        · exact length_eq
        · exact sizes block mem
  | case3 writer bytes ended space full chunkSize ih =>
      refine ⟨?_, ih.2⟩
      rw [ih.1, List.append_assoc, List.take_append_drop]

/-- What is written: whole buffers, and the rest if there is any. -/
theorem print_spec (writer : SinkWriter) (strings : List (List UInt8)) :
    ∃ full rest, writer.print strings = full ++ (if rest = [] then [] else [rest]) ∧
      full.flatten ++ rest = writer.buf ++ strings.flatten ∧
      ∀ block ∈ full, block.length = BUF_SIZE := by
  induction strings generalizing writer with
  | nil =>
      refine ⟨[], writer.buf, ?_, by simp, nofun⟩
      simp only [print, flush, List.nil_append, List.length_eq_zero_iff]
      split <;> rfl
  | cons bytes strings ih =>
      obtain ⟨joined, sizes⟩ := writer.writeStr_spec bytes
      obtain ⟨full, rest, print_eq, rest_joined, full_sizes⟩ := ih (writer.writeStr bytes).2
      refine ⟨(writer.writeStr bytes).1 ++ full, rest, ?_, ?_, fun block mem => ?_⟩
      · rw [print, print_eq, List.append_assoc]
      · rw [List.flatten_append, List.append_assoc, rest_joined, ← List.append_assoc, joined,
          List.append_assoc, List.flatten_cons]
      · rcases List.mem_append.mp mem with mem | mem
        · exact sizes block mem
        · exact full_sizes block mem

end SinkWriter

/-- The buffers that printing some strings writes. -/
def blocksOf (strings : List (List UInt8)) : List (List UInt8) := SinkWriter.new.print strings

theorem flatten_blocksOf (strings : List (List UInt8)) :
    (blocksOf strings).flatten = strings.flatten := by
  obtain ⟨full, rest, print_eq, joined, -⟩ := SinkWriter.new.print_spec strings
  rw [blocksOf, print_eq, List.flatten_append, ← List.nil_append strings.flatten]
  refine Eq.trans ?_ joined
  split
  next empty => rw [empty]; rfl
  next => rw [List.flatten_singleton]

theorem ne_nil_of_mem_blocksOf {strings : List (List UInt8)} {block : List UInt8}
    (mem : block ∈ blocksOf strings) : block ≠ [] := by
  obtain ⟨full, rest, print_eq, -, sizes⟩ := SinkWriter.new.print_spec strings
  rw [blocksOf, print_eq] at mem
  rcases List.mem_append.mp mem with mem | mem
  · rintro rfl
    exact absurd (sizes [] mem) (by decide)
  · split at mem
    next => cases mem
    next some_rest => exact List.mem_singleton.mp mem ▸ some_rest

/-- A few bytes are one buffer. -/
theorem blocksOf_small {strings : List (List UInt8)} (small : strings.flatten.length < BUF_SIZE) :
    blocksOf strings = if strings.flatten = [] then [] else [strings.flatten] := by
  obtain ⟨full, rest, print_eq, joined, sizes⟩ := SinkWriter.new.print_spec strings
  rw [SinkWriter.new, List.nil_append] at joined
  have none_full : full = [] := by
    cases full with
    | nil => rfl
    | cons block full =>
        have size_eq := sizes block (List.mem_cons_self ..)
        rw [← joined, List.flatten_cons, List.append_assoc, List.length_append] at small
        omega
  rw [blocksOf, print_eq, none_full, List.nil_append, ← joined, none_full, List.flatten_nil,
    List.nil_append]

/-- More than a write can take are in some buffer that a write cannot take. -/
theorem exists_large_block {strings : List (List UInt8)}
    (large : TEMP_SIZE < strings.flatten.length) :
    ∃ block ∈ blocksOf strings, TEMP_SIZE < block.length := by
  obtain ⟨full, rest, print_eq, joined, sizes⟩ := SinkWriter.new.print_spec strings
  rw [SinkWriter.new, List.nil_append] at joined
  rw [blocksOf, print_eq]
  cases full with
  | nil =>
      rw [← joined, List.flatten_nil, List.nil_append] at large
      have some_rest : rest ≠ [] := by
        rintro rfl
        cases large
      refine ⟨rest, ?_, large⟩
      rw [if_neg some_rest, List.nil_append]
      exact List.mem_singleton_self rest
  | cons block full =>
      refine ⟨block, List.mem_cons_self .., ?_⟩
      rw [sizes block (List.mem_cons_self ..)]
      decide

/-! ## Writing to a socket -/

/-- The sink, with a writer that prints to one of its endpoints. -/
structure State where
  pair : SocketPair
  /-- Buffers still to be written. -/
  blocks : List (List UInt8)
  /-- Bytes that the sink has taken. -/
  accepted : List UInt8

/-- What happens next. -/
inductive Input
  /-- The write of the first buffer is polled. -/
  | poll
  /-- The other endpoint reads; its buffer may be bad. -/
  | read (len : Nat) (copied : Bool)

/-- There is nothing to write. -/
inductive Idle
  | idle

/-- Go on; `side` is the endpoint that is written to. -/
def step (side : Side) (state : State) : Input → Except Idle State
  | .read len copied =>
      .ok { state with pair := (state.pair.readAsync side.peer len copied 2).2 }
  | .poll =>
      match state.blocks with
      | [] => .error .idle
      | block :: blocks =>
          let (outcome, pair) := state.pair.writeAsync side block true 1
          match outcome.poll with
          | .pending => .ok { state with pair }
          | .ready (.ok count) =>
              .ok { pair, blocks, accepted := state.accepted ++ block.take count }
          | .ready (.error _) => .ok { state with pair, blocks }

/-- A writer and a reader that never closes. -/
def printing (side : Side) : Machine State Input Idle := ⟨step side, fun _ _ => True⟩

/-- The endpoint blocks, and its peer is there. -/
structure Connected (pair : SocketPair) (side : Side) : Prop where
  is_open : (pair.writeBus side).isClosed = false
  blocking : pair.isNb side = false

/-- Room in the ring that is written to. -/
def room (pair : SocketPair) (side : Side) : Nat := (pair.writeBus side).buffer.availableSpace

section Steps

variable {state next : State} {side : Side} {block : List UInt8} {blocks : List (List UInt8)}

open SocketStream (setBus_same setBus_other setBus_agrees)

theorem room_eq_zero_iff {pair : SocketPair} :
    room pair side = 0 ↔ (pair.writeBus side).buffer.isFull = true := by
  have len_lt := (pair.writeBus side).buffer.len_lt
  rw [room, RingBuffer.availableSpace_eq, RingBuffer.isFull_iff]
  omega

/-- A poll waits while the ring is full, and takes what fits then. -/
theorem poll_eq (connected : Connected state.pair side) (blocks_eq : state.blocks = block :: blocks)
    (some_bytes : block ≠ []) :
    ∃ pair, Connected pair side ∧
      (room state.pair side = 0 ∧ room pair side = 0 ∧
          step side state .poll = .ok { state with pair } ∨
        0 < room state.pair side ∧ step side state .poll =
          .ok ⟨pair, blocks, state.accepted ++
            block.take (min (min TEMP_SIZE block.length) (room state.pair side))⟩) := by
  obtain ⟨is_open, blocking⟩ := connected
  have not_refused : state.pair.writeRefused side block.length true = none := by
    rw [SocketPair.writeRefused, is_open, if_neg Bool.false_ne_true,
      if_neg (mt List.length_eq_zero_iff.mp some_bytes), if_pos rfl]
  have step_eq : step side state .poll =
      match (state.pair.writeLocked side (block.take TEMP_SIZE) 1) with
      | (outcome, pair) => match outcome.poll with
          | .pending => .ok { state with pair }
          | .ready (.ok count) =>
              .ok { pair, blocks, accepted := state.accepted ++ block.take count }
          | .ready (.error _) => .ok { state with pair, blocks } := by
    simp only [step, blocks_eq, SocketPair.writeAsync, not_refused]
  have not_closed : ¬(state.pair.writeBus side).isClosed = true := by
    rw [is_open]
    exact Bool.false_ne_true
  have not_nb : ¬state.pair.isNb side = true := by
    rw [blocking]
    exact Bool.false_ne_true
  by_cases full : (state.pair.writeBus side).buffer.isFull = true
  · obtain ⟨waiting, waiting_eq⟩ : ∃ waiting, waiting = state.pair.setBus side.peer
        { state.pair.writeBus side with writeWaker := some 1 } := ⟨_, rfl⟩
    have locked_eq : state.pair.writeLocked side (block.take TEMP_SIZE) 1 =
        (⟨.pending, [], []⟩, waiting) := by
      rw [SocketPair.writeLocked, if_neg not_closed, if_pos full, if_neg not_nb, waiting_eq]
    have bus_eq : waiting.writeBus side =
        { state.pair.writeBus side with writeWaker := some 1 } := by
      rw [SocketPair.writeBus, waiting_eq, setBus_same]
    refine ⟨waiting, ⟨by rw [bus_eq]; exact is_open, by rw [waiting_eq]; exact blocking⟩,
      .inl ⟨room_eq_zero_iff.mpr full, ?_, ?_⟩⟩
    · rw [room_eq_zero_iff, bus_eq]
      exact full
    · rw [step_eq, locked_eq]
  · obtain ⟨after, after_eq⟩ : ∃ after, after = state.pair.setBus side.peer
        { state.pair.writeBus side with
          buffer := ((state.pair.writeBus side).buffer.pushSlice (block.take TEMP_SIZE)).2
          readWaker := none } := ⟨_, rfl⟩
    have locked_eq : state.pair.writeLocked side (block.take TEMP_SIZE) 1 =
        (⟨.ready (.ok (min (min TEMP_SIZE block.length) (room state.pair side))), [],
          (state.pair.writeBus side).readWaker.toList⟩, after) := by
      rw [SocketPair.writeLocked, if_neg not_closed, if_neg full, room, ← List.length_take,
        after_eq]
      rfl
    refine ⟨after, ⟨?_, by rw [after_eq]; exact blocking⟩,
      .inr ⟨Nat.pos_of_ne_zero (mt room_eq_zero_iff.mp full), ?_⟩⟩
    · rw [SocketPair.writeBus, after_eq, setBus_same]
      exact is_open
    · rw [step_eq, locked_eq]

theorem len_readAsync (pair : SocketPair) (side : Side) (len : Nat) (copied : Bool)
    (waker : Waker) :
    ((pair.readAsync side len copied waker).2.bus side).buffer.len +
        min (min len TEMP_SIZE) (pair.bus side).buffer.len = (pair.bus side).buffer.len ∧
      (pair.readAsync side len copied waker).2.isNb = pair.isNb := by
  have popped := (pair.bus side).buffer.contents_popSlice (min len TEMP_SIZE)
  have rest := congrArg List.length popped.1
  rw [List.length_append, popped.2, RingBuffer.length_contents, RingBuffer.length_contents] at rest
  rw [SocketPair.readAsync, SocketPair.readBuffered]
  split
  next none_asked => exact ⟨by rw [none_asked]; simp, rfl⟩
  next =>
    dsimp only
    split
    next drained =>
      have none_left : (pair.bus side).buffer.len = 0 := by
        rw [← RingBuffer.length_contents, RingBuffer.isEmpty_iff.mp drained]
        rfl
      rw [Option.getD_none, SocketPair.readDrained, none_left, Nat.min_zero, Nat.add_zero]
      split_ifs
      · exact ⟨none_left, rfl⟩
      · exact ⟨none_left, rfl⟩
      · exact ⟨by rw [setBus_same]; exact none_left, rfl⟩
    next =>
      split_ifs
      · rw [Option.getD_some, setBus_same]
        exact ⟨(Nat.add_comm ..).trans rest.symm, rfl⟩
      · rw [Option.getD_some, setBus_same]
        exact ⟨(Nat.add_comm ..).trans rest.symm, rfl⟩

/-- A read makes room for the bytes that it takes. -/
theorem read_eq (connected : Connected state.pair side) (len : Nat) (copied : Bool) :
    ∃ pair, step side state (.read len copied) = .ok { state with pair } ∧ Connected pair side ∧
      room pair side =
        room state.pair side + min (min len TEMP_SIZE) (state.pair.writeBus side).buffer.len := by
  obtain ⟨shorter, nb_eq⟩ := len_readAsync state.pair side.peer len copied 2
  have len_lt := (state.pair.writeBus side).buffer.len_lt
  refine ⟨_, rfl, ⟨?_, ?_⟩, ?_⟩
  · exact (SocketStream.readAsync_isClosed len copied 2 side.peer).trans connected.is_open
  · rw [nb_eq]
    exact connected.blocking
  · rw [room, room, RingBuffer.availableSpace_eq, RingBuffer.availableSpace_eq]
    simp only [SocketPair.writeBus] at len_lt shorter ⊢
    omega

end Steps

/-! ## What arrives -/

/-- Strings are printed by a writer that starts with an empty buffer. -/
def start (pair : SocketPair) (strings : List (List UInt8)) : State := ⟨pair, blocksOf strings, []⟩

/-- However the writer's polls and the reader's reads come, the sink takes the strings in order; and
a read is enough for the next write to go through. -/
structure Delivers (side : Side) (pair : SocketPair) (strings : List (List UInt8)) : Prop where
  whole : ∀ inputs final, (printing side).run (start pair strings) inputs = .ok final →
    final.blocks = [] → final.accepted = strings.flatten
  progress : ∀ inputs mid, (printing side).run (start pair strings) inputs = .ok mid →
    mid.blocks ≠ [] → ∀ len ≠ 0, ∀ copied, ∃ final,
      (printing side).run mid [.read len copied, .poll] = .ok final ∧
        final.blocks = mid.blocks.tail

/-- The buffers still to be written hold bytes, and the sink takes at most so many in all. -/
structure Bounded (side : Side) (total : Nat) (state : State) : Prop where
  connected : Connected state.pair side
  some_bytes : ∀ block ∈ state.blocks, block ≠ []
  bounded : state.accepted.length +
    (state.blocks.map fun block => min TEMP_SIZE block.length).sum ≤ total

section Runs

variable {side : Side} {total : Nat} {state next : State}

theorem Bounded.step (held : Bounded side total state) {input : Input}
    (step_eq : step side state input = .ok next) : Bounded side total next := by
  obtain ⟨connected, some_bytes, bounded⟩ := held
  cases input with
  | read len copied =>
      obtain ⟨pair, read_eq, connected, -⟩ := read_eq connected len copied
      rw [read_eq] at step_eq
      cases step_eq
      exact ⟨connected, some_bytes, bounded⟩
  | poll =>
      cases blocks_eq : state.blocks with
      | nil =>
          rw [Sink.step, blocks_eq] at step_eq
          cases step_eq
      | cons block blocks =>
          rw [blocks_eq] at some_bytes bounded
          obtain ⟨pair, after, ⟨-, -, poll_eq⟩ | ⟨-, poll_eq⟩⟩ :=
            poll_eq connected blocks_eq (some_bytes block (List.mem_cons_self ..))
          · rw [poll_eq] at step_eq
            cases step_eq
            rw [blocks_eq]
            exact ⟨after, some_bytes, bounded⟩
          · rw [poll_eq] at step_eq
            cases step_eq
            refine ⟨after, fun other mem => some_bytes other (List.mem_cons_of_mem _ mem), ?_⟩
            rw [List.map_cons, List.sum_cons] at bounded
            rw [List.length_append, List.length_take]
            dsimp only
            omega

/-- After a read the next write goes through. -/
theorem Bounded.read_poll (held : Bounded side total state) (some_left : state.blocks ≠ [])
    {len : Nat} (some_asked : len ≠ 0) (copied : Bool) :
    ∃ final, (printing side).run state [.read len copied, .poll] = .ok final ∧
      final.blocks = state.blocks.tail := by
  obtain ⟨connected, some_bytes, -⟩ := held
  obtain ⟨block, blocks, blocks_eq⟩ := List.exists_cons_of_ne_nil some_left
  obtain ⟨pair, read_eq, connected, room_eq⟩ := read_eq connected len copied
  have has_room : 0 < room pair side := by
    have temp_pos : 0 < TEMP_SIZE := by decide
    have size : BUFFER_SIZE = 4096 := rfl
    rw [room_eq, room, RingBuffer.availableSpace_eq]
    omega
  obtain ⟨after, -, ⟨none_left, -⟩ | ⟨-, poll_eq⟩⟩ :=
    @poll_eq { state with pair } side block blocks connected blocks_eq
      (some_bytes block (blocks_eq ▸ List.mem_cons_self ..))
  · exact absurd none_left (Nat.ne_of_gt has_room)
  · have read_step : (printing side).step state (.read len copied) = .ok { state with pair } :=
      read_eq
    have poll_step : (printing side).step { state with pair } .poll = .ok _ := poll_eq
    refine ⟨_, ((printing side).run_cons_ok _ read_step).trans
      ((printing side).run_cons_ok _ poll_step), ?_⟩
    rw [blocks_eq]
    rfl

/-- Every write goes through in the end. -/
theorem Bounded.completes (held : Bounded side total state) :
    ∃ inputs final, (printing side).run state inputs = .ok final ∧ final.blocks = [] := by
  obtain ⟨count, count_eq⟩ : ∃ count, count = state.blocks.length := ⟨_, rfl⟩
  induction count generalizing state with
  | zero => exact ⟨[], state, rfl, List.eq_nil_of_length_eq_zero count_eq.symm⟩
  | succ count ih =>
      have some_left : state.blocks ≠ [] := by
        intro empty
        rw [empty] at count_eq
        cases count_eq
      obtain ⟨mid, mid_eq, blocks_eq⟩ := held.read_poll some_left Nat.one_ne_zero true
      have mid_held : Bounded side total mid := (printing side).run_invariant
        (fun _ _ _ held step_eq => Bounded.step held step_eq) held mid_eq
      obtain ⟨inputs, final, run_eq, done⟩ := ih mid_held (by
        rw [blocks_eq, List.length_tail, ← count_eq]
        rfl)
      exact ⟨_, final, ((printing side).run_append_ok inputs mid_eq).trans run_eq, done⟩

/-- The run of one small buffer: it waits with no less room than at the start, or all of it has been
taken. -/
def Small (side : Side) (start : SocketPair) (bytes : List UInt8) (state : State) : Prop :=
  Connected state.pair side ∧
    (state.blocks = [bytes] ∧ state.accepted = [] ∧ room start side ≤ room state.pair side ∨
      state.blocks = [] ∧ state.accepted = bytes)

theorem Small.step {origin : SocketPair} {bytes : List UInt8} (held : Small side origin bytes state)
    (some_bytes : bytes ≠ []) (small : bytes.length ≤ TEMP_SIZE)
    (fits : bytes.length ≤ max 1 (room origin side)) {input : Input}
    (step_eq : Sink.step side state input = .ok next) : Small side origin bytes next := by
  obtain ⟨connected, cases_held⟩ := held
  cases input with
  | read len copied =>
      obtain ⟨pair, read_eq, connected, room_eq⟩ := read_eq connected len copied
      rw [read_eq] at step_eq
      cases step_eq
      refine ⟨connected, cases_held.imp_left fun ⟨blocks_eq, accepted_eq, le⟩ =>
        ⟨blocks_eq, accepted_eq, ?_⟩⟩
      dsimp only
      omega
  | poll =>
      rcases cases_held with ⟨blocks_eq, accepted_eq, le⟩ | ⟨blocks_eq, -⟩
      · obtain ⟨pair, after, ⟨none_left, still_none, poll_eq⟩ | ⟨some_left, poll_eq⟩⟩ :=
          poll_eq connected blocks_eq some_bytes
        · rw [poll_eq] at step_eq
          cases step_eq
          exact ⟨after, .inl ⟨blocks_eq, accepted_eq, by dsimp only; omega⟩⟩
        · rw [poll_eq] at step_eq
          cases step_eq
          refine ⟨after, .inr ⟨rfl, ?_⟩⟩
          rw [accepted_eq, List.nil_append]
          exact List.take_of_length_le (by omega)
      · rw [Sink.step, blocks_eq] at step_eq
        cases step_eq

end Runs

section Printing

variable {side : Side} {pair : SocketPair} {strings : List (List UInt8)}

theorem bounded_start (connected : Connected pair side) (strings : List (List UInt8)) :
    Bounded side ((blocksOf strings).map fun block => min TEMP_SIZE block.length).sum
      (start pair strings) :=
  ⟨connected, fun _ mem => ne_nil_of_mem_blocksOf mem, by simp [start]⟩

/-- A buffer that a write cannot take is not taken whole. -/
theorem length_lt_of_large (large : TEMP_SIZE < strings.flatten.length) :
    ((blocksOf strings).map fun block => min TEMP_SIZE block.length).sum <
      strings.flatten.length := by
  obtain ⟨block, mem, block_large⟩ := exists_large_block large
  rw [← flatten_blocksOf, List.length_flatten]
  exact List.sum_lt_sum _ _ (fun _ _ => Nat.min_le_right _ _) ⟨block, mem, by omega⟩

/-- More bytes than there is room for are not taken whole by the write that goes through first. -/
theorem exists_partial_run (connected : Connected pair side)
    (small : strings.flatten.length ≤ TEMP_SIZE)
    (large : max 1 (room pair side) < strings.flatten.length) :
    ∃ inputs final, (printing side).run (start pair strings) inputs = .ok final ∧
      final.blocks = [] ∧ final.accepted.length < strings.flatten.length := by
  have some_bytes : strings.flatten ≠ [] := by
    intro empty
    rw [empty] at large
    cases large
  have blocks_eq : blocksOf strings = [strings.flatten] := by
    rw [blocksOf_small (small.trans_lt (by decide)), if_neg some_bytes]
  by_cases full : room pair side = 0
  · -- The reader takes one byte; the write that waited takes one.
    obtain ⟨after, read_eq, after_connected, room_eq⟩ :=
      @read_eq (start pair strings) side connected 1 true
    have one_left : room after side = 1 := by
      have temp_size : TEMP_SIZE = 512 := rfl
      have size : BUFFER_SIZE = 4096 := rfl
      rw [room, RingBuffer.availableSpace_eq] at full
      rw [room_eq, room, RingBuffer.availableSpace_eq]
      simp only [start] at *
      omega
    obtain ⟨last, -, ⟨none_left, -⟩ | ⟨-, poll_eq⟩⟩ :=
      @poll_eq ⟨after, blocksOf strings, []⟩ side _ _ after_connected blocks_eq some_bytes
    · rw [one_left] at none_left
      cases none_left
    · have read_step : (printing side).step (start pair strings) (.read 1 true) = .ok _ := read_eq
      have poll_step : (printing side).step ⟨after, blocksOf strings, []⟩ .poll = .ok _ := poll_eq
      refine ⟨[.read 1 true, .poll], _, ((printing side).run_cons_ok _ read_step).trans
        ((printing side).run_cons_ok _ poll_step), rfl, ?_⟩
      rw [List.nil_append, List.length_take, one_left]
      omega
  · obtain ⟨last, -, ⟨none_left, -⟩ | ⟨-, poll_eq⟩⟩ :=
      @poll_eq (start pair strings) side _ _ connected blocks_eq some_bytes
    · exact absurd none_left full
    · have poll_step : (printing side).step (start pair strings) .poll = .ok _ := poll_eq
      refine ⟨[.poll], _, (printing side).run_cons_ok _ poll_step, rfl, ?_⟩
      have room_eq : room (start pair strings).pair side = room pair side := rfl
      rw [List.length_append, List.length_take, room_eq]
      simp only [start, List.length_nil]
      omega

end Printing

/-- Every byte of the strings arrives, however the reader reads, if and only if they are at most 512
in all, and no more than there is room for at the start or than the one for which a full ring has
room after a read. -/
theorem print_delivers_iff {side : Side} {pair : SocketPair} {strings : List (List UInt8)}
    (connected : Connected pair side) :
    Delivers side pair strings ↔
      strings.flatten.length ≤ TEMP_SIZE ∧ strings.flatten.length ≤ max 1 (room pair side) := by
  have held_start := bounded_start connected strings
  constructor
  · rintro ⟨whole, -⟩
    have small : strings.flatten.length ≤ TEMP_SIZE := by
      by_contra large
      obtain ⟨inputs, final, run_eq, done⟩ := held_start.completes
      have held := (printing side).run_invariant
        (fun _ _ _ held step_eq => Bounded.step held step_eq) held_start run_eq
      have bounded := held.bounded
      have short := length_lt_of_large (Nat.lt_of_not_le large)
      rw [whole inputs final run_eq done] at bounded
      omega
    refine ⟨small, ?_⟩
    by_contra large
    obtain ⟨inputs, final, run_eq, done, short⟩ :=
      exists_partial_run connected small (Nat.lt_of_not_le large)
    rw [whole inputs final run_eq done] at short
    exact lt_irrefl _ short
  · rintro ⟨small, fits⟩
    refine ⟨fun inputs final run_eq done => ?_,
      fun inputs mid run_eq some_left len asked copied => ?_⟩
    · by_cases empty : strings.flatten = []
      · have held := (printing side).run_invariant
          (fun _ _ _ held step_eq => Bounded.step held step_eq) held_start run_eq
        have bounded := held.bounded
        rw [blocksOf_small (by rw [empty]; decide), if_pos empty] at bounded
        rw [empty]
        exact List.eq_nil_of_length_eq_zero (Nat.eq_zero_of_add_eq_zero_right
          (Nat.eq_zero_of_le_zero bounded))
      · have blocks_eq : blocksOf strings = [strings.flatten] := by
          rw [blocksOf_small (small.trans_lt (by decide)), if_neg empty]
        have held : Small side pair strings.flatten final := (printing side).run_invariant
          (fun _ _ _ held step_eq => Small.step held empty small fits step_eq)
          ⟨connected, .inl ⟨blocks_eq, rfl, le_rfl⟩⟩ run_eq
        rcases held.2 with ⟨waiting, -, -⟩ | ⟨-, accepted_eq⟩
        · rw [done] at waiting
          cases waiting
        · exact accepted_eq
    · have held := (printing side).run_invariant
        (fun _ _ _ held step_eq => Bounded.step held step_eq) held_start run_eq
      exact held.read_poll some_left asked copied

/-- Two short strings, printed to a new socket. -/
theorem print_delivers_iff_short : Delivers .first .newPair [[72, 105], [10]] :=
  (print_delivers_iff ⟨rfl, rfl⟩).mpr (by decide)

/-- A line of 600 letters. -/
def longLine : List UInt8 := List.replicate 600 97

theorem length_longLine : longLine.length = 600 := List.length_replicate

/-- Of 600 bytes the sink takes 512, although it has room for all of them. -/
theorem print_loses :
    ∃ final, (printing .first).run (start .newPair [longLine]) [.poll] = .ok final ∧
      final.blocks = [] ∧ final.accepted = longLine.take 512 ∧
      ¬Delivers .first .newPair [longLine] := by
  have connected : Connected (start .newPair [longLine]).pair .first := ⟨rfl, rfl⟩
  have some_bytes : longLine ≠ [] := by
    intro empty
    have length_eq := length_longLine
    rw [empty] at length_eq
    cases length_eq
  have blocks_eq : (start .newPair [longLine]).blocks = [longLine] := by
    rw [start, blocksOf_small (by rw [List.flatten_singleton, length_longLine]; decide),
      List.flatten_singleton, if_neg some_bytes]
  obtain ⟨last, -, ⟨none_left, -⟩ | ⟨-, poll_eq⟩⟩ := poll_eq connected blocks_eq some_bytes
  · cases none_left
  · rw [length_longLine] at poll_eq
    have poll_step : (printing .first).step (start .newPair [longLine]) .poll = .ok _ := poll_eq
    have run_eq := (printing .first).run_cons_ok [] poll_step
    refine ⟨_, run_eq, rfl, rfl, fun delivers => ?_⟩
    have whole := congrArg List.length (delivers.whole _ _ run_eq rfl)
    rw [List.flatten_singleton, List.length_append, List.length_take, length_longLine] at whole
    cases whole

end Sink
end Vespertine
