import Mathlib.Data.Nat.Bitwise
import Mathlib.Tactic.FinCases
import Vespertine.Library.Transition
import Vespertine.Library.Waiters

/-!
# The readers-writer lock

The lock is one word: the number of readers, or the writer bit.  Readers that meet a writer queue
themselves in one queue, writers that meet anyone in another.  The last reader to leave pops the
writers' queue; a writer that leaves pops it too, and drains the readers' queue if it was empty.
Nobody is handed the lock.

Threads take one atomic operation or one critical section of a queue at a time.  A load under the
lock of a queue is an operation of its own, for the word is not behind that lock.
-/

namespace Vespertine
namespace RwLock

open Function (update)
open Waiters (Waits Holds Present)

/-- `1 << (usize::BITS - 1)`. -/
def WRITER_BIT : UInt64 := 1 <<< (63 : UInt64)

/-- Where a thread is in `read`, `write` or the drop of a guard.  The flag of a phase of `write`
marks a thread that was taken from the queue, and has neither the lock nor queued itself again. -/
inductive Phase where
  | idle
  /-- `read` is about to load `state`. -/
  | reading
  /-- It saw no writer bit; about to load `writers_waiting`. -/
  | readLoaded (current : UInt64)
  /-- About to compare and exchange. -/
  | readTrying (current : UInt64)
  /-- About to lock the readers' queue. -/
  | readContended
  /-- It holds the lock of the readers' queue. -/
  | readInside
  /-- Under the lock, it has seen the writer bit. -/
  | readBlocking
  | readQueued
  /-- `write` is about to load `state`. -/
  | writing (woken : Bool)
  /-- It has seen zero; about to compare and exchange. -/
  | writeTrying (woken : Bool)
  /-- About to increment `writers_waiting`. -/
  | writeContended (woken : Bool)
  /-- About to lock the writers' queue. -/
  | writeCounted (woken : Bool)
  /-- It holds the lock of the writers' queue. -/
  | writeInside (woken : Bool)
  /-- Under the lock, it has seen a value other than zero. -/
  | writeBlocking (woken : Bool)
  | writeQueued
  /-- About to decrement `writers_waiting`. -/
  | writeLeaving (woken : Bool)
  /-- The last reader has gone; about to pop the writers' queue. -/
  | readDropping
  /-- The writer has gone; about to pop the writers' queue. -/
  | writeDropping
  /-- The writers' queue was empty; about to drain the readers' queue. -/
  | wakingReaders
  deriving DecidableEq

namespace Phase

/-- Threads that hold the lock of the readers' queue. -/
@[simp] def LocksReaders : Phase → Prop
  | .readInside | .readBlocking => True
  | _ => False

/-- Threads that hold the lock of the writers' queue. -/
@[simp] def LocksWriters : Phase → Prop
  | .writeInside _ | .writeBlocking _ => True
  | _ => False

/-- Writers about to queue themselves. -/
@[simp] def WriteBlocks : Phase → Prop
  | .writeBlocking _ => True
  | _ => False

/-- Drops between the update of `state` and the pop of the writers' queue. -/
@[simp] def Pops : Phase → Prop
  | .readDropping | .writeDropping => True
  | _ => False

/-- Drops of a writer that may still drain the readers' queue. -/
@[simp] def Drains : Phase → Prop
  | .writeDropping | .wakingReaders => True
  | _ => False

/-- Woken writers that have neither the lock nor queued themselves again. -/
@[simp] def Woken : Phase → Prop
  | .writing woken | .writeTrying woken | .writeContended woken | .writeCounted woken
  | .writeInside woken | .writeBlocking woken | .writeLeaving woken => woken = true
  | _ => False

/-- Readers that have seen no writer bit. -/
@[simp] def Saw : Phase → UInt64 → Prop
  | .readLoaded current, value | .readTrying current, value => current = value
  | _, _ => False

end Phase

@[ext]
structure State (τ : Type) where
  state : UInt64
  writersWaiting : UInt64
  writerQueue : List τ
  readerQueue : List τ
  /-- The thread that holds the lock of the writers' queue. -/
  writerHolder : Option τ
  /-- The thread that holds the lock of the readers' queue. -/
  readerHolder : Option τ
  /-- The guards that exist; they may be sent from one thread to another. -/
  readGuards : Nat
  writeGuards : Nat
  phase : τ → Phase

inductive Input (τ : Type) where
  | read (thread : τ)
  | write (thread : τ)
  /-- The drop of a guard begins with the update of `state`. -/
  | dropRead (thread : τ)
  | dropWrite (thread : τ)
  /-- The next step of a call; a weak compare-and-exchange may fail for no reason. -/
  | advance (thread : τ) (spurious : Bool)

/-- A thread that cannot take this step now. -/
inductive Disabled where
  | disabled

variable {τ : Type} [DecidableEq τ]

namespace State

/-- `RwLock::new`. -/
def new : State τ := ⟨0, 0, [], [], none, none, 0, 0, fun _ => .idle⟩

/-- A step that only moves a thread on. -/
def goto (lock : State τ) (thread : τ) (after : Phase) : State τ :=
  { lock with phase := update lock.phase thread after }

/-- `state.load()` in `read`. -/
def loadReading (lock : State τ) (thread : τ) : State τ :=
  if lock.state &&& WRITER_BIT = 0 then
    lock.goto thread (.readLoaded lock.state)
  else
    lock.goto thread .readContended

/-- `writers_waiting.load()` in `read`. -/
def loadWaiting (lock : State τ) (thread : τ) (current : UInt64) : State τ :=
  if lock.writersWaiting = 0 then
    lock.goto thread (.readTrying current)
  else
    lock.goto thread .readContended

/-- `state.compare_exchange_weak(current, current + 1)`. -/
def tryRead (lock : State τ) (thread : τ) (current : UInt64) (spurious : Bool) : State τ :=
  if lock.state = current ∧ spurious = false then
    { lock with
      state := current + 1
      readGuards := lock.readGuards + 1
      phase := update lock.phase thread .idle }
  else
    lock.goto thread .reading

/-- `reader_queue.lock()`. -/
def lockReaders (lock : State τ) (thread : τ) : State τ :=
  { lock with readerHolder := some thread, phase := update lock.phase thread .readInside }

/-- The load of a reader under the lock; without a writer it unlocks the queue and starts again. -/
def recheckReading (lock : State τ) (thread : τ) : State τ :=
  if lock.state &&& WRITER_BIT ≠ 0 then
    lock.goto thread .readBlocking
  else
    { lock with readerHolder := none, phase := update lock.phase thread .reading }

/-- `rq.push(thread)`, `drop(rq)` and `schedule`. -/
def pushReader (lock : State τ) (thread : τ) : State τ :=
  { lock with
    readerQueue := lock.readerQueue ++ [thread]
    readerHolder := none
    phase := update lock.phase thread .readQueued }

/-- `state.load()` in `write`. -/
def loadWriting (lock : State τ) (thread : τ) (woken : Bool) : State τ :=
  if lock.state = 0 then
    lock.goto thread (.writeTrying woken)
  else
    lock.goto thread (.writeContended woken)

/-- `state.compare_exchange_weak(0, WRITER_BIT)`. -/
def tryWrite (lock : State τ) (thread : τ) (woken spurious : Bool) : State τ :=
  if lock.state = 0 ∧ spurious = false then
    { lock with
      state := WRITER_BIT
      writeGuards := lock.writeGuards + 1
      phase := update lock.phase thread .idle }
  else
    lock.goto thread (.writing woken)

/-- `writers_waiting.fetch_add(1)`. -/
def beginWaiting (lock : State τ) (thread : τ) (woken : Bool) : State τ :=
  { lock with
    writersWaiting := lock.writersWaiting + 1
    phase := update lock.phase thread (.writeCounted woken) }

/-- `writer_queue.lock()`. -/
def lockWriters (lock : State τ) (thread : τ) (woken : Bool) : State τ :=
  { lock with
    writerHolder := some thread
    phase := update lock.phase thread (.writeInside woken) }

/-- The load of a writer under the lock; if the lock is free it unlocks the queue. -/
def recheckWriting (lock : State τ) (thread : τ) (woken : Bool) : State τ :=
  if lock.state ≠ 0 then
    lock.goto thread (.writeBlocking woken)
  else
    { lock with
      writerHolder := none
      phase := update lock.phase thread (.writeLeaving woken) }

/-- `wq.push(thread)`, `drop(wq)` and `schedule`. -/
def pushWriter (lock : State τ) (thread : τ) : State τ :=
  { lock with
    writerQueue := lock.writerQueue ++ [thread]
    writerHolder := none
    phase := update lock.phase thread .writeQueued }

/-- `writers_waiting.fetch_sub(1)`, and back to the top of the loop. -/
def endWaiting (lock : State τ) (thread : τ) (woken : Bool) : State τ :=
  { lock with
    writersWaiting := lock.writersWaiting - 1
    phase := update lock.phase thread (.writing woken) }

/-- `state.fetch_sub(1)` of a read guard; only the last one goes on. -/
def leaveReading (lock : State τ) (thread : τ) : State τ :=
  { lock with
    state := lock.state - 1
    readGuards := lock.readGuards - 1
    phase := update lock.phase thread (if lock.state = 1 then .readDropping else .idle) }

/-- `state.store(0)` of a write guard. -/
def leaveWriting (lock : State τ) (thread : τ) : State τ :=
  { lock with
    state := 0
    writeGuards := lock.writeGuards - 1
    phase := update lock.phase thread .writeDropping }

/-- `wake_thread` for the first thread of the writers' queue, which the caller leaves. -/
def wakeWriter (lock : State τ) (thread next : τ) (rest : List τ) : State τ :=
  { lock with
    writerQueue := rest
    phase := update (update lock.phase next (.writeLeaving true)) thread .idle }

/-- `wq.pop()` under the lock of the queue; `otherwise` is where an empty queue leads to. -/
def popWriter (lock : State τ) (thread : τ) (otherwise : Phase) : State τ :=
  match lock.writerQueue with
  | [] => lock.goto thread otherwise
  | next :: rest => lock.wakeWriter thread next rest

/-- `rq.pop()` and `wake_thread` until the queue is empty, under its lock. -/
def drainReaders (lock : State τ) (thread : τ) : State τ :=
  { lock with
    readerQueue := []
    phase := update (Waiters.drained lock.readerQueue .reading lock.phase) thread .idle }

end State

def step (lock : State τ) : Input τ → Except Disabled (State τ)
  | .read thread =>
      if lock.phase thread = .idle then .ok (lock.goto thread .reading) else .error .disabled
  | .write thread =>
      if lock.phase thread = .idle then .ok (lock.goto thread (.writing false))
      else .error .disabled
  | .dropRead thread =>
      if lock.phase thread = .idle ∧ 0 < lock.readGuards then
        .ok (lock.leaveReading thread)
      else
        .error .disabled
  | .dropWrite thread =>
      if lock.phase thread = .idle ∧ 0 < lock.writeGuards then
        .ok (lock.leaveWriting thread)
      else
        .error .disabled
  | .advance thread spurious =>
      match lock.phase thread with
      | .reading => .ok (lock.loadReading thread)
      | .readLoaded current => .ok (lock.loadWaiting thread current)
      | .readTrying current => .ok (lock.tryRead thread current spurious)
      | .readContended =>
          if lock.readerHolder = none then .ok (lock.lockReaders thread) else .error .disabled
      | .readInside => .ok (lock.recheckReading thread)
      | .readBlocking => .ok (lock.pushReader thread)
      | .writing woken => .ok (lock.loadWriting thread woken)
      | .writeTrying woken => .ok (lock.tryWrite thread woken spurious)
      | .writeContended woken => .ok (lock.beginWaiting thread woken)
      | .writeCounted woken =>
          if lock.writerHolder = none then .ok (lock.lockWriters thread woken) else .error .disabled
      | .writeInside woken => .ok (lock.recheckWriting thread woken)
      | .writeBlocking _ => .ok (lock.pushWriter thread)
      | .writeLeaving woken => .ok (lock.endWaiting thread woken)
      | .readDropping =>
          if lock.writerHolder = none then .ok (lock.popWriter thread .idle) else .error .disabled
      | .writeDropping =>
          if lock.writerHolder = none then
            .ok (lock.popWriter thread .wakingReaders)
          else
            .error .disabled
      | .wakingReaders =>
          if lock.readerHolder = none then .ok (lock.drainReaders thread) else .error .disabled
      | .idle | .readQueued | .writeQueued => .error .disabled

/-- The readers that there are can be counted below the writer bit. -/
def Uncrowded (lock : State τ) : Prop := lock.readGuards < 2 ^ 63

/-- Threads read and write at will, as long as the readers can be counted. -/
def machine : Machine (State τ) (Input τ) Disabled := ⟨step, fun lock _ => Uncrowded lock⟩

/-!
### Nobody is forgotten
-/

theorem clear_iff {value : UInt64} : value &&& WRITER_BIT = 0 ↔ value.toNat < 2 ^ 63 := by
  have bit : WRITER_BIT.toNat = 2 ^ 63 := rfl
  rw [← UInt64.toNat_inj, UInt64.toNat_and, bit, Nat.and_two_pow]
  constructor
  · intro low
    by_contra ge
    have bound := value.toNat_lt
    have set : value.toNat.testBit 63 = true :=
      Nat.testBit_of_two_pow_le_and_two_pow_add_one_gt (by omega) (by omega)
    rw [set] at low
    cases low
  · intro lt
    rw [Nat.testBit_lt_two_pow lt]
    rfl

/-- The word counts the read guards, or there is one write guard and nothing else. -/
def Exclusive (lock : State τ) : Prop :=
  (lock.writeGuards = 0 ∧ lock.state.toNat = lock.readGuards) ∨
    (lock.writeGuards = 1 ∧ lock.readGuards = 0 ∧ lock.state = WRITER_BIT)

/-- A drop is about to pop the writers' queue. -/
def Popping (lock : State τ) : Prop := Present lock.phase Phase.Pops

/-- The drop of a writer may still drain the readers' queue. -/
def Draining (lock : State τ) : Prop := Present lock.phase Phase.Drains

/-- A woken writer is still after the lock. -/
def Pursued (lock : State τ) : Prop := Present lock.phase Phase.Woken

/-- There is a writer, or there was one that has not drained the readers' queue, or one will
come. -/
def Attended (lock : State τ) : Prop :=
  lock.writeGuards ≠ 0 ∨ Draining lock ∨ Pursued lock ∨ lock.writerQueue ≠ []

/-- The invariant; what it says of the readers' queue depends on their number. -/
structure Sound (small : Prop) (lock : State τ) : Prop where
  exclusive : Exclusive lock
  saw_clear : ∀ thread value, (lock.phase thread).Saw value → value.toNat < 2 ^ 63
  writersWait : Waits lock.writerQueue lock.phase (· = .writeQueued)
  readersWait : Waits lock.readerQueue lock.phase (· = .readQueued)
  writersHold : Holds lock.writerHolder lock.phase Phase.LocksWriters
  readersHold : Holds lock.readerHolder lock.phase Phase.LocksReaders
  writer_served : ∀ thread, (lock.phase thread).WriteBlocks → lock.state ≠ 0 ∨ Popping lock
  writers_served : lock.writerQueue ≠ [] → lock.state ≠ 0 ∨ Popping lock ∨ Pursued lock
  reader_served : small → ∀ thread, lock.phase thread = .readBlocking → Attended lock
  readers_served : small → lock.readerQueue ≠ [] → Attended lock

/-- A thread goes from one phase to another without joining or leaving those that count. -/
structure Calm (before after : Phase) : Prop where
  writeQueued : after = .writeQueued ↔ before = .writeQueued
  readQueued : after = .readQueued ↔ before = .readQueued
  pops : after.Pops ↔ before.Pops
  drains : after.Drains ↔ before.Drains
  woken : after.Woken ↔ before.Woken

namespace Sound

variable {small : Prop} {lock next : State τ} {thread : τ}

omit [DecidableEq τ] in
theorem new : Sound small (State.new : State τ) where
  exclusive := .inl ⟨rfl, rfl⟩
  saw_clear := by simp [State.new, Phase.Saw]
  writersWait := .nil (by simp [State.new])
  readersWait := .nil (by simp [State.new])
  writersHold := by simp [Holds, State.new, Phase.LocksWriters]
  readersHold := by simp [Holds, State.new, Phase.LocksReaders]
  writer_served := by simp [State.new, Phase.WriteBlocks]
  writers_served := by simp [State.new]
  reader_served := by simp [State.new]
  readers_served := by simp [State.new]

theorem saw_update {phase : τ → Phase} {after : Phase}
    (before : ∀ other value, (phase other).Saw value → value.toNat < 2 ^ 63)
    (saw : ∀ value, after.Saw value → value.toNat < 2 ^ 63) (other : τ) (value : UInt64)
    (holds : (update phase thread after other).Saw value) : value.toNat < 2 ^ 63 := by
  rcases eq_or_ne other thread with rfl | ne
  · exact saw value (by simpa using holds)
  · exact before other value (by simpa [ne] using holds)

/-- A step that leaves the word, the guards and the queues alone. -/
theorem calm (sound : Sound small lock) {writersWaiting : UInt64}
    {writerHolder readerHolder : Option τ} {after : Phase}
    (calm : Calm (lock.phase thread) after)
    (writersHold : Holds writerHolder (update lock.phase thread after) Phase.LocksWriters)
    (readersHold : Holds readerHolder (update lock.phase thread after) Phase.LocksReaders)
    (saw : ∀ value, after.Saw value → value.toNat < 2 ^ 63)
    (writer : after.WriteBlocks → lock.state ≠ 0)
    (reader : small → after = .readBlocking → lock.writeGuards ≠ 0) :
    Sound small { lock with
      writersWaiting, writerHolder, readerHolder, phase := update lock.phase thread after } := by
  have popping : Popping lock → Present (update lock.phase thread after) Phase.Pops :=
    (·.stay calm.pops.mpr)
  have pursued : Pursued lock → Present (update lock.phase thread after) Phase.Woken :=
    (·.stay calm.woken.mpr)
  have draining : Draining lock → Present (update lock.phase thread after) Phase.Drains :=
    (·.stay calm.drains.mpr)
  refine ⟨sound.exclusive, saw_update sound.saw_clear saw, sound.writersWait.keep calm.writeQueued,
    sound.readersWait.keep calm.readQueued, writersHold, readersHold, ?_, ?_, ?_, ?_⟩
  · intro other blocks
    rcases eq_or_ne other thread with rfl | ne
    · exact .inl (writer (by simpa using blocks))
    · exact (sound.writer_served other (by simpa [ne] using blocks)).imp_right popping
  · intro waiting
    exact (sound.writers_served waiting).imp_right (Or.imp popping pursued)
  · intro is_small other blocks
    rcases eq_or_ne other thread with rfl | ne
    · exact .inl (reader is_small (by simpa using blocks))
    · have served := sound.reader_served is_small other (by simpa [ne] using blocks)
      exact served.imp_right (Or.imp draining (Or.imp_left pursued))
  · intro is_small waiting
    exact (sound.readers_served is_small waiting).imp_right
      (Or.imp draining (Or.imp_left pursued))

theorem goto (sound : Sound small lock) {after : Phase} (calm : Calm (lock.phase thread) after)
    (writers_same : after.LocksWriters ↔ (lock.phase thread).LocksWriters)
    (readers_same : after.LocksReaders ↔ (lock.phase thread).LocksReaders)
    (saw : ∀ value, after.Saw value → value.toNat < 2 ^ 63)
    (writer : after.WriteBlocks → lock.state ≠ 0)
    (reader : small → after = .readBlocking → lock.writeGuards ≠ 0) :
    Sound small (lock.goto thread after) :=
  sound.calm calm (sound.writersHold.keep writers_same) (sound.readersHold.keep readers_same) saw
    writer reader

/-!
Readers
-/

theorem loadReading (sound : Sound small lock) (phase_eq : lock.phase thread = .reading) :
    Sound small (lock.loadReading thread) := by
  rw [State.loadReading]
  split
  next clear =>
    refine sound.goto ⟨?_, ?_, ?_, ?_, ?_⟩ ?_ ?_ ?_ ?_ ?_ <;> simp [phase_eq]
    exact clear_iff.mp clear
  next => refine sound.goto ⟨?_, ?_, ?_, ?_, ?_⟩ ?_ ?_ ?_ ?_ ?_ <;> simp [phase_eq]

theorem loadWaiting (sound : Sound small lock) {current : UInt64}
    (phase_eq : lock.phase thread = .readLoaded current) :
    Sound small (lock.loadWaiting thread current) := by
  have saw := sound.saw_clear thread current (by simp [phase_eq])
  rw [State.loadWaiting]
  split
  · refine sound.goto ⟨?_, ?_, ?_, ?_, ?_⟩ ?_ ?_ ?_ ?_ ?_ <;> simp [phase_eq]
    exact saw
  · refine sound.goto ⟨?_, ?_, ?_, ?_, ?_⟩ ?_ ?_ ?_ ?_ ?_ <;> simp [phase_eq]

theorem lockReaders (sound : Sound small lock) (phase_eq : lock.phase thread = .readContended)
    (free : lock.readerHolder = none) : Sound small (lock.lockReaders thread) := by
  have holds := sound.readersHold
  rw [free] at holds
  refine sound.calm ⟨?_, ?_, ?_, ?_, ?_⟩ (sound.writersHold.keep ?_) (holds.take ?_) ?_ ?_ ?_ <;>
    simp [phase_eq]

omit [DecidableEq τ] in
/-- With few readers, the writer bit is that of a writer. -/
theorem writer_of_bit (sound : Sound small lock) (uncrowded : Uncrowded lock)
    (bit : lock.state &&& WRITER_BIT ≠ 0) : lock.writeGuards ≠ 0 := by
  rcases sound.exclusive with ⟨_, count⟩ | ⟨one, _⟩
  · refine absurd (clear_iff.mpr ?_) bit
    rw [count]
    exact uncrowded
  · simp [one]

theorem recheckReading (sound : Sound small lock) (uncrowded : small → Uncrowded lock)
    (phase_eq : lock.phase thread = .readInside) : Sound small (lock.recheckReading thread) := by
  rw [State.recheckReading]
  split
  next bit =>
    refine sound.goto ⟨?_, ?_, ?_, ?_, ?_⟩ ?_ ?_ ?_ ?_ fun is_small _ => ?_
    case refine_10 => exact sound.writer_of_bit (uncrowded is_small) bit
    all_goals simp [phase_eq]
  next =>
    refine sound.calm ⟨?_, ?_, ?_, ?_, ?_⟩ (sound.writersHold.keep ?_)
      (sound.readersHold.release ?_ ?_) ?_ ?_ ?_ <;> simp [phase_eq]

/-- One more reader, who has seen that there is no writer. -/
theorem tryRead (sound : Sound small lock) {current : UInt64} {spurious : Bool}
    (phase_eq : lock.phase thread = .readTrying current) :
    Sound small (lock.tryRead thread current spurious) := by
  rw [State.tryRead]
  split
  next both =>
    obtain ⟨rfl, _⟩ := both
    have saw : lock.state.toNat < 2 ^ 63 := sound.saw_clear thread _ (by simp [phase_eq])
    have state_eq : (lock.state + 1).toNat = lock.state.toNat + 1 := by
      rw [UInt64.toNat_add]
      exact Nat.mod_eq_of_lt (by simp; omega)
    have state_ne : lock.state + 1 ≠ 0 := by
      intro zero
      rw [zero] at state_eq
      cases state_eq
    have calmed : Sound small (lock.goto thread .idle) := by
      refine sound.goto ⟨?_, ?_, ?_, ?_, ?_⟩ ?_ ?_ ?_ ?_ ?_ <;> simp [phase_eq]
    refine { calmed with
      exclusive := ?_, writer_served := fun _ _ => .inl state_ne,
      writers_served := fun _ => .inl state_ne }
    rcases sound.exclusive with ⟨none, count⟩ | ⟨_, _, bit⟩
    · exact .inl ⟨none, by rw [state_eq, count]⟩
    · rw [bit] at saw
      exact absurd saw (by decide)
  next => refine sound.goto ⟨?_, ?_, ?_, ?_, ?_⟩ ?_ ?_ ?_ ?_ ?_ <;> simp [phase_eq]

/-- Whoever attends to the readers' queue is not the thread that moves on. -/
theorem attended_update {after : Phase} {queue : List τ} (attended : Attended lock)
    (drains : ¬ (lock.phase thread).Drains) (woken : ¬ (lock.phase thread).Woken)
    (kept : lock.writerQueue ≠ [] → queue ≠ []) :
    lock.writeGuards ≠ 0 ∨ Present (update lock.phase thread after) Phase.Drains ∨
      Present (update lock.phase thread after) Phase.Woken ∨ queue ≠ [] :=
  attended.imp_right (Or.imp (·.keep drains) (Or.imp (·.keep woken) kept))

/-- The reader has seen a writer, who has not drained the queue since. -/
theorem pushReader (sound : Sound small lock) (phase_eq : lock.phase thread = .readBlocking) :
    Sound small (lock.pushReader thread) := by
  have attended : small → Attended (lock.pushReader thread) := fun is_small =>
    attended_update (sound.reader_served is_small thread phase_eq) (by simp [phase_eq])
      (by simp [phase_eq]) id
  refine ⟨sound.exclusive, saw_update sound.saw_clear ?_, sound.writersWait.keep ?_,
    sound.readersWait.push ?_ rfl, sound.writersHold.keep ?_, sound.readersHold.release ?_ ?_,
    ?_, ?_, fun is_small _ _ => attended is_small, fun is_small _ => attended is_small⟩
  case refine_7 =>
    intro other blocks
    rcases eq_or_ne other thread with rfl | ne
    · simp [State.pushReader] at blocks
    · have served := sound.writer_served other (by simpa [State.pushReader, ne] using blocks)
      exact served.imp_right (·.keep (by simp [phase_eq]))
  case refine_8 =>
    intro waiting
    exact (sound.writers_served waiting).imp_right
      (Or.imp (·.keep (by simp [phase_eq])) (·.keep (by simp [phase_eq])))
  all_goals simp [phase_eq]

/-!
Writers
-/

theorem loadWriting (sound : Sound small lock) {woken : Bool}
    (phase_eq : lock.phase thread = .writing woken) :
    Sound small (lock.loadWriting thread woken) := by
  rw [State.loadWriting]
  split <;> refine sound.goto ⟨?_, ?_, ?_, ?_, ?_⟩ ?_ ?_ ?_ ?_ ?_ <;> simp [phase_eq]

theorem beginWaiting (sound : Sound small lock) {woken : Bool}
    (phase_eq : lock.phase thread = .writeContended woken) :
    Sound small (lock.beginWaiting thread woken) := by
  refine sound.calm ⟨?_, ?_, ?_, ?_, ?_⟩ (sound.writersHold.keep ?_) (sound.readersHold.keep ?_)
    ?_ ?_ ?_ <;> simp [phase_eq]

theorem endWaiting (sound : Sound small lock) {woken : Bool}
    (phase_eq : lock.phase thread = .writeLeaving woken) :
    Sound small (lock.endWaiting thread woken) := by
  refine sound.calm ⟨?_, ?_, ?_, ?_, ?_⟩ (sound.writersHold.keep ?_) (sound.readersHold.keep ?_)
    ?_ ?_ ?_ <;> simp [phase_eq]

theorem lockWriters (sound : Sound small lock) {woken : Bool}
    (phase_eq : lock.phase thread = .writeCounted woken) (free : lock.writerHolder = none) :
    Sound small (lock.lockWriters thread woken) := by
  have holds := sound.writersHold
  rw [free] at holds
  refine sound.calm ⟨?_, ?_, ?_, ?_, ?_⟩ (holds.take ?_) (sound.readersHold.keep ?_) ?_ ?_ ?_ <;>
    simp [phase_eq]

theorem recheckWriting (sound : Sound small lock) {woken : Bool}
    (phase_eq : lock.phase thread = .writeInside woken) :
    Sound small (lock.recheckWriting thread woken) := by
  rw [State.recheckWriting]
  split
  next busy => refine sound.goto ⟨?_, ?_, ?_, ?_, ?_⟩ ?_ ?_ ?_ ?_ ?_ <;> simp [phase_eq, busy]
  next =>
    refine sound.calm ⟨?_, ?_, ?_, ?_, ?_⟩ (sound.writersHold.release ?_ ?_)
      (sound.readersHold.keep ?_) ?_ ?_ ?_ <;> simp [phase_eq]

/-- There was no guard, and now there is one. -/
theorem tryWrite (sound : Sound small lock) {woken spurious : Bool}
    (phase_eq : lock.phase thread = .writeTrying woken) :
    Sound small (lock.tryWrite thread woken spurious) := by
  rw [State.tryWrite]
  split
  next both =>
    have bit_ne : WRITER_BIT ≠ 0 := by decide
    refine ⟨?_, saw_update sound.saw_clear ?_, sound.writersWait.keep ?_, sound.readersWait.keep ?_,
      sound.writersHold.keep ?_, sound.readersHold.keep ?_, fun _ _ => .inl bit_ne,
      fun _ => .inl bit_ne, fun _ _ _ => .inl (Nat.succ_ne_zero _),
      fun _ _ => .inl (Nat.succ_ne_zero _)⟩
    case refine_1 =>
      rcases sound.exclusive with ⟨none, count⟩ | ⟨_, _, bit⟩
      · rw [both.1] at count
        exact .inr ⟨by simp [none], count.symm, rfl⟩
      · rw [both.1] at bit
        exact absurd bit.symm bit_ne
    all_goals simp [phase_eq]
  next => refine sound.goto ⟨?_, ?_, ?_, ?_, ?_⟩ ?_ ?_ ?_ ?_ ?_ <;> simp [phase_eq]

/-- The writer has seen a guard, and no drop has popped the queue since. -/
theorem pushWriter (sound : Sound small lock) {woken : Bool}
    (phase_eq : lock.phase thread = .writeBlocking woken) :
    Sound small (lock.pushWriter thread) := by
  have served : lock.state ≠ 0 ∨ Popping (lock.pushWriter thread) :=
    (sound.writer_served thread (by simp [phase_eq])).imp_right (·.keep (by simp [phase_eq]))
  have attended : Attended (lock.pushWriter thread) :=
    .inr (.inr (.inr (by simp [State.pushWriter])))
  refine ⟨sound.exclusive, saw_update sound.saw_clear ?_, sound.writersWait.push ?_ rfl,
    sound.readersWait.keep ?_, sound.writersHold.release ?_ ?_, sound.readersHold.keep ?_,
    fun _ _ => served, fun _ => served.imp_right .inl, fun _ _ _ => attended,
    fun _ _ => attended⟩ <;> simp [phase_eq]

/-!
Drops
-/

/-- A reader leaves; the last one is about to pop the writers' queue. -/
theorem leaveReading (sound : Sound small lock) (phase_eq : lock.phase thread = .idle)
    (held : 0 < lock.readGuards) : Sound small (lock.leaveReading thread) := by
  obtain ⟨none, count⟩ : lock.writeGuards = 0 ∧ lock.state.toNat = lock.readGuards := by
    rcases sound.exclusive with readers | ⟨_, no_readers, _⟩
    · exact readers
    · omega
  have state_eq : (lock.state - 1).toNat = lock.readGuards - 1 := by
    rw [UInt64.toNat_sub_of_le _ _ (UInt64.le_iff_toNat_le.mpr (by simp; omega)), count]
    rfl
  have popping : lock.state - 1 ≠ 0 ∨ Popping (lock.leaveReading thread) := by
    by_cases last : lock.state = 1
    · exact .inr (.enter (by simp [last]))
    · left
      intro zero
      rw [zero] at state_eq
      refine last (UInt64.toNat_inj.mp ?_)
      rw [count]
      change 0 = _ at state_eq
      change _ = 1
      omega
  have attended : Attended lock → Attended (lock.leaveReading thread) := fun attended =>
    attended_update attended (by simp [phase_eq]) (by simp [phase_eq]) id
  refine ⟨.inl ⟨none, state_eq⟩, saw_update sound.saw_clear ?_, sound.writersWait.keep ?_,
    sound.readersWait.keep ?_, sound.writersHold.keep ?_, sound.readersHold.keep ?_,
    fun _ _ => popping, fun _ => popping.imp_right .inl, ?_,
    fun is_small waiting => attended (sound.readers_served is_small waiting)⟩
  case refine_6 =>
    intro is_small other blocks
    refine attended (sound.reader_served is_small other (Waiters.phase_before ?_ blocks))
    split <;> simp
  all_goals split <;> simp [phase_eq]

theorem leaveWriting (sound : Sound small lock) (phase_eq : lock.phase thread = .idle)
    (held : 0 < lock.writeGuards) : Sound small (lock.leaveWriting thread) := by
  have popping : Popping (lock.leaveWriting thread) := .enter trivial
  have draining : Draining (lock.leaveWriting thread) := .enter trivial
  refine ⟨?_, saw_update sound.saw_clear ?_, sound.writersWait.keep ?_, sound.readersWait.keep ?_,
    sound.writersHold.keep ?_, sound.readersHold.keep ?_, fun _ _ => .inr popping,
    fun _ => .inr (.inl popping), fun _ _ _ => .inr (.inl draining),
    fun _ _ => .inr (.inl draining)⟩
  case refine_1 =>
    rcases sound.exclusive with ⟨none, _⟩ | ⟨one, no_readers, _⟩
    · omega
    · exact .inl ⟨by simp [State.leaveWriting, one], no_readers.symm⟩
  all_goals simp [phase_eq]

omit [DecidableEq τ] in
/-- The lock of the writers' queue is free, so no writer is about to queue itself. -/
theorem not_writeBlocks (sound : Sound small lock) (free : lock.writerHolder = none) (thread : τ) :
    ¬ (lock.phase thread).WriteBlocks := by
  intro blocks
  have holds := sound.writersHold
  rw [free] at holds
  refine holds.free thread ?_
  cases phase_eq : lock.phase thread <;> simp_all

/-- The thread that a drop wakes is after the lock. -/
theorem wakeWriter (sound : Sound small lock) {woken : τ} {rest : List τ}
    (phase_eq : lock.phase thread = .readDropping ∨ lock.phase thread = .writeDropping)
    (free : lock.writerHolder = none) (queue_eq : lock.writerQueue = woken :: rest) :
    Sound small (lock.wakeWriter thread woken rest) := by
  have waits := sound.writersWait
  rw [queue_eq] at waits
  have woken_eq : lock.phase woken = .writeQueued := (waits.mem_iff woken).mp List.mem_cons_self
  have ne : thread ≠ woken := by
    rintro rfl
    simp [woken_eq] at phase_eq
  have pursued : Pursued (lock.wakeWriter thread woken rest) := by
    refine Waiters.Present.keep (.enter rfl) ?_
    rcases phase_eq with phase_eq | phase_eq <;> simp [ne, phase_eq]
  refine ⟨sound.exclusive, saw_update (saw_update sound.saw_clear ?_) ?_,
    (waits.pop ?_).keep ?_, (sound.readersWait.keep ?_).keep ?_,
    Holds.keep (sound.writersHold.keep ?_) ?_, Holds.keep (sound.readersHold.keep ?_) ?_, ?_,
    fun _ => .inr (.inr pursued), fun _ _ _ => .inr (.inr (.inl pursued)),
    fun _ _ => .inr (.inr (.inl pursued))⟩
  case refine_11 =>
    intro other blocks
    rcases eq_or_ne other thread with rfl | other_ne
    · simp [State.wakeWriter] at blocks
    rcases eq_or_ne other woken with rfl | other_ne'
    · simp [State.wakeWriter, other_ne] at blocks
    · refine absurd ?_ (sound.not_writeBlocks free other)
      simpa [State.wakeWriter, other_ne, other_ne'] using blocks
  all_goals rcases phase_eq with phase_eq | phase_eq <;> simp [ne, phase_eq, woken_eq]

/-- A drop that finds no writer; that of a writer has still to drain the readers' queue. -/
theorem popNone (sound : Sound small lock) {after : Phase}
    (phases : lock.phase thread = .readDropping ∧ after = .idle ∨
      lock.phase thread = .writeDropping ∧ after = .wakingReaders)
    (free : lock.writerHolder = none) (queue_eq : lock.writerQueue = []) :
    Sound small (lock.goto thread after) := by
  have attended : Attended lock → Attended (lock.goto thread after) := by
    refine Or.imp_right (Or.imp (·.stay ?_) (Or.imp_left (·.stay ?_))) <;>
      rcases phases with ⟨phase_eq, rfl⟩ | ⟨phase_eq, rfl⟩ <;> simp [phase_eq]
  refine ⟨sound.exclusive, saw_update sound.saw_clear ?_, sound.writersWait.keep ?_,
    sound.readersWait.keep ?_, sound.writersHold.keep ?_, sound.readersHold.keep ?_, ?_,
    fun waiting => absurd queue_eq waiting, ?_,
    fun is_small waiting => attended (sound.readers_served is_small waiting)⟩
  case refine_6 =>
    intro other blocks
    rcases eq_or_ne other thread with rfl | ne
    · rcases phases with ⟨_, rfl⟩ | ⟨_, rfl⟩ <;> simp [State.goto] at blocks
    · refine absurd ?_ (sound.not_writeBlocks free other)
      simpa [State.goto, ne] using blocks
  case refine_7 =>
    intro is_small other blocks
    refine attended (sound.reader_served is_small other (Waiters.phase_before ?_ blocks))
    rcases phases with ⟨_, rfl⟩ | ⟨_, rfl⟩ <;> simp
  all_goals rcases phases with ⟨phase_eq, rfl⟩ | ⟨phase_eq, rfl⟩ <;> simp [phase_eq]

theorem popWriter (sound : Sound small lock) {after : Phase}
    (phases : lock.phase thread = .readDropping ∧ after = .idle ∨
      lock.phase thread = .writeDropping ∧ after = .wakingReaders)
    (free : lock.writerHolder = none) : Sound small (lock.popWriter thread after) := by
  rw [State.popWriter]
  split
  next queue_eq => exact sound.popNone phases free queue_eq
  next queue_eq => exact sound.wakeWriter (phases.imp And.left And.left) free queue_eq

/-- The drain changes the phases of the woken readers and of the thread that wakes them only. -/
theorem drained_iff (sound : Sound small lock) (phase_eq : lock.phase thread = .wakingReaders)
    (kind : Phase → Prop) (outside : ¬ kind .readQueued ∧ ¬ kind .reading ∧
      ¬ kind .wakingReaders ∧ ¬ kind .idle) (other : τ) :
    kind ((lock.drainReaders thread).phase other) ↔ kind (lock.phase other) := by
  obtain ⟨queued, reading, waking, idle⟩ := outside
  rcases eq_or_ne other thread with rfl | ne
  · simp [State.drainReaders, phase_eq, idle, waking]
  · simp only [State.drainReaders, Function.update_of_ne ne]
    exact sound.readersWait.drained_iff (by rintro _ rfl; exact queued) reading other

/-- The readers' queue is empty now, and no reader is about to queue itself. -/
theorem drainReaders (sound : Sound small lock) (phase_eq : lock.phase thread = .wakingReaders)
    (free : lock.readerHolder = none) : Sound small (lock.drainReaders thread) := by
  have same := sound.drained_iff phase_eq
  have popping : Popping lock → Popping (lock.drainReaders thread) :=
    fun ⟨other, pops⟩ => ⟨other, (same Phase.Pops (by simp) other).mpr pops⟩
  have pursued : Pursued lock → Pursued (lock.drainReaders thread) :=
    fun ⟨other, woken⟩ => ⟨other, (same Phase.Woken (by simp) other).mpr woken⟩
  refine ⟨sound.exclusive, ?_, sound.writersWait.congr (same (· = .writeQueued) (by simp)), ?_,
    sound.writersHold.congr (same Phase.LocksWriters (by simp)),
    sound.readersHold.congr (same Phase.LocksReaders (by simp)), ?_, ?_, ?_,
    fun _ waiting => absurd rfl waiting⟩
  · intro other value saw
    exact sound.saw_clear other value ((same (·.Saw value) (by simp) other).mp saw)
  · refine (sound.readersWait.drain (by simp)).keep ?_
    have not_mem : thread ∉ lock.readerQueue := by simp [sound.readersWait.mem_iff, phase_eq]
    simp [Waiters.drained, not_mem, phase_eq]
  · intro other blocks
    have before := (same Phase.WriteBlocks (by simp) other).mp blocks
    exact (sound.writer_served other before).imp_right popping
  · intro waiting
    exact (sound.writers_served waiting).imp_right (Or.imp popping pursued)
  · intro _ other blocks
    have before := (same (· = .readBlocking) (by simp) other).mp blocks
    have holds := sound.readersHold
    rw [free] at holds
    exact absurd (by simp [before]) (holds.free other)

/-!
Runs
-/

theorem advance (sound : Sound small lock) (uncrowded : small → Uncrowded lock) {spurious : Bool}
    (step_eq : step lock (.advance thread spurious) = .ok next) : Sound small next := by
  simp only [step] at step_eq
  split at step_eq
  next phase_eq =>
    obtain rfl := Except.ok.inj step_eq
    exact sound.loadReading phase_eq
  next phase_eq =>
    obtain rfl := Except.ok.inj step_eq
    exact sound.loadWaiting phase_eq
  next phase_eq =>
    obtain rfl := Except.ok.inj step_eq
    exact sound.tryRead phase_eq
  next phase_eq =>
    obtain ⟨free, step_eq⟩ := guard_eq_ok.mp step_eq
    obtain rfl := Except.ok.inj step_eq
    exact sound.lockReaders phase_eq free
  next phase_eq =>
    obtain rfl := Except.ok.inj step_eq
    exact sound.recheckReading uncrowded phase_eq
  next phase_eq =>
    obtain rfl := Except.ok.inj step_eq
    exact sound.pushReader phase_eq
  next phase_eq =>
    obtain rfl := Except.ok.inj step_eq
    exact sound.loadWriting phase_eq
  next phase_eq =>
    obtain rfl := Except.ok.inj step_eq
    exact sound.tryWrite phase_eq
  next phase_eq =>
    obtain rfl := Except.ok.inj step_eq
    exact sound.beginWaiting phase_eq
  next phase_eq =>
    obtain ⟨free, step_eq⟩ := guard_eq_ok.mp step_eq
    obtain rfl := Except.ok.inj step_eq
    exact sound.lockWriters phase_eq free
  next phase_eq =>
    obtain rfl := Except.ok.inj step_eq
    exact sound.recheckWriting phase_eq
  next phase_eq =>
    obtain rfl := Except.ok.inj step_eq
    exact sound.pushWriter phase_eq
  next phase_eq =>
    obtain rfl := Except.ok.inj step_eq
    exact sound.endWaiting phase_eq
  next phase_eq =>
    obtain ⟨free, step_eq⟩ := guard_eq_ok.mp step_eq
    obtain rfl := Except.ok.inj step_eq
    exact sound.popWriter (.inl ⟨phase_eq, rfl⟩) free
  next phase_eq =>
    obtain ⟨free, step_eq⟩ := guard_eq_ok.mp step_eq
    obtain rfl := Except.ok.inj step_eq
    exact sound.popWriter (.inr ⟨phase_eq, rfl⟩) free
  next phase_eq =>
    obtain ⟨free, step_eq⟩ := guard_eq_ok.mp step_eq
    obtain rfl := Except.ok.inj step_eq
    exact sound.drainReaders phase_eq free
  all_goals cases step_eq

theorem step (sound : Sound small lock) (uncrowded : small → Uncrowded lock) {input : Input τ}
    (step_eq : RwLock.step lock input = .ok next) : Sound small next := by
  cases input with
  | read thread | write thread =>
      obtain ⟨phase_eq, step_eq⟩ := guard_eq_ok.mp step_eq
      obtain rfl := Except.ok.inj step_eq
      refine sound.goto ⟨?_, ?_, ?_, ?_, ?_⟩ ?_ ?_ ?_ ?_ ?_ <;> simp [phase_eq]
  | dropRead thread =>
      obtain ⟨⟨phase_eq, held⟩, step_eq⟩ := guard_eq_ok.mp step_eq
      obtain rfl := Except.ok.inj step_eq
      exact sound.leaveReading phase_eq held
  | dropWrite thread =>
      obtain ⟨⟨phase_eq, held⟩, step_eq⟩ := guard_eq_ok.mp step_eq
      obtain rfl := Except.ok.inj step_eq
      exact sound.leaveWriting phase_eq held
  | advance thread spurious => exact sound.advance uncrowded step_eq

end Sound

/-- A thread waits for a lock that is free, and nothing is under way to change that. -/
def Stranded (lock : State τ) : Prop :=
  lock.state = 0 ∧ (lock.writerQueue ≠ [] ∨ lock.readerQueue ≠ []) ∧
    ¬ (Popping lock ∨ Draining lock) ∧ ¬ Pursued lock

omit [DecidableEq τ] in
theorem Sound.not_stranded {lock : State τ} (sound : Sound True lock) : ¬ Stranded lock := by
  rintro ⟨free, waiting, not_dropping, not_pursued⟩
  have writers_empty : lock.writerQueue = [] := by
    by_contra nonempty
    rcases sound.writers_served nonempty with busy | popping | pursued
    · exact busy free
    · exact not_dropping (.inl popping)
    · exact not_pursued pursued
  have readers_nonempty := waiting.resolve_left (not_not.mpr writers_empty)
  rcases sound.readers_served trivial readers_nonempty with writer | draining | pursued | nonempty
  · rcases sound.exclusive with ⟨none, _⟩ | ⟨_, _, bit⟩
    · exact writer none
    · rw [free] at bit
      exact absurd bit (by decide)
  · exact not_dropping (.inr draining)
  · exact not_pursued pursued
  · exact nonempty writers_empty

/-- In whatever order the threads take their steps, a write guard is alone, the word counts the read
guards, and while there are fewer than 2^63 of these no thread waits for a free lock unless a drop
has still to pop its queues or a woken writer is after the lock. -/
theorem writer_alone_and_none_stranded {inputs : List (Input τ)} {final : State τ}
    (run_eq : machine.run State.new inputs = .ok final) :
    (final.writeGuards = 0 ∨ final.writeGuards = 1 ∧ final.readGuards = 0) ∧
      (final.writeGuards = 0 → final.state.toNat = final.readGuards) ∧
      (machine.Permits State.new inputs → ¬ Stranded final) := by
  refine ⟨?_, ?_, fun permits => ?_⟩
  · have sound : Sound False final := machine.run_invariant
      (fun lock input next sound step_eq => sound.step False.elim step_eq) .new run_eq
    exact sound.exclusive.imp And.left fun writer => ⟨writer.1, writer.2.1⟩
  · have sound : Sound False final := machine.run_invariant
      (fun lock input next sound step_eq => sound.step False.elim step_eq) .new run_eq
    intro none
    rcases sound.exclusive with readers | ⟨one, _⟩
    · exact readers.2
    · omega
  · have sound : Sound True final := machine.run_keeps
      (fun lock input next sound permitted step_eq => sound.step (fun _ => permitted) step_eq) .new
      permits run_eq
    exact sound.not_stranded

/-- The next so many steps of a thread. -/
def advances (thread : Fin 3) (count : Nat) : List (Input (Fin 3)) :=
  List.replicate count (.advance thread false)

/-- Thread 0 writes, thread 1 queues itself to read, and thread 0 leaves. -/
def handover : List (Input (Fin 3)) :=
  .write 0 :: advances 0 2 ++ .read 1 :: advances 1 4 ++ [.dropWrite 0]

theorem writer_alone_and_none_stranded_handover :
    ∃ final, machine.run State.new handover = .ok final ∧ machine.Permits State.new handover ∧
      final.readerQueue = [1] ∧
      ((final.writeGuards = 0 ∨ final.writeGuards = 1 ∧ final.readGuards = 0) ∧
        (final.writeGuards = 0 → final.state.toNat = final.readGuards) ∧ ¬ Stranded final) := by
  have run_eq : machine.run State.new handover = .ok _ := rfl
  have permits : machine.Permits State.new handover := by
    repeat' refine machine.permits_cons (Nat.two_pow_pos 63) rfl ?_
    trivial
  obtain ⟨excludes, counts, served⟩ := writer_alone_and_none_stranded run_eq
  exact ⟨_, run_eq, permits, rfl, excludes, counts, served permits⟩

/-- Threads 1 and 2 queue themselves to write while thread 0 does; 1 is woken and sees the lock
free. -/
def reexamined : List (Input (Fin 3)) :=
  .write 0 :: advances 0 2 ++ .write 1 :: advances 1 5 ++ .write 2 :: advances 2 5 ++
    .dropWrite 0 :: advances 0 1 ++ advances 1 2

section Crowd

/-- One thread holds so many read guards, and these wait in the readers' queue. -/
def crowd (guards : Nat) (queue : List (Fin 3)) : State (Fin 3) :=
  ⟨.ofNat guards, 0, [], queue, none, none, guards, 0,
    fun thread => if thread ∈ queue then .readQueued else .idle⟩

/-- Thread 0 takes so many read guards. -/
def takeGuards : Nat → List (Input (Fin 3))
  | 0 => []
  | count + 1 => takeGuards count ++ .read 0 :: advances 0 3

/-- Thread 0 drops so many read guards. -/
def dropGuards : Nat → List (Input (Fin 3))
  | 0 => []
  | 1 => .dropRead 0 :: advances 0 1
  | count + 2 => .dropRead 0 :: dropGuards (count + 1)

theorem run_takeGuards {count : Nat} (le : count ≤ 2 ^ 63) :
    machine.run State.new (takeGuards count) = .ok (crowd count []) := by
  induction count with
  | zero => rfl
  | succ count ih =>
      have clear : UInt64.ofNat count &&& WRITER_BIT = 0 := by
        have small : count < UInt64.size := by
          change count < 2 ^ 64
          omega
        rw [clear_iff, UInt64.toNat_ofNat_of_lt' small]
        omega
      rw [takeGuards, machine.run_append_ok _ (ih (by omega))]
      simp [machine, Machine.run, advances, step, crowd, State.goto, State.loadReading,
        State.loadWaiting, State.tryRead, clear, Except.bind, bind, List.replicate]

/-- A reader that comes then takes the number of guards for a writer. -/
theorem run_queueReader : machine.run (crowd (2 ^ 63) []) (.read 1 :: advances 1 4) =
    .ok (crowd (2 ^ 63) [1]) := by
  have run_eq : machine.run (crowd (2 ^ 63) []) (.read 1 :: advances 1 4) = .ok _ := rfl
  refine run_eq.trans (congrArg Except.ok (State.ext rfl rfl rfl rfl rfl rfl rfl rfl ?_))
  decide

theorem run_dropGuards {count : Nat} (le : count ≤ 2 ^ 63) :
    machine.run (crowd count [1]) (dropGuards count) = .ok (crowd 0 [1]) := by
  induction count using dropGuards.induct with
  | case1 => rfl
  | case2 =>
      have run_eq : machine.run (crowd 1 [1]) (dropGuards 1) = .ok _ := rfl
      refine run_eq.trans (congrArg Except.ok (State.ext rfl rfl rfl rfl rfl rfl rfl rfl ?_))
      decide
  | case3 count ih =>
      have state_eq : UInt64.ofNat count + 2 - 1 = UInt64.ofNat count + 1 := by
        grind
      have many : UInt64.ofNat count + 2 ≠ 1 := by
        intro one
        have toNat_eq := congrArg UInt64.toNat one
        rw [UInt64.toNat_add, UInt64.toNat_ofNat'] at toNat_eq
        change (count % 2 ^ 64 + 2) % 2 ^ 64 = 1 at toNat_eq
        omega
      have step_eq : machine.step (crowd (count + 2) [1]) (.dropRead 0) =
          .ok (crowd (count + 1) [1]) := by
        simp [machine, step, crowd, State.leaveReading, state_eq, many]
      rw [dropGuards, machine.run_cons_ok _ step_eq]
      exact ih (by omega)

end Crowd

/-- A woken writer may have seen the lock free and not taken it, when another waits; and with 2^63
read guards the word reads as if there was a writer, so that a reader queues itself and is never
woken. -/
theorem literal_strands :
    (∃ final, machine.run State.new reexamined = .ok final ∧
      final.state = 0 ∧ final.writerQueue = [2] ∧ ¬ (Popping final ∨ Draining final) ∧
      ∀ thread, final.phase thread ≠ .reading ∧ ∀ woken,
        final.phase thread ≠ .writing woken ∧ final.phase thread ≠ .writeLeaving woken) ∧
    ∃ (inputs : List (Input (Fin 3))) (final : State (Fin 3)),
      machine.run State.new inputs = .ok final ∧ Stranded final := by
  constructor
  · refine ⟨_, rfl, rfl, rfl, ?_, by decide⟩
    rintro (⟨thread, pops⟩ | ⟨thread, drains⟩)
    · fin_cases thread <;> exact pops
    · fin_cases thread <;> exact drains
  · refine ⟨takeGuards (2 ^ 63) ++ (.read 1 :: advances 1 4 ++ dropGuards (2 ^ 63)), crowd 0 [1],
      ?_, rfl, .inr (by simp [crowd]), ?_, ?_⟩
    · rw [machine.run_append_ok _ (run_takeGuards le_rfl), machine.run_append_ok _ run_queueReader]
      exact run_dropGuards le_rfl
    · rintro (⟨thread, pops⟩ | ⟨thread, drains⟩)
      · fin_cases thread <;> exact pops
      · fin_cases thread <;> exact drains
    · rintro ⟨thread, woken⟩
      fin_cases thread <;> exact woken

end RwLock
end Vespertine
