import Vespertine.Library.Transition
import Vespertine.Object.Abi
import Vespertine.Object.Socket

/-!
# Waiting on sockets

A poll that cannot go on stores the waker of its task in a slot of a bus and returns `Pending`;
whoever makes the bus readable or writable afterwards, or closes it, takes the waker from the slot
and invokes it.  Here the polls are cut where another task, or the drop of an endpoint, may come in
between: the locks on the rings are held by one task at a time, but the closed flags and the slots
are not behind them.

A bus has one slot for readers and one for writers, whatever the number of waiting tasks.
-/

namespace Vespertine

namespace Signal

def READABLE : Signal := ⟨1 <<< 0⟩
def WRITABLE : Signal := ⟨1 <<< 1⟩
def PEER_CLOSED : Signal := ⟨1 <<< 2⟩

/-- No signal. -/
def none : Signal := ⟨0⟩

/-- Every signal of the second set is in the first. -/
def contains (left right : Signal) : Bool := left.bits &&& right.bits == right.bits

/-- The signals of both sets. -/
def insert (left right : Signal) : Signal := ⟨left.bits ||| right.bits⟩

end Signal

namespace SocketWait

/-- An endpoint of one of any number of socket pairs. -/
structure Endpoint (κ : Type) where
  pair : κ
  side : Side
  deriving DecidableEq

def Endpoint.peer {κ : Type} (endpoint : Endpoint κ) : Endpoint κ :=
  { endpoint with side := endpoint.side.peer }

/-- A place for a waker; a bus is named after the endpoint that reads it. -/
inductive Slot (κ : Type) where
  | read (bus : Endpoint κ)
  | write (bus : Endpoint κ)
  deriving DecidableEq

/-- What a task can wait for. -/
inductive Key (κ : Type) where
  | readable (endpoint : Endpoint κ)
  | writable (endpoint : Endpoint κ)
  | peerClosed (endpoint : Endpoint κ)
  deriving DecidableEq

/-- The bus that a test of a condition locks. -/
def Key.bus {κ : Type} : Key κ → Endpoint κ
  | .readable endpoint | .peerClosed endpoint => endpoint
  | .writable endpoint => endpoint.peer

def Key.slot {κ : Type} : Key κ → Slot κ
  | .readable endpoint | .peerClosed endpoint => .read endpoint
  | .writable endpoint => .write endpoint.peer

/-- The conditions behind a set of signals, in the order in which they are tested. -/
def signalKeys {κ : Type} (endpoint : Endpoint κ) (signal : Signal) : List (Key κ) :=
  (if signal.contains .READABLE then [.readable endpoint] else []) ++
    (if signal.contains .WRITABLE then [.writable endpoint] else []) ++
      (if signal.contains .PEER_CLOSED then [.peerClosed endpoint] else [])

inductive Op (κ : Type) where
  | read (endpoint : Endpoint κ) (len : Nat)
  | write (endpoint : Endpoint κ) (src : List UInt8)
  | waitOne (endpoint : Endpoint κ) (signal : Signal)
  | waitMany (items : List (Endpoint κ × Signal))
  deriving DecidableEq

/-- The conditions that an operation names. -/
def Op.keys {κ : Type} : Op κ → List (Key κ)
  | .read endpoint _ => [.readable endpoint]
  | .write endpoint _ => [.writable endpoint]
  | .waitOne endpoint signal => signalKeys endpoint signal
  | .waitMany items => items.flatMap fun item => signalKeys item.1 item.2

/-- Where a task is. -/
inductive Phase (κ : Type) where
  | idle
  /-- A poll has begun. -/
  | polling (op : Op κ)
  /-- `write_async` has copied its bytes. -/
  | copied (endpoint : Endpoint κ) (src : List UInt8)
  /-- `wait_for_signals_async` has still to test these, and blocks on the last one that failed. -/
  | checking (endpoint : Endpoint κ) (signal : Signal) (rest : List (Key κ))
      (blocks : Option (Key κ))
  /-- `wait_many_async` has tested some items; `found` is what the next one has shown so far. -/
  | scanning (items rest : List (Endpoint κ × Signal)) (pending : List Signal)
      (found : Option Signal)
  /-- The poll will return `Pending` once the waker is in these slots. -/
  | registering (op : Op κ) (keys : List (Key κ)) (slots : List (Slot κ))
      (lock : Option (Endpoint κ))
  /-- Bytes were moved, and the waker in this slot is to be taken. -/
  | taking (slot : Slot κ) (count : Nat) (lock : Endpoint κ)
  /-- The last poll returned `Pending`, having registered for these conditions. -/
  | pending (op : Op κ) (keys : List (Key κ))
  /-- The operation has returned; `pending` are the signals of the items of `WaitOp::Many`. -/
  | returned (result : Except InvocationError Nat) (pending : List Signal)

/-- Where the drop of an endpoint is. -/
inductive DropPhase where
  | alive
  /-- The bus is closed. -/
  | marked
  /-- The reader of the bus was woken. -/
  | half
  | gone
  deriving DecidableEq

structure State (κ : Type) where
  bus : Endpoint κ → SocketBus
  isNb : Endpoint κ → Bool
  /-- The task that has locked the ring of a bus. -/
  owner : Endpoint κ → Option Waker
  tasks : Waker → Phase κ
  /-- The waker of a task was invoked since its last poll began. -/
  woken : Waker → Bool
  drops : Endpoint κ → DropPhase

inductive Input (κ : Type) where
  /-- A task begins an operation, or polls it again. -/
  | poll (task : Waker) (op : Op κ)
  /-- The next step of a poll; a copy of user memory or the lookup of a handle may fail. -/
  | advance (task : Waker) (problem : Option InvocationError)
  | setNb (endpoint : Endpoint κ) (nb : Bool)
  /-- The next step of the drop of an endpoint, whose last reference may go at any time. -/
  | drop (endpoint : Endpoint κ)

/-- Why an input is not served now. -/
inductive Disabled where
  | disabled

variable {κ : Type} [DecidableEq κ]

namespace State

def setPhase (state : State κ) (task : Waker) (phase : Phase κ) : State κ :=
  { state with tasks := Function.update state.tasks task phase }

def setBuffer (state : State κ) (endpoint : Endpoint κ) (buffer : RingBuffer) : State κ :=
  { state with bus := Function.update state.bus endpoint { state.bus endpoint with buffer } }

def setOwner (state : State κ) (endpoint : Endpoint κ) (owner : Option Waker) : State κ :=
  { state with owner := Function.update state.owner endpoint owner }

def close (state : State κ) (endpoint : Endpoint κ) : State κ :=
  { state with
    bus := Function.update state.bus endpoint { state.bus endpoint with isClosed := true } }

def waker (state : State κ) : Slot κ → Option Waker
  | .read endpoint => (state.bus endpoint).readWaker
  | .write endpoint => (state.bus endpoint).writeWaker

def setWaker (state : State κ) (slot : Slot κ) (waker : Option Waker) : State κ :=
  match slot with
  | .read endpoint =>
      { state with
        bus := Function.update state.bus endpoint { state.bus endpoint with readWaker := waker } }
  | .write endpoint =>
      { state with
        bus := Function.update state.bus endpoint { state.bus endpoint with writeWaker := waker } }

/-- Take the waker in a slot and invoke it. -/
def take (state : State κ) (slot : Slot κ) : State κ :=
  match state.waker slot with
  | none => state
  | some task =>
      { state.setWaker slot none with woken := Function.update state.woken task true }

/-- Return from an operation. -/
def finish (state : State κ) (task : Waker) (result : Except InvocationError Nat) : State κ :=
  state.setPhase task (.returned result [])

/-- Whether `wait_for_signals_async` finds that a condition does not hold. -/
def unmet (state : State κ) : Key κ → Bool
  | .readable endpoint =>
      (state.bus endpoint).buffer.isEmpty && !(state.bus endpoint).isClosed
  | .writable endpoint =>
      (state.bus endpoint.peer).buffer.isFull && !(state.bus endpoint.peer).isClosed
  | .peerClosed endpoint => !(state.bus endpoint).isClosed

/-- `read_async`, once it has locked the ring. -/
def read (state : State κ) (task : Waker) (endpoint : Endpoint κ) (len : Nat)
    (problem : Option InvocationError) : State κ :=
  let bus := state.bus endpoint
  if bus.buffer.isEmpty then
    if bus.isClosed then
      state.finish task (.ok 0)
    else if state.isNb endpoint then
      state.finish task (.error .WouldBlock)
    else
      (state.setOwner endpoint (some task)).setPhase task
        (.registering (.read endpoint len) [.readable endpoint] [.read endpoint] (some endpoint))
  else
    let (bytes, buffer) := bus.buffer.popSlice (min len TEMP_SIZE)
    match problem with
    | none =>
        ((state.setBuffer endpoint buffer).setOwner endpoint (some task)).setPhase task
          (.taking (.write endpoint) bytes.length endpoint)
    | some _ => (state.setBuffer endpoint buffer).finish task (.error .InvalidPointer)

/-- `write_async` before it locks the ring. -/
def beginWrite (state : State κ) (task : Waker) (endpoint : Endpoint κ) (src : List UInt8)
    (problem : Option InvocationError) : State κ :=
  if (state.bus endpoint.peer).isClosed then
    state.finish task (.error .UnsupportedOperation)
  else if src.length = 0 then
    state.finish task (.ok 0)
  else
    match problem with
    | none => state.setPhase task (.copied endpoint src)
    | some _ => state.finish task (.error .InvalidPointer)

/-- `write_async`, once it has locked the ring. -/
def write (state : State κ) (task : Waker) (endpoint : Endpoint κ) (src : List UInt8) : State κ :=
  let bus := state.bus endpoint.peer
  if bus.isClosed then
    state.finish task (.error .UnsupportedOperation)
  else if bus.buffer.isFull then
    if state.isNb endpoint then
      state.finish task (.error .WouldBlock)
    else
      (state.setOwner endpoint.peer (some task)).setPhase task
        (.registering (.write endpoint src) [.writable endpoint] [.write endpoint.peer]
          (some endpoint.peer))
  else
    let (count, buffer) := bus.buffer.pushSlice (src.take TEMP_SIZE)
    ((state.setBuffer endpoint.peer buffer).setOwner endpoint.peer (some task)).setPhase task
      (.taking (.read endpoint.peer) count endpoint.peer)

/-- The first test of an item of `WaitOp::Many`; `READABLE` is tested under the lock. -/
def scanReadable (state : State κ) (endpoint : Endpoint κ) (signal : Signal) : Signal :=
  if signal.contains .READABLE ∧ (¬ (state.bus endpoint).buffer.isEmpty ∨
      (state.bus endpoint).isClosed) then
    .READABLE
  else
    .none

/-- The second test. -/
def scanClosed (state : State κ) (endpoint : Endpoint κ) (signal found : Signal) : Signal :=
  if signal.contains .PEER_CLOSED ∧ (state.bus endpoint).isClosed then
    found.insert .PEER_CLOSED
  else
    found

/-- `wait_many_async` after its tests. -/
def afterScan (state : State κ) (task : Waker) (items : List (Endpoint κ × Signal))
    (pending : List Signal) : State κ :=
  if pending.any fun signal => signal ≠ .none then
    state.setPhase task (.returned (.ok 0) pending)
  else
    state.setPhase task (.registering (.waitMany items) (Op.waitMany items).keys
      (items.map fun item => .read item.1) none)

/-- Unlock a ring, if it was locked. -/
def unlock (state : State κ) : Option (Endpoint κ) → State κ
  | none => state
  | some endpoint => state.setOwner endpoint none

end State

/-- The next step of a task. -/
def advance (state : State κ) (task : Waker) (problem : Option InvocationError) :
    Except Disabled (State κ) :=
  match state.tasks task with
  | .idle | .pending .. | .returned .. => .error .disabled
  | .polling (.read endpoint len) =>
      if len = 0 then
        .ok (state.finish task (.ok 0))
      else if state.owner endpoint = none then
        .ok (state.read task endpoint len problem)
      else
        .error .disabled
  | .polling (.write endpoint src) => .ok (state.beginWrite task endpoint src problem)
  | .copied endpoint src =>
      if state.owner endpoint.peer = none then
        .ok (state.write task endpoint src)
      else
        .error .disabled
  | .polling (.waitOne endpoint signal) =>
      .ok (state.setPhase task (.checking endpoint signal (signalKeys endpoint signal) none))
  | .checking endpoint signal (key :: rest) blocks =>
      if state.owner key.bus = none then
        let blocks := if state.unmet key then some key else blocks
        .ok (state.setPhase task (.checking endpoint signal rest blocks))
      else
        .error .disabled
  | .checking endpoint signal [] blocks =>
      match blocks with
      | none => .ok (state.finish task (.ok 0))
      | some key =>
          .ok (state.setPhase task
            (.registering (.waitOne endpoint signal) [key] [key.slot] none))
  | .polling (.waitMany items) =>
      match problem with
      | none => .ok (state.setPhase task (.scanning items items [] none))
      | some problem => .ok (state.finish task (.error problem))
  | .scanning items ((endpoint, signal) :: rest) pending none =>
      if signal.contains .READABLE = true → state.owner endpoint = none then
        .ok (state.setPhase task (.scanning items ((endpoint, signal) :: rest) pending
          (some (state.scanReadable endpoint signal))))
      else
        .error .disabled
  | .scanning items ((endpoint, signal) :: rest) pending (some found) =>
      .ok (state.setPhase task (.scanning items rest
        (pending ++ [state.scanClosed endpoint signal found]) none))
  | .scanning items [] pending _ => .ok (state.afterScan task items pending)
  | .registering op keys (slot :: slots) lock =>
      .ok ((state.setWaker slot (some task)).setPhase task (.registering op keys slots lock))
  | .registering op keys [] lock => .ok ((state.unlock lock).setPhase task (.pending op keys))
  | .taking slot count lock =>
      .ok (((state.take slot).setOwner lock none).finish task (.ok count))

/-- `SocketEndpoint::drop`, one step at a time. -/
def dropStep (state : State κ) (endpoint : Endpoint κ) : Except Disabled (State κ) :=
  let moved (state : State κ) (phase : DropPhase) : State κ :=
    { state with drops := Function.update state.drops endpoint phase }
  match state.drops endpoint with
  | .alive => .ok (moved (state.close endpoint.peer) .marked)
  | .marked => .ok (moved (state.take (.read endpoint.peer)) .half)
  | .half => .ok (moved (state.take (.write endpoint.peer)) .gone)
  | .gone => .error .disabled

/-- A task that polls begins an operation or repeats one that is pending. -/
def mayPoll (phase : Phase κ) (op : Op κ) : Bool :=
  match phase with
  | .idle | .returned .. => true
  | .pending pendingOp _ => pendingOp = op
  | _ => false

def step (state : State κ) : Input κ → Except Disabled (State κ)
  | .poll task op =>
      if mayPoll (state.tasks task) op then
        .ok { state.setPhase task (.polling op) with
          woken := Function.update state.woken task false }
      else
        .error .disabled
  | .advance task problem => advance state task problem
  | .setNb endpoint nb => .ok { state with isNb := Function.update state.isNb endpoint nb }
  | .drop endpoint => dropStep state endpoint

/-- A condition holds: there are bytes to read, there is room to write, or the peer is gone. -/
def Satisfied (state : State κ) : Key κ → Prop
  | .readable endpoint =>
      (state.bus endpoint).buffer.isEmpty = false ∨ (state.bus endpoint).isClosed = true
  | .writable endpoint =>
      (state.bus endpoint.peer).buffer.isFull = false ∨ state.drops endpoint.peer ≠ .alive
  | .peerClosed endpoint => (state.bus endpoint).isClosed = true

/-- What an operation waits for; `WaitOp::One` waits for all its signals. -/
def Ready (state : State κ) (op : Op κ) : Prop :=
  match op with
  | .waitOne .. => ∀ key ∈ op.keys, Satisfied state key
  | _ => ∃ key ∈ op.keys, Satisfied state key

/-- Somebody who has moved bytes or closed a bus has still to take the waker in a slot. -/
def Establishing (state : State κ) (slot : Slot κ) : Prop :=
  (∃ task count lock, state.tasks task = .taking slot count lock) ∨
    ∃ endpoint : Endpoint κ, state.drops endpoint = .marked ∧ slot = .read endpoint.peer ∨
      (state.drops endpoint = .marked ∨ state.drops endpoint = .half) ∧ slot = .write endpoint.peer

/-- A task waits for what has happened, and nobody is going to wake it or has done so. -/
def Lost (state : State κ) (task : Waker) : Prop :=
  ∃ op keys, state.tasks task = .pending op keys ∧ Ready state op ∧
    (∀ key ∈ op.keys, Satisfied state key → ¬ Establishing state key.slot) ∧
      state.woken task = false

/-- The slots in which a task expects its waker to be found. -/
def Phase.awaits : Phase κ → List (Slot κ)
  | .registering _ keys _ _ | .pending _ keys => keys.map Key.slot
  | _ => []

/-- A slot holds the waker of a task that counts on it and was not woken. -/
def Listening (state : State κ) (slot : Slot κ) (task : Waker) : Prop :=
  state.waker slot = some task ∧ state.woken task = false ∧ slot ∈ (state.tasks task).awaits

/-- What nothing in the code checks before a step of a poll. -/
def CarefulStep (state : State κ) (task : Waker) (problem : Option InvocationError) :
    Phase κ → Prop
  -- The slot is not in use, and what the task waits for has not come true since it looked.
  | .registering _ keys (slot :: _) _ =>
      (∀ other, other ≠ task → ¬ Listening state slot other) ∧
        ∀ key ∈ keys, key.slot = slot → Satisfied state key → Establishing state slot
  -- A read that makes room and fails to copy the bytes wakes no writer.
  | .polling (.read endpoint len) => len ≠ 0 → problem ≠ none →
      (state.bus endpoint).buffer.isFull = true → ∀ other, ¬ Listening state (.write endpoint) other
  | _ => True

def Careful (state : State κ) : Input κ → Prop
  -- `WaitOp::Many` does not know the signal.
  | .poll _ (.waitMany items) => ∀ item ∈ items, item.2.contains .WRITABLE = false
  | .advance task problem => CarefulStep state task problem (state.tasks task)
  -- The drop of an endpoint wakes nobody who writes to it.
  | .drop endpoint =>
      state.drops endpoint = .alive → ∀ task, ¬ Listening state (.write endpoint) task
  | _ => True

def machine (κ : Type) [DecidableEq κ] : Machine (State κ) (Input κ) Disabled where
  step := step
  permitted := Careful

/-- New socket pairs, and tasks that have not used them. -/
def State.new (κ : Type) : State κ where
  bus _ := .new
  isNb _ := false
  owner _ := none
  tasks _ := .idle
  woken _ := false
  drops _ := .alive

/-!
### Slots and conditions
-/

section Slots

variable {state next : State κ} {endpoint : Endpoint κ} {key : Key κ} {slot other : Slot κ}
  {buffer : RingBuffer} {task : Waker}

section Tasks

omit [DecidableEq κ]

theorem setPhase_tasks_self (phase : Phase κ) :
    (state.setPhase task phase).tasks task = phase :=
  Function.update_self ..

theorem setPhase_tasks_of_ne {actor : Waker} {phase : Phase κ} (apart : actor ≠ task) :
    (state.setPhase task phase).tasks actor = state.tasks actor :=
  Function.update_of_ne apart ..

end Tasks

@[simp] theorem waker_setBuffer :
    (state.setBuffer endpoint buffer).waker slot = state.waker slot := by
  cases slot with
  | read bus =>
      rcases eq_or_ne bus endpoint with rfl | apart
      · simp [State.waker, State.setBuffer]
      · simp [State.waker, State.setBuffer, apart]
  | write bus =>
      rcases eq_or_ne bus endpoint with rfl | apart
      · simp [State.waker, State.setBuffer]
      · simp [State.waker, State.setBuffer, apart]

@[simp] theorem waker_close : (state.close endpoint).waker slot = state.waker slot := by
  cases slot with
  | read bus =>
      rcases eq_or_ne bus endpoint with rfl | apart
      · simp [State.waker, State.close]
      · simp [State.waker, State.close, apart]
  | write bus =>
      rcases eq_or_ne bus endpoint with rfl | apart
      · simp [State.waker, State.close]
      · simp [State.waker, State.close, apart]

@[simp] theorem waker_setWaker_self (waker : Option Waker) :
    (state.setWaker slot waker).waker slot = waker := by
  cases slot <;> simp [State.waker, State.setWaker]

theorem waker_setWaker_of_ne (waker : Option Waker) (apart : other ≠ slot) :
    (state.setWaker slot waker).waker other = state.waker other := by
  cases slot with
  | read bus =>
      cases other with
      | read elsewhere =>
          have ne : elsewhere ≠ bus := fun same => apart (same ▸ rfl)
          simp [State.waker, State.setWaker, ne]
      | write elsewhere =>
          rcases eq_or_ne elsewhere bus with rfl | ne
          · simp [State.waker, State.setWaker]
          · simp [State.waker, State.setWaker, ne]
  | write bus =>
      cases other with
      | read elsewhere =>
          rcases eq_or_ne elsewhere bus with rfl | ne
          · simp [State.waker, State.setWaker]
          · simp [State.waker, State.setWaker, ne]
      | write elsewhere =>
          have ne : elsewhere ≠ bus := fun same => apart (same ▸ rfl)
          simp [State.waker, State.setWaker, ne]

omit [DecidableEq κ] in
/-- The conditions do not depend on the wakers. -/
theorem satisfied_congr (buffer_eq : ∀ bus, (next.bus bus).buffer = (state.bus bus).buffer)
    (closed_eq : ∀ bus, (next.bus bus).isClosed = (state.bus bus).isClosed)
    (drops_eq : next.drops = state.drops) : Satisfied next key ↔ Satisfied state key := by
  cases key <;> simp [Satisfied, buffer_eq, closed_eq, drops_eq]

@[simp] theorem satisfied_setWaker (waker : Option Waker) :
    Satisfied (state.setWaker slot waker) key ↔ Satisfied state key := by
  cases slot with
  | read bus =>
      apply satisfied_congr
      · intro elsewhere
        rcases eq_or_ne elsewhere bus with rfl | apart <;> simp_all [State.setWaker]
      · intro elsewhere
        rcases eq_or_ne elsewhere bus with rfl | apart <;> simp_all [State.setWaker]
      · rfl
  | write bus =>
      apply satisfied_congr
      · intro elsewhere
        rcases eq_or_ne elsewhere bus with rfl | apart <;> simp_all [State.setWaker]
      · intro elsewhere
        rcases eq_or_ne elsewhere bus with rfl | apart <;> simp_all [State.setWaker]
      · rfl

@[simp] theorem satisfied_take : Satisfied (state.take slot) key ↔ Satisfied state key := by
  rw [State.take]
  split
  next => exact Iff.rfl
  next => exact (satisfied_congr (fun _ => rfl) (fun _ => rfl) rfl).trans (satisfied_setWaker none)

/-- Bytes pushed to a ring with room make it readable, and nothing else. -/
theorem satisfied_of_push (room : (state.bus endpoint).buffer.isFull = false)
    (satisfied : Satisfied (state.setBuffer endpoint buffer) key) :
    Satisfied state key ∨ key.slot = .read endpoint := by
  cases key with
  | readable reader =>
      rcases eq_or_ne reader endpoint with rfl | apart
      · exact .inr rfl
      · exact .inl (by simpa [Satisfied, State.setBuffer, apart] using satisfied)
  | writable writer =>
      rcases eq_or_ne writer.peer endpoint with rfl | apart
      · exact .inl (.inl room)
      · exact .inl (by simpa [Satisfied, State.setBuffer, apart] using satisfied)
  | peerClosed reader =>
      rcases eq_or_ne reader endpoint with rfl | apart
      · exact .inl (by simpa [Satisfied, State.setBuffer] using satisfied)
      · exact .inl (by simpa [Satisfied, State.setBuffer, apart] using satisfied)

/-- Bytes popped from a ring that is not empty make it writable, and nothing else. -/
theorem satisfied_of_pop (bytes : (state.bus endpoint).buffer.isEmpty = false)
    (satisfied : Satisfied (state.setBuffer endpoint buffer) key) :
    Satisfied state key ∨ key.slot = .write endpoint := by
  cases key with
  | readable reader =>
      rcases eq_or_ne reader endpoint with rfl | apart
      · exact .inl (.inl bytes)
      · exact .inl (by simpa [Satisfied, State.setBuffer, apart] using satisfied)
  | writable writer =>
      rcases eq_or_ne writer.peer endpoint with same | apart
      · exact .inr (congrArg Slot.write same)
      · exact .inl (by simpa [Satisfied, State.setBuffer, apart] using satisfied)
  | peerClosed reader =>
      rcases eq_or_ne reader endpoint with rfl | apart
      · exact .inl (by simpa [Satisfied, State.setBuffer] using satisfied)
      · exact .inl (by simpa [Satisfied, State.setBuffer, apart] using satisfied)

omit [DecidableEq κ] in
theorem satisfied_of_room (room : (state.bus endpoint).buffer.isFull = false)
    (slot_eq : key.slot = .write endpoint) : Satisfied state key := by
  cases key with
  | readable reader => cases slot_eq
  | peerClosed reader => cases slot_eq
  | writable writer =>
      cases slot_eq
      exact .inl room

/-- A slot that is taken is empty, and its task is woken. -/
theorem take_eq (state : State κ) (slot : Slot κ) :
    (state.take slot).waker slot = none ∧
      (∀ other, other ≠ slot → (state.take slot).waker other = state.waker other) ∧
      (∀ task, state.waker slot = some task → (state.take slot).woken task = true) ∧
      ∀ task, state.woken task = true → (state.take slot).woken task = true := by
  rw [State.take]
  split
  next waker_eq => exact ⟨waker_eq, fun _ _ => rfl, by simp [waker_eq], fun _ woken => woken⟩
  next owner waker_eq =>
    refine ⟨waker_setWaker_self none, fun other apart => waker_setWaker_of_ne none apart,
      fun task same => ?_, fun task woken => ?_⟩
    · obtain rfl : owner = task := Option.some.inj (waker_eq.symm.trans same)
      exact Function.update_self ..
    · rcases eq_or_ne task owner with rfl | apart
      · exact Function.update_self ..
      · exact (Function.update_of_ne apart ..).trans woken

@[simp] theorem take_tasks : (state.take slot).tasks = state.tasks := by
  rw [State.take]
  split
  · rfl
  · cases slot <;> rfl

@[simp] theorem take_drops : (state.take slot).drops = state.drops := by
  rw [State.take]
  split
  · rfl
  · cases slot <;> rfl

end Slots

/-!
### The invariant
-/

/-- The waker of a task is where it will be found, by somebody if the condition holds. -/
def Armed (state : State κ) (task : Waker) (key : Key κ) : Prop :=
  state.waker key.slot = some task ∧ (Satisfied state key → Establishing state key.slot)

/-- A poll registers for one of the conditions of `WaitOp::One`, and otherwise for all. -/
def Plan (op : Op κ) (keys : List (Key κ)) : Prop :=
  match op with
  | .waitOne .. => keys ≠ [] ∧ ∀ key ∈ keys, key ∈ op.keys
  | _ => keys = op.keys

/-- No item asks for the signal that `wait_many_async` does not test. -/
def Tested (items : List (Endpoint κ × Signal)) : Prop :=
  ∀ item ∈ items, item.2.contains .WRITABLE = false

/-- Each condition has its slot ahead, or the task was woken, or the slot will wake it. -/
def Registered (state : State κ) (task : Waker) (keys : List (Key κ)) (slots : List (Slot κ)) :
    Prop :=
  ∀ key ∈ keys, key.slot ∈ slots ∨ state.woken task = true ∨ Armed state task key

/-- What holds of a task in a phase. -/
def PhaseOk (state : State κ) (task : Waker) : Phase κ → Prop
  | .polling (.waitMany items) | .scanning items .. => Tested items
  | .checking endpoint signal rest blocks =>
      (∀ key ∈ rest, key ∈ signalKeys endpoint signal) ∧
        ∀ key ∈ blocks, key ∈ signalKeys endpoint signal
  | .registering op keys slots _ => Plan op keys ∧ Registered state task keys slots
  | .pending op keys => Plan op keys ∧ Registered state task keys []
  | _ => True

def Sound (state : State κ) : Prop :=
  ∀ task, PhaseOk state task (state.tasks task)

section Invariant

variable {state next : State κ} {task : Waker} {key : Key κ} {slot : Slot κ}
  {keys : List (Key κ)} {slots : List (Slot κ)} {phase : Phase κ}

section Listening

omit [DecidableEq κ]

/-- The tasks of a sound state that wait are not lost. -/
theorem Sound.not_lost (sound : Sound state) (task : Waker) : ¬ Lost state task := by
  rintro ⟨op, keys, phase_eq, ready, nobody, asleep⟩
  have ok := sound task
  rw [phase_eq] at ok
  obtain ⟨plan, registered⟩ := ok
  have unready : ∀ key ∈ keys, key ∈ op.keys → ¬ Satisfied state key := by
    intro key mem named satisfied
    rcases registered key mem with ahead | woken | armed
    · cases ahead
    · exact Bool.false_ne_true (asleep.symm.trans woken)
    · exact nobody key named satisfied (armed.2 satisfied)
  cases op with
  | waitOne endpoint signal =>
      obtain ⟨key, mem⟩ := List.exists_mem_of_ne_nil keys plan.1
      exact unready key mem (plan.2 key mem) (ready key (plan.2 key mem))
  | read endpoint len =>
      obtain ⟨key, mem, satisfied⟩ := ready
      exact unready key (plan ▸ mem) mem satisfied
  | write endpoint src =>
      obtain ⟨key, mem, satisfied⟩ := ready
      exact unready key (plan ▸ mem) mem satisfied
  | waitMany items =>
      obtain ⟨key, mem, satisfied⟩ := ready
      exact unready key (plan ▸ mem) mem satisfied

theorem Armed.keep (armed : Armed state task key)
    (waker_eq : next.waker key.slot = state.waker key.slot)
    (satisfied : Satisfied next key → Satisfied state key ∨ Establishing next key.slot)
    (establishing : Establishing state key.slot → Establishing next key.slot) :
    Armed next task key := by
  refine ⟨waker_eq.trans armed.1, fun now => ?_⟩
  rcases satisfied now with before | done
  · exact establishing (armed.2 before)
  · exact done

/-- Who was about to take a waker still is, unless it did so. -/
theorem Establishing.keep (establishing : Establishing state slot)
    (tasks : ∀ task count lock, state.tasks task = .taking slot count lock →
      next.tasks task = .taking slot count lock)
    (drops_eq : next.drops = state.drops) : Establishing next slot := by
  rcases establishing with ⟨task, count, lock, phase_eq⟩ | dropping
  · exact .inl ⟨task, count, lock, tasks task count lock phase_eq⟩
  · exact .inr (by rwa [drops_eq])

/-- A step of a task that was not about to take the waker in the slot. -/
theorem Establishing.act {mid : State κ} (establishing : Establishing state slot)
    (unfinished : ∀ count lock, state.tasks task ≠ .taking slot count lock)
    (tasks_eq : mid.tasks = state.tasks) (drops_eq : mid.drops = state.drops) :
    Establishing (mid.setPhase task phase) slot := by
  refine establishing.keep (fun actor count lock phase_eq => ?_) drops_eq
  have apart : actor ≠ task := by
    rintro rfl
    exact unfinished count lock phase_eq
  rw [setPhase_tasks_of_ne apart, tasks_eq]
  exact phase_eq

theorem Registered.keep (registered : Registered state task keys slots)
    (woken : state.woken task = true → next.woken task = true)
    (armed : ∀ key ∈ keys, state.woken task = false → next.woken task = false →
      Armed state task key → Armed next task key) :
    Registered next task keys slots := by
  intro key mem
  rcases registered key mem with ahead | already | before
  · exact .inl ahead
  · exact .inr (.inl (woken already))
  · by_cases already : state.woken task = true
    · exact .inr (.inl (woken already))
    · by_cases now : next.woken task = true
      · exact .inr (.inl now)
      · exact .inr (.inr (armed key mem (by simpa using already) (by simpa using now) before))

theorem PhaseOk.keep (ok : PhaseOk state task phase)
    (woken : state.woken task = true → next.woken task = true)
    (armed : ∀ key, key.slot ∈ phase.awaits → state.woken task = false →
      next.woken task = false → Armed state task key → Armed next task key) :
    PhaseOk next task phase := by
  cases phase with
  | idle => trivial
  | polling op =>
      cases op with
      | waitMany items => exact ok
      | _ => trivial
  | copied endpoint src => trivial
  | checking endpoint signal rest blocks => exact ok
  | scanning items rest pending found => exact ok
  | registering op keys slots lock =>
      exact ⟨ok.1, ok.2.keep woken fun key mem => armed key (List.mem_map_of_mem mem)⟩
  | taking slot count lock => trivial
  | pending op keys =>
      exact ⟨ok.1, ok.2.keep woken fun key mem => armed key (List.mem_map_of_mem mem)⟩
  | returned result pending => trivial

/-- What a step of one task must leave to a task that listens. -/
structure Spares (state mid : State κ) (task : Waker) (phase : Phase κ) (key : Key κ) : Prop where
  waker_eq : mid.waker key.slot = state.waker key.slot
  satisfied : Satisfied mid key →
    Satisfied state key ∨ Establishing (mid.setPhase task phase) key.slot
  unfinished : ∀ count lock, state.tasks task ≠ .taking key.slot count lock

theorem Spares.armed {mid : State κ} (spares : Spares state mid task phase key)
    (tasks_eq : mid.tasks = state.tasks) (drops_eq : mid.drops = state.drops) {other : Waker}
    (armed : Armed state other key) : Armed (mid.setPhase task phase) other key :=
  armed.keep spares.waker_eq spares.satisfied fun establishing =>
    establishing.act spares.unfinished tasks_eq drops_eq

/-- A step of one task keeps the invariant if it spares those who listen. -/
theorem Sound.act {mid : State κ} (sound : Sound state) (tasks_eq : mid.tasks = state.tasks)
    (drops_eq : mid.drops = state.drops)
    (woken : ∀ other, state.woken other = true → mid.woken other = true)
    (spares : ∀ other, other ≠ task → ∀ key, Listening state key.slot other →
      mid.woken other = false → Spares state mid task phase key)
    (own : PhaseOk (mid.setPhase task phase) task phase) : Sound (mid.setPhase task phase) := by
  intro other
  rcases eq_or_ne other task with rfl | apart
  · rw [setPhase_tasks_self]
    exact own
  · rw [setPhase_tasks_of_ne apart, tasks_eq]
    refine (sound other).keep (woken other) fun key mem asleep still before => ?_
    exact (spares other apart key ⟨before.1, asleep, mem⟩ still).armed tasks_eq drops_eq before

/-- A step that moves no bytes and touches no waker. -/
theorem Sound.quiet {owner : Endpoint κ → Option Waker} (sound : Sound state)
    (idle : ∀ slot count lock, state.tasks task ≠ .taking slot count lock)
    (own : ∀ state, PhaseOk state task phase) :
    Sound (({ state with owner } : State κ).setPhase task phase) :=
  sound.act rfl rfl (fun _ woken => woken)
    (fun _ _ _ _ _ => ⟨rfl, .inl, idle _⟩) (own _)

end Listening

/-- Bytes are moved by a task that will take the waker next. -/
theorem Sound.moves {endpoint : Endpoint κ} {buffer : RingBuffer} {owner : Option Waker}
    {count : Nat} {lock : Endpoint κ} (sound : Sound state)
    (idle : ∀ slot count lock, state.tasks task ≠ .taking slot count lock)
    (changes : ∀ key, Satisfied (state.setBuffer endpoint buffer) key →
      Satisfied state key ∨ key.slot = slot) :
    Sound (((state.setBuffer endpoint buffer).setOwner endpoint owner).setPhase task
      (.taking slot count lock)) := by
  refine sound.act rfl rfl (fun _ woken => woken) (fun other _ key _ _ => ?_) trivial
  refine ⟨waker_setBuffer, fun satisfied => ?_, idle _⟩
  rcases changes key satisfied with before | same
  · exact .inl before
  · exact .inr (.inl ⟨task, count, lock, same ▸ setPhase_tasks_self _⟩)

/-- Bytes are popped and nobody will take the waker of a writer. -/
theorem Sound.discards {endpoint : Endpoint κ} {buffer : RingBuffer}
    {result : Except InvocationError Nat} (sound : Sound state)
    (idle : ∀ slot count lock, state.tasks task ≠ .taking slot count lock)
    (bytes : (state.bus endpoint).buffer.isEmpty = false)
    (careful : (state.bus endpoint).buffer.isFull = true →
      ∀ other, ¬ Listening state (.write endpoint) other) :
    Sound ((state.setBuffer endpoint buffer).finish task result) := by
  refine sound.act rfl rfl (fun _ woken => woken) (fun other _ key listening _ => ?_) trivial
  refine ⟨waker_setBuffer, fun satisfied => ?_, idle _⟩
  rcases satisfied_of_pop bytes satisfied with before | same
  · exact .inl before
  · rcases Bool.eq_false_or_eq_true (state.bus endpoint).buffer.isFull with full | room
    · exact absurd (same ▸ listening) (careful full other)
    · exact .inl (satisfied_of_room room same)

theorem Sound.read {endpoint : Endpoint κ} {len : Nat} {problem : Option InvocationError}
    (sound : Sound state)
    (idle : ∀ slot count lock, state.tasks task ≠ .taking slot count lock)
    (careful : problem ≠ none → (state.bus endpoint).buffer.isFull = true →
      ∀ other, ¬ Listening state (.write endpoint) other) :
    Sound (state.read task endpoint len problem) := by
  unfold State.read
  dsimp only
  split_ifs with empty closed nb
  · exact sound.quiet idle fun _ => trivial
  · exact sound.quiet idle fun _ => trivial
  · refine sound.quiet idle fun _ => ⟨rfl, fun key mem => .inl ?_⟩
    rw [List.mem_singleton.mp mem]
    exact List.mem_singleton.mpr rfl
  · have bytes : (state.bus endpoint).buffer.isEmpty = false := by simpa using empty
    cases problem with
    | none => exact sound.moves idle fun key => satisfied_of_pop bytes
    | some problem => exact sound.discards idle bytes (careful nofun)

omit [DecidableEq κ] in
theorem Sound.beginWrite {endpoint : Endpoint κ} {src : List UInt8}
    {problem : Option InvocationError} (sound : Sound state)
    (idle : ∀ slot count lock, state.tasks task ≠ .taking slot count lock) :
    Sound (state.beginWrite task endpoint src problem) := by
  unfold State.beginWrite
  split_ifs with closed empty
  · exact sound.quiet idle fun _ => trivial
  · exact sound.quiet idle fun _ => trivial
  · cases problem with
    | none => exact sound.quiet idle fun _ => trivial
    | some problem => exact sound.quiet idle fun _ => trivial

theorem Sound.write {endpoint : Endpoint κ} {src : List UInt8} (sound : Sound state)
    (idle : ∀ slot count lock, state.tasks task ≠ .taking slot count lock) :
    Sound (state.write task endpoint src) := by
  unfold State.write
  dsimp only
  split_ifs with closed full nb
  · exact sound.quiet idle fun _ => trivial
  · exact sound.quiet idle fun _ => trivial
  · refine sound.quiet idle fun _ => ⟨rfl, fun key mem => .inl ?_⟩
    rw [List.mem_singleton.mp mem]
    exact List.mem_singleton.mpr rfl
  · exact sound.moves idle fun key => satisfied_of_push (by simpa using full)

omit [DecidableEq κ] in
/-- Items that `wait_many_async` tests are waited for in the slots of their readers. -/
theorem slot_mem_of_tested {items : List (Endpoint κ × Signal)} (tested : Tested items)
    (mem : key ∈ (Op.waitMany items).keys) : key.slot ∈ items.map fun item => Slot.read item.1 := by
  obtain ⟨⟨endpoint, signal⟩, item_mem, key_mem⟩ := List.mem_flatMap.mp mem
  have untested : signal.contains .WRITABLE = false := tested _ item_mem
  have slot_eq : key.slot = .read endpoint := by
    simp only [signalKeys, untested, List.mem_append] at key_mem
    rcases key_mem with (first | second) | third
    · split at first
      · rw [List.mem_singleton.mp first, Key.slot]
      · cases first
    · cases second
    · split at third
      · rw [List.mem_singleton.mp third, Key.slot]
      · cases third
  exact List.mem_map.mpr ⟨_, item_mem, slot_eq.symm⟩

omit [DecidableEq κ] in
theorem Sound.afterScan {items : List (Endpoint κ × Signal)} {pending : List Signal}
    (sound : Sound state) (tested : Tested items)
    (idle : ∀ slot count lock, state.tasks task ≠ .taking slot count lock) :
    Sound (state.afterScan task items pending) := by
  unfold State.afterScan
  split
  · exact sound.quiet idle fun _ => trivial
  · exact sound.quiet idle fun _ => ⟨rfl, fun key mem => .inl (slot_mem_of_tested tested mem)⟩

/-- A task stores its waker in a slot that nobody else counts on. -/
theorem Sound.register {op : Op κ} {lock : Option (Endpoint κ)} (sound : Sound state)
    (phase_eq : state.tasks task = .registering op keys (slot :: slots) lock)
    (alone : ∀ other, other ≠ task → ¬ Listening state slot other)
    (fresh : ∀ key ∈ keys, key.slot = slot → Satisfied state key → Establishing state slot) :
    Sound ((state.setWaker slot (some task)).setPhase task (.registering op keys slots lock)) := by
  have idle : ∀ slot count lock, state.tasks task ≠ .taking slot count lock := by
    simp [phase_eq]
  have ok := sound task
  rw [phase_eq] at ok
  have tasks_eq : (state.setWaker slot (some task)).tasks = state.tasks := by
    cases slot <;> rfl
  have drops_eq : (state.setWaker slot (some task)).drops = state.drops := by
    cases slot <;> rfl
  have woken_eq : (state.setWaker slot (some task)).woken = state.woken := by
    cases slot <;> rfl
  have spares : ∀ key : Key κ, key.slot ≠ slot → Spares state (state.setWaker slot (some task))
      task (.registering op keys slots lock) key := fun key apart =>
    ⟨waker_setWaker_of_ne _ apart, fun satisfied => .inl ((satisfied_setWaker _).mp satisfied),
      idle _⟩
  refine sound.act tasks_eq drops_eq (fun other woken => woken_eq ▸ woken) ?_ ⟨ok.1, ?_⟩
  · intro other apart key listening _
    refine spares key fun same => ?_
    exact alone other apart (same ▸ listening)
  · intro key mem
    by_cases same : key.slot = slot
    · refine .inr (.inr ⟨?_, fun satisfied => ?_⟩)
      · rw [same]
        exact waker_setWaker_self _
      · have before := fresh key mem same ((satisfied_setWaker _).mp satisfied)
        rw [same]
        exact before.act (idle slot) tasks_eq drops_eq
    · rcases ok.2 key mem with ahead | woken | armed
      · exact .inl ((List.mem_cons.mp ahead).resolve_left same)
      · exact .inr (.inl (woken_eq ▸ woken))
      · exact .inr (.inr ((spares key same).armed tasks_eq drops_eq armed))

theorem Sound.settle {op : Op κ} {lock : Option (Endpoint κ)} (sound : Sound state)
    (phase_eq : state.tasks task = .registering op keys [] lock) :
    Sound ((state.unlock lock).setPhase task (.pending op keys)) := by
  have idle : ∀ slot count lock, state.tasks task ≠ .taking slot count lock := by
    simp [phase_eq]
  have ok := sound task
  rw [phase_eq] at ok
  have same : ∃ owner, state.unlock lock = { state with owner } := by
    cases lock with
    | none => exact ⟨state.owner, rfl⟩
    | some endpoint => exact ⟨_, rfl⟩
  obtain ⟨owner, unlock_eq⟩ := same
  rw [unlock_eq]
  refine sound.act rfl rfl (fun _ woken => woken) (fun _ _ _ _ _ => ⟨rfl, .inl, idle _⟩)
    ⟨ok.1, ok.2.keep id fun key mem _ _ armed => ?_⟩
  exact armed.keep rfl .inl fun establishing => establishing.act (idle _) rfl rfl

/-- The waker in a slot is taken and invoked by the task that moved the bytes. -/
theorem Sound.take {count taken : Nat} {lock : Endpoint κ} (sound : Sound state)
    (phase_eq : state.tasks task = .taking slot count lock) :
    Sound (((state.take slot).setOwner lock none).finish task (.ok taken)) := by
  obtain ⟨-, elsewhere, wakes, woken⟩ := take_eq state slot
  refine sound.act (take_tasks ..) (take_drops ..) woken (fun other _ key listening asleep => ?_)
    trivial
  have apart : key.slot ≠ slot := by
    rintro rfl
    exact Bool.false_ne_true (asleep.symm.trans (wakes other listening.1))
  refine ⟨elsewhere _ apart, fun satisfied => .inl (satisfied_take.mp satisfied), ?_⟩
  rintro count lock taking
  rw [phase_eq] at taking
  injection taking with slot_eq
  exact apart slot_eq.symm

section Advance

variable {problem : Option InvocationError}

/-- The first step of a poll. -/
theorem Sound.begin {op : Op κ} (sound : Sound state) (phase_eq : state.tasks task = .polling op)
    (careful : CarefulStep state task problem (.polling op))
    (step_eq : advance state task problem = .ok next) : Sound next := by
  have idle : ∀ slot count lock, state.tasks task ≠ .taking slot count lock := by
    simp [phase_eq]
  have ok := sound task
  rw [phase_eq] at ok
  cases op with
  | read endpoint len =>
      simp only [SocketWait.advance, phase_eq] at step_eq
      split_ifs at step_eq with zero free
      · obtain rfl := Except.ok.inj step_eq
        exact sound.quiet idle fun _ => trivial
      · obtain rfl := Except.ok.inj step_eq
        exact sound.read idle (careful zero)
  | write endpoint src =>
      simp only [SocketWait.advance, phase_eq] at step_eq
      obtain rfl := Except.ok.inj step_eq
      exact sound.beginWrite idle
  | waitOne endpoint signal =>
      simp only [SocketWait.advance, phase_eq] at step_eq
      obtain rfl := Except.ok.inj step_eq
      exact sound.quiet idle fun _ => ⟨fun _ mem => mem, nofun⟩
  | waitMany items =>
      simp only [SocketWait.advance, phase_eq] at step_eq
      cases problem with
      | none =>
          obtain rfl := Except.ok.inj step_eq
          exact sound.quiet idle fun _ => ok
      | some problem =>
          obtain rfl := Except.ok.inj step_eq
          exact sound.quiet idle fun _ => trivial

/-- `wait_for_signals_async` tests a signal, or blocks on one of those that failed. -/
theorem Sound.check {endpoint : Endpoint κ} {signal : Signal} {rest : List (Key κ)}
    {blocks : Option (Key κ)} (sound : Sound state)
    (phase_eq : state.tasks task = .checking endpoint signal rest blocks)
    (step_eq : advance state task problem = .ok next) : Sound next := by
  have idle : ∀ slot count lock, state.tasks task ≠ .taking slot count lock := by
    simp [phase_eq]
  have ok := sound task
  rw [phase_eq] at ok
  cases rest with
  | nil =>
      cases blocks with
      | none =>
          simp only [SocketWait.advance, phase_eq] at step_eq
          obtain rfl := Except.ok.inj step_eq
          exact sound.quiet idle fun _ => trivial
      | some key =>
          simp only [SocketWait.advance, phase_eq] at step_eq
          obtain rfl := Except.ok.inj step_eq
          refine sound.quiet idle fun _ => ⟨⟨by simp, fun other mem => ?_⟩, fun other mem => ?_⟩
          · rw [List.mem_singleton.mp mem]
            exact ok.2 key rfl
          · rw [List.mem_singleton.mp mem]
            exact .inl (List.mem_singleton.mpr rfl)
  | cons key rest =>
      simp only [SocketWait.advance, phase_eq] at step_eq
      split_ifs at step_eq with free unmet
      · obtain rfl := Except.ok.inj step_eq
        refine sound.quiet idle fun _ => ⟨fun other mem => ok.1 other (.tail _ mem), ?_⟩
        rintro other ⟨⟩
        exact ok.1 key List.mem_cons_self
      · obtain rfl := Except.ok.inj step_eq
        exact sound.quiet idle fun _ => ⟨fun other mem => ok.1 other (.tail _ mem), ok.2⟩

/-- `wait_many_async` tests an item, or has tested them all. -/
theorem Sound.scan {items rest : List (Endpoint κ × Signal)} {pending : List Signal}
    {found : Option Signal} (sound : Sound state)
    (phase_eq : state.tasks task = .scanning items rest pending found)
    (step_eq : advance state task problem = .ok next) : Sound next := by
  have idle : ∀ slot count lock, state.tasks task ≠ .taking slot count lock := by
    simp [phase_eq]
  have ok := sound task
  rw [phase_eq] at ok
  cases rest with
  | nil =>
      simp only [SocketWait.advance, phase_eq] at step_eq
      obtain rfl := Except.ok.inj step_eq
      exact sound.afterScan ok idle
  | cons item rest =>
      cases found with
      | none =>
          simp only [SocketWait.advance, phase_eq] at step_eq
          split_ifs at step_eq with free
          obtain rfl := Except.ok.inj step_eq
          exact sound.quiet idle fun _ => ok
      | some found =>
          simp only [SocketWait.advance, phase_eq] at step_eq
          obtain rfl := Except.ok.inj step_eq
          exact sound.quiet idle fun _ => ok

theorem Sound.advance (sound : Sound state)
    (careful : CarefulStep state task problem (state.tasks task))
    (step_eq : advance state task problem = .ok next) : Sound next := by
  cases phase_eq : state.tasks task with
  | idle => simp [SocketWait.advance, phase_eq] at step_eq
  | returned result pending => simp [SocketWait.advance, phase_eq] at step_eq
  | pending op keys => simp [SocketWait.advance, phase_eq] at step_eq
  | polling op => exact sound.begin phase_eq (phase_eq ▸ careful) step_eq
  | checking endpoint signal rest blocks => exact sound.check phase_eq step_eq
  | scanning items rest pending found => exact sound.scan phase_eq step_eq
  | copied endpoint src =>
      simp only [SocketWait.advance, phase_eq] at step_eq
      split_ifs at step_eq with free
      obtain rfl := Except.ok.inj step_eq
      exact sound.write (by simp [phase_eq])
  | registering op keys slots lock =>
      rw [phase_eq] at careful
      cases slots with
      | nil =>
          simp only [SocketWait.advance, phase_eq] at step_eq
          obtain rfl := Except.ok.inj step_eq
          exact sound.settle phase_eq
      | cons slot slots =>
          simp only [SocketWait.advance, phase_eq] at step_eq
          obtain rfl := Except.ok.inj step_eq
          exact sound.register phase_eq careful.1 careful.2
  | taking slot count lock =>
      simp only [SocketWait.advance, phase_eq] at step_eq
      obtain rfl := Except.ok.inj step_eq
      exact sound.take phase_eq

end Advance

omit [DecidableEq κ] in
theorem Sound.poll {op : Op κ} (sound : Sound state)
    (idle : ∀ slot count lock, state.tasks task ≠ .taking slot count lock)
    (own : ∀ state, PhaseOk state task (.polling op)) :
    Sound { state.setPhase task (.polling op) with
      woken := Function.update state.woken task false } := by
  intro other
  rcases eq_or_ne other task with rfl | apart
  · have phase_eq : (state.setPhase other (.polling op)).tasks other = .polling op :=
      setPhase_tasks_self _
    exact phase_eq.symm ▸ own _
  · have same : Function.update state.woken task false other = state.woken other :=
      Function.update_of_ne apart ..
    have phase_eq : (state.setPhase task (.polling op)).tasks other = state.tasks other :=
      setPhase_tasks_of_ne apart
    refine phase_eq.symm ▸ (sound other).keep (fun woken => same.trans woken) ?_
    intro key _ _ _ armed
    refine armed.keep rfl .inl fun establishing => ?_
    exact (establishing.act (idle _) rfl rfl : Establishing (state.setPhase task (.polling op)) _)

omit [DecidableEq κ] in
/-- What a step of a drop must leave to the tasks. -/
theorem Sound.drop (sound : Sound state) (tasks_eq : next.tasks = state.tasks)
    (woken : ∀ task, state.woken task = true → next.woken task = true)
    (armed : ∀ task key, Listening state key.slot task → next.woken task = false →
      Armed state task key → Armed next task key) : Sound next := by
  intro task
  rw [tasks_eq]
  refine (sound task).keep (woken task) fun key mem asleep still before => ?_
  exact armed task key ⟨before.1, asleep, mem⟩ still before

/-- The drop of an endpoint makes what its peer reads closed, and nothing else but what its peer
writes to it. -/
theorem satisfied_of_close {endpoint : Endpoint κ}
    (satisfied : Satisfied { state.close endpoint.peer with
      drops := Function.update state.drops endpoint .marked } key) :
    Satisfied state key ∨ key.slot = .read endpoint.peer ∨ key.slot = .write endpoint := by
  cases key with
  | readable reader =>
      rcases eq_or_ne reader endpoint.peer with rfl | apart
      · exact .inr (.inl rfl)
      · exact .inl (by simpa [Satisfied, State.close, apart] using satisfied)
  | peerClosed reader =>
      rcases eq_or_ne reader endpoint.peer with rfl | apart
      · exact .inr (.inl rfl)
      · exact .inl (by simpa [Satisfied, State.close, apart] using satisfied)
  | writable writer =>
      rcases eq_or_ne writer.peer endpoint with same | apart
      · exact .inr (.inr (congrArg Slot.write same))
      · refine .inl ?_
        rcases satisfied with room | gone
        · refine .inl ?_
          rcases eq_or_ne writer.peer endpoint.peer with same | other
          · simpa [State.close, same] using room
          · simpa [State.close, other] using room
        · exact .inr (by simpa [apart] using gone)

theorem Establishing.marked {endpoint : Endpoint κ} (alive : state.drops endpoint = .alive)
    (establishing : Establishing state slot) :
    Establishing { state.close endpoint.peer with
      drops := Function.update state.drops endpoint .marked } slot := by
  rcases establishing with taking | ⟨other, dropping⟩
  · exact .inl taking
  · have apart : other ≠ endpoint := by
      rintro rfl
      simp [alive] at dropping
    exact .inr ⟨other, by simpa [apart] using dropping⟩

/-- The conditions do not depend on how far a drop has come. -/
theorem satisfied_of_drops {endpoint : Endpoint κ} {phase : DropPhase}
    (dropping : state.drops endpoint ≠ .alive)
    (satisfied : Satisfied { state with drops := Function.update state.drops endpoint phase } key) :
    Satisfied state key := by
  cases key with
  | readable reader => exact satisfied
  | peerClosed reader => exact satisfied
  | writable writer =>
      rcases satisfied with room | gone
      · exact .inl room
      · rcases eq_or_ne writer.peer endpoint with same | apart
        · exact .inr (same ▸ dropping)
        · exact .inr (by simpa [apart] using gone)

/-- The drop of an endpoint takes the waker in a slot. -/
theorem Sound.dropTake {endpoint : Endpoint κ} {phase : DropPhase} (sound : Sound state)
    (dropping : state.drops endpoint ≠ .alive)
    (establishing : ∀ other, other ≠ slot → Establishing (state.take slot) other →
      Establishing { state.take slot with
        drops := Function.update (state.take slot).drops endpoint phase } other) :
    Sound { state.take slot with
      drops := Function.update (state.take slot).drops endpoint phase } := by
  obtain ⟨-, elsewhere, wakes, woken⟩ := take_eq state slot
  refine sound.drop take_tasks woken fun task key listening asleep armed => ?_
  have apart : key.slot ≠ slot := by
    rintro rfl
    exact Bool.false_ne_true (asleep.symm.trans (wakes task listening.1))
  refine armed.keep (elsewhere _ apart) (fun satisfied => .inl ?_) fun before => ?_
  · have started : (state.take slot).drops endpoint ≠ .alive := by
      rwa [take_drops]
    exact satisfied_take.mp (satisfied_of_drops started satisfied)
  · refine establishing _ apart (before.keep (fun _ _ _ phase_eq => ?_) take_drops)
    rwa [take_tasks]

theorem Sound.dropStep {endpoint : Endpoint κ} (sound : Sound state)
    (careful : state.drops endpoint = .alive → ∀ task, ¬ Listening state (.write endpoint) task)
    (step_eq : dropStep state endpoint = .ok next) : Sound next := by
  unfold SocketWait.dropStep at step_eq
  cases phase_eq : state.drops endpoint with
  | alive =>
      simp only [phase_eq] at step_eq
      obtain rfl := Except.ok.inj step_eq
      refine sound.drop rfl (fun _ woken => woken) fun task key listening _ armed => ?_
      refine armed.keep waker_close (fun satisfied => ?_) (·.marked phase_eq)
      rcases satisfied_of_close satisfied with before | readers | writers
      · exact .inl before
      · exact .inr (.inr ⟨endpoint, .inl ⟨Function.update_self .., readers⟩⟩)
      · exact absurd (writers ▸ listening) (careful phase_eq task)
  | marked =>
      simp only [phase_eq] at step_eq
      obtain rfl := Except.ok.inj step_eq
      refine sound.dropTake (by simp [phase_eq]) fun slot apart establishing => ?_
      rcases establishing with taking | ⟨other, dropping⟩
      · exact .inl taking
      · rcases eq_or_ne other endpoint with rfl | elsewhere
        · rcases dropping with ⟨-, readers⟩ | ⟨-, writers⟩
          · exact absurd readers apart
          · exact .inr ⟨other, .inr ⟨.inr (Function.update_self ..), writers⟩⟩
        · exact .inr ⟨other, by simpa [elsewhere] using dropping⟩
  | half =>
      simp only [phase_eq] at step_eq
      obtain rfl := Except.ok.inj step_eq
      refine sound.dropTake (by simp [phase_eq]) fun slot apart establishing => ?_
      rcases establishing with taking | ⟨other, dropping⟩
      · exact .inl taking
      · rcases eq_or_ne other endpoint with rfl | elsewhere
        · rw [take_drops, phase_eq] at dropping
          rcases dropping with ⟨impossible, -⟩ | ⟨-, writers⟩
          · cases impossible
          · exact absurd writers apart
        · exact .inr ⟨other, by simpa [elsewhere] using dropping⟩
  | gone => simp [phase_eq] at step_eq

theorem Sound.step {input : Input κ} (sound : Sound state) (careful : Careful state input)
    (step_eq : step state input = .ok next) : Sound next := by
  cases input with
  | poll task op =>
      simp only [SocketWait.step] at step_eq
      split_ifs at step_eq with may
      obtain rfl := Except.ok.inj step_eq
      refine sound.poll (fun slot count lock phase_eq => ?_) fun _ => ?_
      · simp [phase_eq, mayPoll] at may
      · cases op with
        | waitMany items => exact careful
        | _ => trivial
  | advance task problem => exact sound.advance careful step_eq
  | setNb endpoint nb =>
      obtain rfl := Except.ok.inj step_eq
      exact sound.drop rfl (fun _ woken => woken) fun task key _ _ armed => armed
  | drop endpoint => exact sound.dropStep careful step_eq

end Invariant

theorem sound_new (κ : Type) [DecidableEq κ] : Sound (State.new κ) := fun _ => trivial

/-- Socket waits lose no wake-up.  However reads, writes, waits and drops of endpoints interleave,
no task waits for what has happened while nobody is about to wake it or has done so: provided that
a waker is stored in a slot that no other task counts on, before what it waits for comes true or
while whoever made it true has still to look there; that no read takes bytes from a full ring and
then fails to deliver them while a writer waits; that `WaitOp::Many` is not used to write; and that
no endpoint is dropped while a task waits to write to it. -/
theorem no_lost_wakeup {inputs : List (Input κ)} {final : State κ}
    (careful : (machine κ).Permits (State.new κ) inputs)
    (run_eq : (machine κ).run (State.new κ) inputs = .ok final) (task : Waker) :
    ¬ Lost final task := by
  have sound : Sound final :=
    (machine κ).run_keeps (fun _ _ _ sound careful step_eq => sound.step careful step_eq)
      (sound_new κ) careful run_eq
  exact sound.not_lost task

def left : Endpoint Unit := ⟨(), .first⟩
def right : Endpoint Unit := ⟨(), .second⟩

/-- Task 1 waits for a byte, task 2 writes one and wakes it, and task 1 reads it. -/
def deliveryInputs : List (Input Unit) :=
  [.poll 1 (.read left 4), .advance 1 none, .advance 1 none, .advance 1 none,
    .poll 2 (.write right [7]), .advance 2 none, .advance 2 none, .advance 2 none,
    .poll 1 (.read left 4), .advance 1 none, .advance 1 none]

theorem no_lost_wakeup_delivery :
    ∃ final, (machine Unit).run (State.new Unit) deliveryInputs = .ok final ∧
      final.tasks 1 = .returned (.ok 1) [] ∧ ∀ task, ¬ Lost final task := by
  obtain ⟨final, run_eq, returned⟩ : ∃ final,
      (machine Unit).run (State.new Unit) deliveryInputs = .ok final ∧
        final.tasks 1 = .returned (.ok 1) [] :=
    ⟨_, rfl, rfl⟩
  refine ⟨final, run_eq, returned, no_lost_wakeup ?_ run_eq⟩
  refine Machine.permits_cons _ trivial rfl ?_
  refine Machine.permits_cons _ (fun _ failed => absurd rfl failed) rfl ?_
  refine Machine.permits_cons _ ⟨?_, ?_⟩ rfl ?_
  · rintro other - ⟨waiting, -⟩
    cases waiting
  · intro key mem _ satisfied
    rw [List.mem_singleton.mp mem] at satisfied
    rcases satisfied with bytes | closed
    · cases bytes
    · cases closed
  refine Machine.permits_cons _ trivial rfl ?_
  refine Machine.permits_cons _ trivial rfl ?_
  refine Machine.permits_cons _ trivial rfl ?_
  refine Machine.permits_cons _ trivial rfl ?_
  refine Machine.permits_cons _ trivial rfl ?_
  refine Machine.permits_cons _ trivial rfl ?_
  refine Machine.permits_cons _ (fun _ failed => absurd rfl failed) rfl ?_
  exact Machine.permits_cons _ trivial rfl trivial

/-- A read finds its ring empty and open; its peer is dropped, closes the bus and finds no waker;
the read stores its waker and waits for ever. -/
theorem wakeup_lost :
    ∃ (inputs : List (Input Unit)) (final : State Unit),
      (machine Unit).run (State.new Unit) inputs = .ok final ∧ Lost final 1 := by
  let inputs : List (Input Unit) := [.poll 1 (.read left 4), .advance 1 none, .drop right,
    .drop right, .drop right, .advance 1 none, .advance 1 none]
  obtain ⟨final, run_eq, phase_eq, asleep, others, closed, drops_eq⟩ : ∃ final,
      (machine Unit).run (State.new Unit) inputs = .ok final ∧
        final.tasks 1 = .pending (.read left 4) [.readable left] ∧ final.woken 1 = false ∧
        (∀ task, task ≠ 1 → final.tasks task = .idle) ∧ (final.bus left).isClosed = true ∧
          ∀ endpoint, final.drops endpoint = if endpoint = right then .gone else .alive := by
    refine ⟨_, rfl, rfl, rfl, fun task apart => ?_, rfl, ?_⟩
    · let fresh : Waker → Phase Unit := fun _ => .idle
      change Function.update (Function.update (Function.update (Function.update fresh
        1 _) 1 _) 1 _) 1 _ task = fresh task
      simp only [Function.update_of_ne apart]
    · rintro ⟨-, side⟩
      cases side <;> rfl
  refine ⟨inputs, final, run_eq, _, _, phase_eq, ?_, ?_, asleep⟩
  · exact ⟨.readable left, List.mem_singleton.mpr rfl, .inr closed⟩
  · rintro key - - (⟨task, count, lock, taking⟩ | ⟨endpoint, dropping⟩)
    · rcases eq_or_ne task 1 with rfl | apart
      · cases phase_eq.symm.trans taking
      · cases (others task apart).symm.trans taking
    · rw [drops_eq] at dropping
      split at dropping <;> simp at dropping

end SocketWait
end Vespertine
