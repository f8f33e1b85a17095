import Mathlib.Data.Fintype.Card
import Vespertine.Kernel
import Vespertine.Library.Transition

/-!
# The TLB shootdown protocol

A core that changed a page table takes `SHOOTDOWN_LOCK`, publishes the address and the number of
acknowledgements it waits for, interrupts every other core with vector 65 and spins until all have
acknowledged.  The lock is a ticket lock that disables interrupts before it spins and restores them
when released.

Every core runs one instruction of its code at a time.  The local interrupt controller delivers a
pending vector 65 only while the core's interrupts are enabled and no vector of the same priority
class is in service; all handlers but that of vector 65 signal the end of interrupt.
-/

namespace Vespertine
namespace Shootdown

/-- Where a core stands in `shootdown` or in the handler of vector 65. -/
inductive Phase
  /-- Other code, interrupts enabled. -/
  | idle
  /-- Spinning on the lock with a ticket, interrupts disabled from here to the release. -/
  | locking (addr ticket : Nat)
  /-- About to publish the address. -/
  | storeAddr (addr : Nat)
  /-- About to publish the number of acknowledgements. -/
  | storeCounter (addr : Nat)
  /-- About to interrupt core `id`. -/
  | sending (addr id : Nat)
  /-- About to flush the local TLB. -/
  | flushing (addr : Nat)
  /-- Spinning until all acknowledgements have arrived. -/
  | spinning
  /-- About to release the lock and restore interrupts. -/
  | unlocking
  /-- In the handler, about to read the address and flush it. -/
  | handling
  /-- In the handler, about to acknowledge and return. -/
  | acking
deriving DecidableEq, Repr

/-- A core and the state of vector 65 in its interrupt controller. -/
structure Core where
  phase : Phase
  /-- The interrupt is requested. -/
  pending : Bool
  /-- The interrupt was delivered and not ended. -/
  inService : Bool
deriving DecidableEq, Repr

/-- All cores, the ticket lock and `SHOOTDOWN_INFO`. -/
structure State (n : Nat) where
  cores : Fin n → Core
  ticket : Nat
  serving : Nat
  addr : Nat
  counter : Nat

/-- What can happen next. -/
inductive Event (n : Nat)
  /-- A core calls `shootdown(addr, size)`. -/
  | call (core : Fin n) (addr size : Nat)
  /-- A core executes its next instruction in `shootdown` or in the handler. -/
  | advance (core : Fin n)
  /-- The interrupt controller delivers vector 65. -/
  | deliver (core : Fin n)

namespace State

variable {n : Nat}

/-- Overwrite one core. -/
def setCore (state : State n) (core : Fin n) (value : Core) : State n :=
  { state with cores := Function.update state.cores core value }

/-- Move one core to another phase. -/
def setPhase (state : State n) (core : Fin n) (phase : Phase) : State n :=
  state.setCore core { state.cores core with phase }

/-- Request vector 65 on core `id`, unless it is the sender. -/
def sendIpi (state : State n) (core : Fin n) (id : Nat) : State n :=
  if bound : id < n then
    if core.val = id then state
    else state.setCore ⟨id, bound⟩ { state.cores ⟨id, bound⟩ with pending := true }
  else
    state

/-- The next instruction of a core; `none` while it spins. -/
def advance (state : State n) (core : Fin n) : Option (State n) :=
  match (state.cores core).phase with
  | .idle => none
  | .locking addr ticket =>
      if state.serving = ticket then some (state.setPhase core (.storeAddr addr)) else none
  | .storeAddr addr => some { state.setPhase core (.storeCounter addr) with addr }
  | .storeCounter addr => some { state.setPhase core (.sending addr 0) with counter := n - 1 }
  | .sending addr id =>
      if id < n then
        some ((state.sendIpi core id).setPhase core (.sending addr (id + 1)))
      else
        some (state.setPhase core (.flushing addr))
  | .flushing _ => some (state.setPhase core .spinning)
  | .spinning => if state.counter = 0 then some (state.setPhase core .unlocking) else none
  | .unlocking => some { state.setPhase core .idle with serving := wrappingAdd state.serving 1 }
  | .handling => some (state.setPhase core .acking)
  -- The handler returns without an end of interrupt: vector 65 stays in service.
  | .acking => some { state.setPhase core .idle with counter := wrappingSub state.counter 1 }

/-- Deliver vector 65: interrupts enabled, none of its class in service. -/
def deliver (state : State n) (core : Fin n) : Option (State n) :=
  if (state.cores core).phase = .idle ∧ (state.cores core).pending = true ∧
      (state.cores core).inService = false then
    some (state.setCore core ⟨.handling, false, true⟩)
  else
    none

/-- Enter `shootdown`: disable interrupts and take a ticket. -/
def call (state : State n) (core : Fin n) (addr : Nat) : Option (State n) :=
  if (state.cores core).phase = .idle then
    some { state.setPhase core (.locking addr state.ticket) with
      ticket := wrappingAdd state.ticket 1 }
  else
    none

/-- The state after an event, or `none` if it cannot happen. -/
def next (state : State n) : Event n → Option (State n)
  | .call core addr _ => state.call core addr
  | .advance core => state.advance core
  | .deliver core => state.deliver core

/-- No call is under way and no interrupt is left to deliver. -/
def Final (state : State n) : Prop :=
  ∀ core, (state.cores core).phase = .idle ∧ (state.cores core).pending = false

/-- All cores idle, the lock free. -/
def boot (n : Nat) : State n := ⟨fun _ => ⟨.idle, false, false⟩, 0, 0, 0, 0⟩

end State

/-- Cores running the protocol; `allowed` restricts which calls are made. -/
def protocol (n : Nat) (allowed : State n → Event n → Prop) : Machine (State n) (Event n) Unit where
  step state event := match state.next event with
    | some next => .ok next
    | none => .error ()
  permitted := allowed

/-- A call that cannot end in a deadlock: no other core has vector 65 left in service, and every
other core is outside `shootdown`, or is the only one and was already acknowledged by the caller. -/
def ClearToCall {n : Nat} (state : State n) (core : Fin n) : Prop :=
  ∀ other ≠ core, (state.cores other).inService = false ∧
    ((state.cores other).phase = .idle ∨
      (state.cores core).inService = true ∧ ∀ third, third = core ∨ third = other)

/-- Calls are made only when clear. -/
def ClearCalls {n : Nat} (state : State n) : Event n → Prop
  | .call core _ _ => ClearToCall state core
  | _ => True

end Shootdown
end Vespertine
