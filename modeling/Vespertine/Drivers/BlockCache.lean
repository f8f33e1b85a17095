import Mathlib.Data.Fintype.Card
import Mathlib.Data.List.FinRange
import Mathlib.Tactic.SplitIfs
import Vespertine.Library.Transition
import Vespertine.Library.Word

/-!
# The block cache

A fixed number of slots holds blocks of the device.  Lookup, choice of a victim, write-back, change
of the tag and fetch are separate critical sections with device requests between them, so each task
is a state machine whose phases are the places where it holds no lock.  Any number of tasks
interleave, and the device completes requests in any order.

A block is a row of sectors, and the device is addressed by 64-bit sector numbers.  A request that
fails transfers nothing.
-/

namespace Vespertine
namespace BlockCache

/-- A slot of the cache. -/
structure CacheEntry (Block : Type) where
  blockId : Option Nat
  referenced : Bool
  dirty : Bool
  inFlight : Bool
  data : Block

/-- What the lock of the cache protects. -/
structure BlockCacheInner (slots : Nat) (Block : Type) where
  entries : Fin slots → CacheEntry Block
  clockHand : Fin slots

namespace BlockCacheInner

variable {slots : Nat} {Block : Type} (inner : BlockCacheInner slots Block)

/-- Change one slot. -/
def modify (slot : Fin slots) (change : CacheEntry Block → CacheEntry Block) :
    BlockCacheInner slots Block :=
  { inner with entries := Function.update inner.entries slot (change (inner.entries slot)) }

/-- The first slot that holds a block. -/
def findBlock (blockId : Nat) : Option (Fin slots) :=
  (List.finRange slots).find? fun slot => (inner.entries slot).blockId == some blockId

/-- The first slot that holds no block and is not reserved. -/
def findVacant : Option (Fin slots) :=
  (List.finRange slots).find? fun slot =>
    (inner.entries slot).blockId.isNone && !(inner.entries slot).inFlight

variable [NeZero slots]

/-- The loop of the second-chance eviction, for at most `fuel` rounds; `checked` counts the slots
passed over because they are in flight. -/
def secondChance : (fuel checked : Nat) → BlockCacheInner slots Block →
    Option (Except Unit (Fin slots) × BlockCacheInner slots Block)
  | 0, _, _ => none
  | fuel + 1, checked, inner =>
      let slot := inner.clockHand
      let turned := { inner with clockHand := slot + 1 }
      if (inner.entries slot).inFlight then
        if checked + 1 ≥ slots then
          some (.error (), turned)
        else
          secondChance fuel (checked + 1) turned
      else if (inner.entries slot).referenced then
        secondChance fuel checked (turned.modify slot ({ · with referenced := false }))
      else
        some (.ok slot, turned)

/-- Choose a slot for a block that is not in the cache. -/
def selectSlot : Option (Except Unit (Fin slots) × BlockCacheInner slots Block) :=
  match inner.findVacant with
  | some slot => some (.ok slot, inner)
  | none => inner.secondChance (2 * slots + 1) 0

/-- What `flush` writes: the dirty blocks that are not in flight. -/
def dirtyEntries : List (Nat × Block) :=
  (List.finRange slots).filterMap fun slot =>
    let entry := inner.entries slot
    if entry.dirty && !entry.inFlight then entry.blockId.map (·, entry.data) else none

/-- What `flush` does at its end. -/
def clearDirty : BlockCacheInner slots Block :=
  { inner with
    entries := fun slot =>
      let entry := inner.entries slot
      if entry.dirty && !entry.inFlight then { entry with dirty := false } else entry }

end BlockCacheInner

section Device

variable {spb : Nat} {Sector : Type}

/-- The first sector of a block, computed in a 64-bit word. -/
def startSector (spb blockId : Nat) : Nat := blockId * spb % wordSize

/-- The sectors of a block. -/
def readSectors (disk : Nat → Sector) (blockId : Nat) : Fin spb → Sector :=
  fun offset => disk (startSector spb blockId + offset)

/-- Replace the sectors of a block. -/
def writeSectors (disk : Nat → Sector) (blockId : Nat) (data : Fin spb → Sector) : Nat → Sector :=
  fun sector =>
    if inside : startSector spb blockId ≤ sector ∧ sector - startSector spb blockId < spb then
      data ⟨sector - startSector spb blockId, inside.2⟩
    else
      disk sector

end Device

/-- A call of `read_block`, or of `write_block` with the block to store. -/
inductive Request (Block : Type)
  | read (blockId : Nat)
  | write (blockId : Nat) (src : Block)

/-- The block of a request. -/
def Request.blockId {Block : Type} : Request Block → Nat
  | .read blockId | .write blockId _ => blockId

/-- The calls on a cache. -/
inductive Call (Block : Type)
  | request (request : Request Block)
  | flush

/-- Where a task is. -/
inductive Phase (slots : Nat) (Block : Type)
  | idle
  /-- About to look for its block. -/
  | lookup (request : Request Block)
  /-- Found its block in a slot that was not in flight; about to copy. -/
  | hit (request : Request Block) (slot : Fin slots)
  /-- Did not find its block; about to choose a slot. -/
  | miss (request : Request Block)
  /-- Reserved a slot; about to see whether it is dirty. -/
  | victim (request : Request Block) (slot : Fin slots)
  /-- Waiting for the write-back of the old block. -/
  | writeBack (request : Request Block) (slot : Fin slots) (oldBlock : Nat) (oldData : Block)
  /-- The write-back is complete; about to clear the dirty flag. -/
  | written (request : Request Block) (slot : Fin slots)
  /-- About to tag the slot with its block. -/
  | retag (request : Request Block) (slot : Fin slots)
  /-- Waiting for the sectors of its block. -/
  | fetching (blockId : Nat) (slot : Fin slots)
  /-- The sectors are in the slot; about to copy them. -/
  | fetched (blockId : Nat) (slot : Fin slots)
  /-- In `flush`, about to collect the dirty blocks. -/
  | snapshot
  /-- In `flush`, waiting for the first of these blocks to be written. -/
  | flushing (dirtyEntries : List (Nat × Block))
  | returned (result : Except Unit (Option Block))

/-- A cache with its device and the tasks that use it. -/
structure State (slots spb : Nat) (Sector τ : Type) where
  inner : BlockCacheInner slots (Fin spb → Sector)
  disk : Nat → Sector
  tasks : τ → Phase slots (Fin spb → Sector)
  /-- What `write_block` stored last in each block, or what the device held at first. -/
  logical : Nat → Fin spb → Sector

/-- What can happen next. -/
inductive Event (τ Block : Type)
  /-- A task calls the cache. -/
  | call (task : τ) (call : Call Block)
  /-- A task goes through its next critical section. -/
  | advance (task : τ)
  /-- The device completes the request of a task. -/
  | complete (task : τ) (succeeds : Bool)

/-- The task that an event moves. -/
def Event.task {τ Block : Type} : Event τ Block → τ
  | .call task _ | .advance task | .complete task _ => task

/-- The task is not where the event takes place. -/
inductive Stuck
  | stuck

variable {slots spb : Nat} [NeZero slots] {Sector τ : Type} [DecidableEq τ]

namespace State

variable (state : State slots spb Sector τ) (task : τ)

/-- Move a task to a phase. -/
def enter (phase : Phase slots (Fin spb → Sector)) : State slots spb Sector τ :=
  { state with tasks := Function.update state.tasks task phase }

/-- Change a slot. -/
def modify (slot : Fin slots)
    (change : CacheEntry (Fin spb → Sector) → CacheEntry (Fin spb → Sector)) :
    State slots spb Sector τ :=
  { state with inner := state.inner.modify slot change }

/-- Note what a write stores. -/
def store (blockId : Nat) (src : Fin spb → Sector) : State slots spb Sector τ :=
  { state with logical := Function.update state.logical blockId src }

/-- Look for a block; a slot in flight is looked at again later. -/
def lookup (request : Request (Fin spb → Sector)) : State slots spb Sector τ :=
  match state.inner.findBlock request.blockId with
  | none => state.enter task (.miss request)
  | some slot =>
      if (state.inner.entries slot).inFlight then
        state.enter task (.lookup request)
      else
        state.enter task (.hit request slot)

/-- Copy to or from the slot of a hit. -/
def copyHit (slot : Fin slots) : Request (Fin spb → Sector) → State slots spb Sector τ
  | .read _ =>
      (state.modify slot ({ · with referenced := true })).enter task
        (.returned (.ok (some (state.inner.entries slot).data)))
  | .write blockId src =>
      ((state.modify slot ({ · with referenced := true, dirty := true, data := src })).store
        blockId src).enter task (.returned (.ok none))

/-- Reserve a slot for a block that is not in the cache. -/
def reserve (request : Request (Fin spb → Sector)) : Except Stuck (State slots spb Sector τ) :=
  match state.inner.selectSlot with
  | none => .error .stuck
  | some (.error _, inner) => .ok ({ state with inner }.enter task (.returned (.error ())))
  | some (.ok slot, inner) =>
      .ok (({ state with inner }.modify slot ({ · with inFlight := true })).enter task
        (.victim request slot))

/-- Start the write-back of a dirty victim. -/
def inspectVictim (request : Request (Fin spb → Sector)) (slot : Fin slots) :
    State slots spb Sector τ :=
  let entry := state.inner.entries slot
  match entry.dirty, entry.blockId with
  | true, some oldBlock => state.enter task (.writeBack request slot oldBlock entry.data)
  | _, _ => state.enter task (.retag request slot)

/-- Tag a slot: a read fetches the block, a write stores it. -/
def tag (slot : Fin slots) : Request (Fin spb → Sector) → State slots spb Sector τ
  | .read blockId =>
      (state.modify slot ({ · with blockId := some blockId })).enter task (.fetching blockId slot)
  | .write blockId src =>
      ((state.modify slot ({ · with
          blockId := some blockId
          referenced := true
          dirty := true
          inFlight := false
          data := src })).store blockId src).enter task (.returned (.ok none))

/-- The next critical section of a task. -/
def advance : Except Stuck (State slots spb Sector τ) :=
  match state.tasks task with
  | .lookup request => .ok (state.lookup task request)
  | .hit request slot => .ok (state.copyHit task slot request)
  | .miss request => state.reserve task request
  | .victim request slot => .ok (state.inspectVictim task request slot)
  | .written request slot =>
      .ok ((state.modify slot ({ · with dirty := false })).enter task (.retag request slot))
  | .retag request slot => .ok (state.tag task slot request)
  | .fetched _ slot =>
      .ok ((state.modify slot ({ · with referenced := true, inFlight := false })).enter task
        (.returned (.ok (some (state.inner.entries slot).data))))
  | .snapshot => .ok (state.enter task (.flushing state.inner.dirtyEntries))
  | .flushing [] =>
      .ok ({ state with inner := state.inner.clearDirty }.enter task (.returned (.ok none)))
  | .idle | .writeBack .. | .fetching .. | .flushing (_ :: _) | .returned _ => .error .stuck

/-- The device completes the request of a task. -/
def complete (succeeds : Bool) : Except Stuck (State slots spb Sector τ) :=
  match state.tasks task, succeeds with
  | .writeBack request slot oldBlock oldData, true =>
      .ok ({ state with disk := writeSectors state.disk oldBlock oldData }.enter task
        (.written request slot))
  | .fetching blockId slot, true =>
      .ok ((state.modify slot ({ · with data := readSectors state.disk blockId })).enter task
        (.fetched blockId slot))
  | .flushing ((blockId, data) :: rest), true =>
      .ok ({ state with disk := writeSectors state.disk blockId data }.enter task (.flushing rest))
  | .writeBack .., false | .fetching .., false | .flushing (_ :: _), false =>
      .ok (state.enter task (.returned (.error ())))
  | _, _ => .error .stuck

/-- A task that is in no call makes one. -/
def call (request : Call (Fin spb → Sector)) : Except Stuck (State slots spb Sector τ) :=
  match state.tasks task, request with
  | .idle, .request request | .returned _, .request request =>
      .ok (state.enter task (.lookup request))
  | .idle, .flush | .returned _, .flush => .ok (state.enter task .snapshot)
  | _, _ => .error .stuck

/-- A new cache over a device, before any call. -/
def new (blank : Fin spb → Sector) (disk : Nat → Sector) : State slots spb Sector τ where
  inner := ⟨fun _ => ⟨none, false, false, false, blank⟩, 0⟩
  disk := disk
  tasks := fun _ => .idle
  logical := readSectors disk

end State

/-- One event. -/
def step (state : State slots spb Sector τ) :
    Event τ (Fin spb → Sector) → Except Stuck (State slots spb Sector τ)
  | .call task request => state.call task request
  | .advance task => state.advance task
  | .complete task succeeds => state.complete task succeeds

section Fields

omit [NeZero slots] in
@[simp] theorem entries_modify_same {Block : Type} (inner : BlockCacheInner slots Block)
    (slot : Fin slots) (change : CacheEntry Block → CacheEntry Block) :
    (inner.modify slot change).entries slot = change (inner.entries slot) :=
  Function.update_self ..

omit [NeZero slots] in
theorem entries_modify_other {Block : Type} {inner : BlockCacheInner slots Block}
    {slot other : Fin slots} (ne : other ≠ slot) (change : CacheEntry Block → CacheEntry Block) :
    (inner.modify slot change).entries other = inner.entries other :=
  Function.update_of_ne ne ..

variable (state : State slots spb Sector τ) (task : τ) (slot : Fin slots)

omit [NeZero slots] in
@[simp] theorem enter_same (phase : Phase slots (Fin spb → Sector)) :
    (state.enter task phase).tasks task = phase :=
  Function.update_self ..

omit [NeZero slots] in
theorem enter_other {state : State slots spb Sector τ} {task other : τ} (ne : other ≠ task)
    (phase : Phase slots (Fin spb → Sector)) :
    (state.enter task phase).tasks other = state.tasks other :=
  Function.update_of_ne ne ..

omit [NeZero slots] in
@[simp] theorem enter_inner (phase : Phase slots (Fin spb → Sector)) :
    (state.enter task phase).inner = state.inner := rfl

omit [NeZero slots] [DecidableEq τ] in
@[simp] theorem store_inner (blockId : Nat) (src : Fin spb → Sector) :
    (state.store blockId src).inner = state.inner := rfl

omit [NeZero slots] [DecidableEq τ] in
@[simp] theorem modify_inner
    (change : CacheEntry (Fin spb → Sector) → CacheEntry (Fin spb → Sector)) :
    (state.modify slot change).inner = state.inner.modify slot change := rfl

omit [NeZero slots] [DecidableEq τ] in
@[simp] theorem modify_same
    (change : CacheEntry (Fin spb → Sector) → CacheEntry (Fin spb → Sector)) :
    (state.modify slot change).inner.entries slot = change (state.inner.entries slot) :=
  entries_modify_same ..

omit [NeZero slots] [DecidableEq τ] in
theorem modify_other {state : State slots spb Sector τ} {slot other : Fin slots}
    (ne : other ≠ slot)
    (change : CacheEntry (Fin spb → Sector) → CacheEntry (Fin spb → Sector)) :
    (state.modify slot change).inner.entries other = state.inner.entries other :=
  entries_modify_other ne change

end Fields

section Selection

variable {Block : Type} {inner after : BlockCacheInner slots Block}

/-- Two caches that differ at most in their referenced bits and the hand of the clock. -/
def Refreshed (inner after : BlockCacheInner slots Block) : Prop :=
  ∀ slot, ∃ referenced, after.entries slot = { inner.entries slot with referenced }

omit [NeZero slots] in
theorem Refreshed.refl (inner : BlockCacheInner slots Block) : Refreshed inner inner :=
  fun _ => ⟨_, rfl⟩

omit [NeZero slots] in
theorem Refreshed.trans {last : BlockCacheInner slots Block} (first : Refreshed inner after)
    (second : Refreshed after last) : Refreshed inner last := by
  intro slot
  obtain ⟨referenced, first_eq⟩ := first slot
  obtain ⟨later, second_eq⟩ := second slot
  exact ⟨later, by rw [second_eq, first_eq]⟩

/-- Clear the referenced bit under the hand of the clock and turn it. -/
theorem refreshed_turned (inner : BlockCacheInner slots Block) :
    Refreshed inner (BlockCacheInner.modify { inner with clockHand := inner.clockHand + 1 }
      inner.clockHand ({ · with referenced := false })) := by
  intro slot
  by_cases same : slot = inner.clockHand
  · subst same
    exact ⟨false, by simp [BlockCacheInner.modify]⟩
  · exact ⟨_, by simp [BlockCacheInner.modify, same]; rfl⟩

/-- The second-chance loop changes only referenced bits, chooses a slot that is not in flight and
gives up only if some slot is. -/
theorem secondChance_spec {fuel checked : Nat} {result : Except Unit (Fin slots)}
    (select_eq : inner.secondChance fuel checked = some (result, after)) :
    Refreshed inner after ∧ (∀ slot, result = .ok slot → (inner.entries slot).inFlight = false) ∧
      (result = .error () → ∃ slot, (inner.entries slot).inFlight = true) := by
  induction fuel generalizing checked inner with
  | zero => cases select_eq
  | succ fuel ih =>
      rw [BlockCacheInner.secondChance] at select_eq
      split_ifs at select_eq with flying done referenced
      · cases select_eq
        exact ⟨.refl _, nofun, fun _ => ⟨_, flying⟩⟩
      · have rest := ih select_eq
        exact rest
      · obtain ⟨refreshed, free, gave_up⟩ := ih select_eq
        have turned := refreshed_turned inner
        have flight_eq (slot : Fin slots) := congrArg CacheEntry.inFlight (turned slot).choose_spec
        refine ⟨turned.trans refreshed, fun slot ok => ?_, fun error => ?_⟩
        · exact (flight_eq slot).symm.trans (free slot ok)
        · obtain ⟨slot, slot_flying⟩ := gave_up error
          exact ⟨slot, (flight_eq slot).symm.trans slot_flying⟩
      · cases select_eq
        refine ⟨.refl _, fun slot ok => ?_, nofun⟩
        cases ok
        simpa using flying

/-- The referenced slots. -/
def referencedSlots (inner : BlockCacheInner slots Block) : Finset (Fin slots) :=
  Finset.univ.filter fun slot => (inner.entries slot).referenced = true

omit [NeZero slots] in
theorem mem_referencedSlots {slot : Fin slots} :
    slot ∈ referencedSlots inner ↔ (inner.entries slot).referenced = true := by
  rw [referencedSlots, Finset.mem_filter]
  exact and_iff_right (Finset.mem_univ slot)

/-- Each round of the second-chance loop passes over a slot in flight, clears a referenced bit or is
the last. -/
theorem secondChance_ne_none {fuel checked : Nat} (unchecked : checked < slots)
    (enough : (referencedSlots inner).card + (slots - checked) < fuel) :
    inner.secondChance fuel checked ≠ none := by
  induction fuel generalizing checked inner with
  | zero => omega
  | succ fuel ih =>
      rw [BlockCacheInner.secondChance]
      split_ifs with flying done referenced
      · nofun
      · exact @ih { inner with clockHand := inner.clockHand + 1 } _ (by omega)
          (by change (referencedSlots inner).card + _ < _; omega)
      · refine ih unchecked ?_
        have erased : referencedSlots (BlockCacheInner.modify
            { inner with clockHand := inner.clockHand + 1 } inner.clockHand
            ({ · with referenced := false })) = (referencedSlots inner).erase inner.clockHand := by
          ext slot
          rw [Finset.mem_erase, mem_referencedSlots, mem_referencedSlots]
          by_cases same : slot = inner.clockHand
          · simp [BlockCacheInner.modify, same]
          · simp [BlockCacheInner.modify, same]
        have fewer := Finset.card_erase_lt_of_mem (mem_referencedSlots.mpr referenced)
        rw [erased]
        omega
      · nofun

/-- A choice of a slot ends. -/
theorem selectSlot_ne_none (inner : BlockCacheInner slots Block) : inner.selectSlot ≠ none := by
  rw [BlockCacheInner.selectSlot]
  split
  · nofun
  · refine secondChance_ne_none (Nat.pos_of_neZero slots) ?_
    have le : (referencedSlots inner).card ≤ slots := (Finset.card_le_univ _).trans (by simp)
    omega

/-- A choice of a slot changes only referenced bits, takes a slot that is not in flight and fails
only if some slot is. -/
theorem selectSlot_spec {result : Except Unit (Fin slots)}
    (select_eq : inner.selectSlot = some (result, after)) :
    Refreshed inner after ∧ (∀ slot, result = .ok slot → (inner.entries slot).inFlight = false) ∧
      (result = .error () → ∃ slot, (inner.entries slot).inFlight = true) := by
  rw [BlockCacheInner.selectSlot] at select_eq
  split at select_eq
  next slot vacant =>
    cases select_eq
    refine ⟨.refl _, fun chosen ok => ?_, nofun⟩
    cases ok
    have found := List.find?_some vacant
    simp only [Bool.and_eq_true, Bool.not_eq_true'] at found
    exact found.2
  next => exact secondChance_spec select_eq

end Selection

section Steps

variable {state after : State slots spb Sector τ} {task : τ}

omit [NeZero slots] in
/-- A lookup fails only if no slot holds the block. -/
theorem findBlock_none {Block : Type} {inner : BlockCacheInner slots Block} {blockId : Nat}
    (missing : inner.findBlock blockId = none) (slot : Fin slots) :
    (inner.entries slot).blockId ≠ some blockId := by
  have differs := List.find?_eq_none.mp missing slot (List.mem_finRange slot)
  simpa using differs

omit [NeZero slots] in
theorem findBlock_some {Block : Type} {inner : BlockCacheInner slots Block} {blockId : Nat}
    {slot : Fin slots} (found : inner.findBlock blockId = some slot) :
    (inner.entries slot).blockId = some blockId := by
  simpa using List.find?_some found

/-- Everything that an event can do. -/
inductive Moves (state : State slots spb Sector τ) (task : τ) :
    Event τ (Fin spb → Sector) → State slots spb Sector τ → Prop
  | called (request) (free : state.tasks task = .idle ∨ ∃ result,
        state.tasks task = .returned result) :
      Moves state task (.call task (.request request)) (state.enter task (.lookup request))
  | flushCalled (free : state.tasks task = .idle ∨ ∃ result,
        state.tasks task = .returned result) :
      Moves state task (.call task .flush) (state.enter task .snapshot)
  | missed (request) (phase : state.tasks task = .lookup request)
      (absent : ∀ slot, (state.inner.entries slot).blockId ≠ some request.blockId) :
      Moves state task (.advance task) (state.enter task (.miss request))
  | waited (request) (phase : state.tasks task = .lookup request) (slot)
      (flying : (state.inner.entries slot).inFlight = true) :
      Moves state task (.advance task) (state.enter task (.lookup request))
  | found (request) (phase : state.tasks task = .lookup request) (slot)
      (tagged : (state.inner.entries slot).blockId = some request.blockId)
      (ready : (state.inner.entries slot).inFlight = false) :
      Moves state task (.advance task) (state.enter task (.hit request slot))
  | copied (request) (slot) (phase : state.tasks task = .hit request slot) :
      Moves state task (.advance task) (state.copyHit task slot request)
  | exhausted (request) (phase : state.tasks task = .miss request) (inner)
      (refreshed : Refreshed state.inner inner)
      (flying : ∃ slot, (state.inner.entries slot).inFlight = true) :
      Moves state task (.advance task)
        ({ state with inner }.enter task (.returned (.error ())))
  | reserved (request) (phase : state.tasks task = .miss request) (inner)
      (refreshed : Refreshed state.inner inner) (slot)
      (free : (state.inner.entries slot).inFlight = false) :
      Moves state task (.advance task)
        (({ state with inner }.modify slot ({ · with inFlight := true })).enter task
          (.victim request slot))
  | dirtyVictim (request) (slot) (phase : state.tasks task = .victim request slot) (oldBlock)
      (dirty : (state.inner.entries slot).dirty = true)
      (tagged : (state.inner.entries slot).blockId = some oldBlock) :
      Moves state task (.advance task) (state.enter task
        (.writeBack request slot oldBlock (state.inner.entries slot).data))
  | cleanVictim (request) (slot) (phase : state.tasks task = .victim request slot)
      (clean : (state.inner.entries slot).dirty = false ∨
        (state.inner.entries slot).blockId = none) :
      Moves state task (.advance task) (state.enter task (.retag request slot))
  | cleared (request) (slot) (phase : state.tasks task = .written request slot) :
      Moves state task (.advance task)
        ((state.modify slot ({ · with dirty := false })).enter task (.retag request slot))
  | tagged (request) (slot) (phase : state.tasks task = .retag request slot) :
      Moves state task (.advance task) (state.tag task slot request)
  | delivered (blockId) (slot) (phase : state.tasks task = .fetched blockId slot) :
      Moves state task (.advance task)
        ((state.modify slot ({ · with referenced := true, inFlight := false })).enter task
          (.returned (.ok (some (state.inner.entries slot).data))))
  | collected (phase : state.tasks task = .snapshot) :
      Moves state task (.advance task) (state.enter task (.flushing state.inner.dirtyEntries))
  | cleaned (phase : state.tasks task = .flushing []) :
      Moves state task (.advance task)
        ({ state with inner := state.inner.clearDirty }.enter task (.returned (.ok none)))
  | wroteBack (request) (slot) (oldBlock) (oldData)
      (phase : state.tasks task = .writeBack request slot oldBlock oldData) :
      Moves state task (.complete task true)
        ({ state with disk := writeSectors state.disk oldBlock oldData }.enter task
          (.written request slot))
  | fetched (blockId) (slot) (phase : state.tasks task = .fetching blockId slot) :
      Moves state task (.complete task true)
        ((state.modify slot ({ · with data := readSectors state.disk blockId })).enter task
          (.fetched blockId slot))
  | flushed (blockId) (data) (rest)
      (phase : state.tasks task = .flushing ((blockId, data) :: rest)) :
      Moves state task (.complete task true)
        ({ state with disk := writeSectors state.disk blockId data }.enter task (.flushing rest))
  | failed (waiting : (∃ request slot oldBlock oldData,
          state.tasks task = .writeBack request slot oldBlock oldData) ∨
        (∃ blockId slot, state.tasks task = .fetching blockId slot) ∨
        ∃ first rest, state.tasks task = .flushing (first :: rest)) :
      Moves state task (.complete task false) (state.enter task (.returned (.error ())))

theorem moves_of_advance (step_eq : state.advance task = .ok after) :
    Moves state task (.advance task) after := by
  rw [State.advance] at step_eq
  split at step_eq
  next request phase =>
    cases step_eq
    rw [State.lookup]
    split
    next missing => exact .missed request phase (findBlock_none missing)
    next slot found =>
      split_ifs with flying
      · exact .waited request phase slot flying
      · exact .found request phase slot (findBlock_some found) (by simpa using flying)
  next request slot phase =>
    cases step_eq
    exact .copied request slot phase
  next request phase =>
    rw [State.reserve] at step_eq
    split at step_eq
    next => cases step_eq
    next problem inner select_eq =>
      cases step_eq
      obtain ⟨refreshed, -, flying⟩ := selectSlot_spec select_eq
      exact .exhausted request phase inner refreshed (flying rfl)
    next slot inner select_eq =>
      cases step_eq
      obtain ⟨refreshed, free, -⟩ := selectSlot_spec select_eq
      exact .reserved request phase inner refreshed slot (free slot rfl)
  next request slot phase =>
    cases step_eq
    rw [State.inspectVictim]
    split
    next oldBlock dirty tagged => exact .dirtyVictim request slot phase oldBlock dirty tagged
    next clean =>
      refine .cleanVictim request slot phase ?_
      rcases dirty : (state.inner.entries slot).dirty with _ | _
      · exact .inl rfl
      · refine .inr (Option.eq_none_iff_forall_ne_some.mpr fun oldBlock tagged => ?_)
        exact clean oldBlock dirty tagged
  next request slot phase =>
    cases step_eq
    exact .cleared request slot phase
  next request slot phase =>
    cases step_eq
    exact .tagged request slot phase
  next blockId slot phase =>
    cases step_eq
    exact .delivered blockId slot phase
  next phase =>
    cases step_eq
    exact .collected phase
  next phase =>
    cases step_eq
    exact .cleaned phase
  all_goals cases step_eq

omit [NeZero slots] in
theorem moves_of_complete {succeeds : Bool} (step_eq : state.complete task succeeds = .ok after) :
    Moves state task (.complete task succeeds) after := by
  unfold State.complete at step_eq
  split at step_eq
  next request slot oldBlock oldData phase =>
    cases step_eq
    exact .wroteBack request slot oldBlock oldData phase
  next blockId slot phase =>
    cases step_eq
    exact .fetched blockId slot phase
  next blockId data rest phase =>
    cases step_eq
    exact .flushed blockId data rest phase
  next phase =>
    cases step_eq
    exact .failed (.inl ⟨_, _, _, _, phase⟩)
  next phase =>
    cases step_eq
    exact .failed (.inr (.inl ⟨_, _, phase⟩))
  next phase =>
    cases step_eq
    exact .failed (.inr (.inr ⟨_, _, phase⟩))
  next => cases step_eq

omit [NeZero slots] in
theorem moves_of_call {request : Call (Fin spb → Sector)}
    (step_eq : state.call task request = .ok after) :
    Moves state task (.call task request) after := by
  unfold State.call at step_eq
  split at step_eq
  next phase =>
    cases step_eq
    exact .called _ (.inl phase)
  next phase =>
    cases step_eq
    exact .called _ (.inr ⟨_, phase⟩)
  next phase =>
    cases step_eq
    exact .flushCalled (.inl phase)
  next phase =>
    cases step_eq
    exact .flushCalled (.inr ⟨_, phase⟩)
  next => cases step_eq

/-- An event does one of the moves. -/
theorem moves_of_step {event : Event τ (Fin spb → Sector)}
    (step_eq : step state event = .ok after) :
    Moves state event.task event after := by
  cases event with
  | call task request => exact moves_of_call step_eq
  | advance task => exact moves_of_advance step_eq
  | complete task succeeds => exact moves_of_complete step_eq

end Steps

end BlockCache
end Vespertine
