import Vespertine.Kernel
import Vespertine.Library.FreeStack
import Vespertine.Library.Ring
import Vespertine.Library.Transition

/-!
# The virtqueue of the block driver

`transfer_sectors` builds a chain of three descriptors under the queue's lock and makes it available
to the device; the future it returns frees the chain when it sees that the device has written the
status byte.  The device works on its own: it consumes available entries, writes status bytes in any
order and publishes used elements.  `virtio_blk_poll_thread` reads these and wakes the futures.
-/

namespace Vespertine.Virtio

/-- `VqDescriptor`. -/
structure VqDescriptor where
  addr : Nat
  len : Nat
  flags : Nat
  next : Nat
deriving DecidableEq, Repr

/-- `VirtioBlkReqHeader`. -/
structure VirtioBlkReqHeader where
  reqType : Nat
  reserved : Nat
  sector : Nat
deriving DecidableEq, Repr

/-- `VIRTIO_BLK_T_IN`. -/
def VIRTIO_BLK_T_IN : Nat := 0

/-- `VIRTIO_BLK_T_OUT`. -/
def VIRTIO_BLK_T_OUT : Nat := 1

/-- The end of a list of descriptors. -/
def NO_DESC : Nat := 0xFFFF

/-- A ring entry names the first descriptor of a chain.  Which request the chain belongs to is not
stored there; no step depends on it. -/
structure Entry (τ : Type) where
  id : Nat
  request : Option τ
deriving DecidableEq

/-- `Virtqueue`, with the rings it points to. -/
structure Virtqueue (size : Nat) (τ ω : Type) where
  desc : Nat → VqDescriptor
  availIdx : Nat
  availRing : Fin size → Entry τ
  usedIdx : Nat
  usedRing : Fin size → Entry τ
  freeHead : Nat
  lastSeenUsed : Nat
  wakers : Nat → Option ω

/-- `BlockTransferFuture`. -/
structure BlockTransferFuture where
  d0 : Nat
  d1 : Nat
  d2 : Nat
  pagePhys : Nat
  lastSeenUsed : Nat
deriving DecidableEq, Repr

/-- The descriptors of a chain. -/
def BlockTransferFuture.descs (future : BlockTransferFuture) : List Nat :=
  [future.d0, future.d1, future.d2]

/-- The arguments of `transfer_sectors`. -/
structure Request where
  sector : Nat
  sectorsCount : Nat
  bufPhys : Nat
  isWrite : Bool
deriving DecidableEq, Repr

/-- `idx.wrapping_add(1)` of a 16-bit index. -/
def wrappingNext (idx : Nat) : Nat := (idx + 1) % 0x10000

section Queue

variable {size : Nat} [NeZero size] {τ ω : Type}

/-- `vq_setup`. -/
def vqSetup : Virtqueue size τ ω where
  desc := Function.update
    (writeAll (fun _ => ⟨0, 0, 0, 0⟩) id (fun i => ⟨0, 0, 1, i + 1⟩) (List.range' 0 (size - 1)))
    (size - 1) ⟨0, 0, 0, NO_DESC⟩
  availIdx := 0
  availRing _ := ⟨0, none⟩
  usedIdx := 0
  usedRing _ := ⟨0, none⟩
  freeHead := 0
  lastSeenUsed := 0
  wakers _ := none

namespace Virtqueue

/-- `Virtqueue::alloc_desc`. -/
def allocDesc (vq : Virtqueue size τ ω) : Option (Nat × Virtqueue size τ ω) :=
  if vq.freeHead = NO_DESC then none
  else some (vq.freeHead, { vq with freeHead := (vq.desc vq.freeHead).next })

/-- `Virtqueue::free_desc`. -/
def freeDesc (vq : Virtqueue size τ ω) (idx : Nat) : Virtqueue size τ ω :=
  { vq with
    desc := Function.update vq.desc idx { vq.desc idx with next := vq.freeHead }
    freeHead := idx }

/-- The three calls of `alloc_desc` in `transfer_sectors`; what was taken before a call failed is
not put back. -/
def allocChain (vq : Virtqueue size τ ω) : Option (Nat × Nat × Nat) × Virtqueue size τ ω :=
  match vq.allocDesc with
  | none => (none, vq)
  | some (d0, vq) =>
      match vq.allocDesc with
      | none => (none, vq)
      | some (d1, vq) =>
          match vq.allocDesc with
          | none => (none, vq)
          | some (d2, vq) => (some (d0, d1, d2), vq)

/-- Write the descriptors of the header, the data buffer and the status byte. -/
def writeChain (vq : Virtqueue size τ ω) (request : Request) (pagePhys d0 d1 d2 : Nat) :
    Virtqueue size τ ω :=
  let desc := Function.update vq.desc d0 ⟨pagePhys, 16, 1, d1⟩
  let desc := Function.update desc d1
    ⟨request.bufPhys, request.sectorsCount * 512 % 2 ^ 32, if request.isWrite then 1 else 3, d2⟩
  { vq with desc := Function.update desc d2 ⟨pagePhys + 512, 1, 2, NO_DESC⟩ }

end Virtqueue

/-- The descriptors a device visits from a ring entry on: it goes on while the next flag is set. -/
def walk (desc : Nat → VqDescriptor) : Nat → Nat → List Nat
  | 0, _ => []
  | fuel + 1, idx =>
      idx :: if (desc idx).flags % 2 = 1 then walk desc fuel (desc idx).next else []

end Queue

/-- Where a call of `transfer_sectors`, and then its future, is. -/
inductive Phase (ω : Type)
  | idle
  /-- The page holds the header and a status byte of `0xFF`. -/
  | prepared (request : Request) (pagePhys : Nat)
  /-- The lock is held, and the chain is written. -/
  | reserved (future : BlockTransferFuture)
  /-- The lock is held, and the ring slot is written. -/
  | posted (future : BlockTransferFuture)
  /-- The future is not being polled. -/
  | waiting (future : BlockTransferFuture)
  /-- `poll` has read the status byte. -/
  | checked (future : BlockTransferFuture) (status : Nat) (waker : ω)
  /-- `poll` has freed the chain, but not yet the page. -/
  | freed (future : BlockTransferFuture) (status : Nat)
  | ready (ok : Bool)
  | failed

/-- The chain a request owns. -/
def Phase.chain? {ω : Type} : Phase ω → Option BlockTransferFuture
  | .reserved future => some future
  | .posted future => some future
  | .waiting future => some future
  | .checked future _ _ => some future
  | _ => none

/-- The page a request owns. -/
def Phase.page? {ω : Type} : Phase ω → Option Nat
  | .prepared _ pagePhys => some pagePhys
  | .reserved future => some future.pagePhys
  | .posted future => some future.pagePhys
  | .waiting future => some future.pagePhys
  | .checked future _ _ => some future.pagePhys
  | .freed future _ => some future.pagePhys
  | _ => none

/-- The status bytes a device writes. -/
inductive DeviceStatus
  | ok
  | ioErr
  | unsupp
deriving DecidableEq, Repr

/-- `VIRTIO_BLK_S_OK`, `VIRTIO_BLK_S_IOERR`, `VIRTIO_BLK_S_UNSUPP`. -/
def DeviceStatus.code : DeviceStatus → Nat
  | .ok => 0
  | .ioErr => 1
  | .unsupp => 2

/-- The device's own index into the available ring, the chains it works on, and those whose status
it has written. -/
structure Device (τ : Type) where
  nextAvail : Nat
  working : List (Entry τ)
  finished : List (Entry τ)

/-- Where `virtio_blk_poll_thread` is. -/
inductive PollThread (τ ω : Type)
  | boot
  /-- About to read `used.idx`. -/
  | outer (lastSeen : Nat)
  /-- At the head of the inner loop. -/
  | inner (lastSeen currentUsed : Nat)
  /-- It has read `desc_id`. -/
  | read (lastSeen currentUsed : Nat) (entry : Entry τ)
  /-- It has taken what was in the waker slot. -/
  | taken (lastSeen currentUsed : Nat) (entry : Entry τ) (waker : Option ω)

/-- The used element the poll thread is at. -/
def PollThread.entry? {τ ω : Type} : PollThread τ ω → Option (Entry τ)
  | .read _ _ entry => some entry
  | .taken _ _ entry _ => some entry
  | _ => none

structure System (size : Nat) (τ ω : Type) where
  vq : Virtqueue size τ ω
  /-- The call of `transfer_sectors` that holds the lock of the queue between two steps. -/
  holder : Option τ
  tasks : τ → Phase ω
  headers : Nat → VirtioBlkReqHeader
  bytes : Nat → Nat
  device : Device τ
  thread : PollThread τ ω

inductive Event (τ ω : Type)
  /-- `transfer_sectors` gets a page and writes the header and the status byte. -/
  | transfer (task : τ) (request : Request) (page : Nat)
  /-- It locks the queue, takes three descriptors and writes them. -/
  | reserve (task : τ)
  /-- It writes the slot of the available ring. -/
  | post (task : τ)
  /-- It writes `available.idx`, rings the doorbell and unlocks the queue. -/
  | publish (task : τ)
  /-- `poll` reads the status byte. -/
  | check (task : τ) (waker : ω)
  /-- `poll` frees the chain or registers its waker. -/
  | settle (task : τ)
  /-- `poll` frees the page. -/
  | release (task : τ)
  /-- The device reads the next available entry. -/
  | consume
  /-- The device writes the status byte of a chain. -/
  | complete (entry : Entry τ) (status : DeviceStatus)
  /-- The device publishes the used element of a chain. -/
  | giveBack (entry : Entry τ)
  /-- The poll thread goes on. -/
  | thread

inductive Fault
  | disabled
  | indexOutOfBounds
deriving DecidableEq, Repr

section Steps

variable {size : Nat} [NeZero size] {τ ω : Type} [DecidableEq τ]

namespace System

/-- Move a request to another phase. -/
def setTask (sys : System size τ ω) (task : τ) (phase : Phase ω) : System size τ ω :=
  { sys with tasks := Function.update sys.tasks task phase }

/-- Zero a page. -/
def zeroPage (bytes : Nat → Nat) (page : Nat) : Nat → Nat := fun addr =>
  if page ≤ addr ∧ addr < page + NORMAL_PAGE_SIZE then 0 else bytes addr

/-- `transfer_sectors` until it takes the lock. -/
def transfer (sys : System size τ ω) (task : τ) (request : Request) (page : Nat) :
    System size τ ω :=
  if page = 0 then
    sys.setTask task .failed
  else
    let reqType := if request.isWrite then VIRTIO_BLK_T_OUT else VIRTIO_BLK_T_IN
    { sys with
      headers := Function.update sys.headers page ⟨reqType, 0, request.sector⟩
      bytes := Function.update (zeroPage sys.bytes page) (page + 512) 0xFF }.setTask task
        (.prepared request page)

/-- `transfer_sectors` takes the lock and builds the chain. -/
def reserve (sys : System size τ ω) (task : τ) (request : Request) (page : Nat) :
    System size τ ω :=
  match sys.vq.allocChain with
  | (none, vq) => { sys with vq := vq }.setTask task .failed
  | (some (d0, d1, d2), vq) =>
      { sys with
        vq := vq.writeChain request page d0 d1 d2
        holder := some task }.setTask task (.reserved ⟨d0, d1, d2, page, 0⟩)

/-- `transfer_sectors` writes the slot of the available ring. -/
def post (sys : System size τ ω) (task : τ) (future : BlockTransferFuture) : System size τ ω :=
  let slot := Fin.ofNat size sys.vq.availIdx
  let ring := Function.update sys.vq.availRing slot ⟨future.d0, some task⟩
  { sys with vq := { sys.vq with availRing := ring } }.setTask task (.posted future)

/-- `transfer_sectors` makes the entry available and returns the future. -/
def publish (sys : System size τ ω) (task : τ) (future : BlockTransferFuture) :
    System size τ ω :=
  { sys with
    vq := { sys.vq with availIdx := wrappingNext sys.vq.availIdx }
    holder := none }.setTask task
      (.waiting { future with lastSeenUsed := sys.vq.lastSeenUsed })

/-- `BlockTransferFuture::poll` after the status byte was read. -/
def settle (sys : System size τ ω) (task : τ) (future : BlockTransferFuture) (status : Nat)
    (waker : ω) : Except Fault (System size τ ω) :=
  if status ≠ 0xFF then
    .ok ({ sys with
      vq := ((sys.vq.freeDesc future.d0).freeDesc future.d1).freeDesc future.d2 }.setTask task
        (.freed future status))
  else if future.d0 < size then
    .ok ({ sys with
      vq := { sys.vq with
        wakers := Function.update sys.vq.wakers future.d0 (some waker) } }.setTask task
          (.waiting future))
  else
    .error .indexOutOfBounds

/-- The device reads the next available entry, if there is one. -/
def consume (sys : System size τ ω) : Except Fault (System size τ ω) :=
  let device := sys.device
  if device.nextAvail = sys.vq.availIdx then
    .error .disabled
  else
    .ok { sys with device := { device with
      nextAvail := wrappingNext device.nextAvail
      working := device.working ++ [sys.vq.availRing (Fin.ofNat size device.nextAvail)] } }

/-- The device writes the status byte, at the last descriptor of the chain. -/
def complete (sys : System size τ ω) (entry : Entry τ) (status : DeviceStatus) :
    Except Fault (System size τ ω) :=
  match (walk sys.vq.desc size entry.id).getLast? with
  | some last =>
      if entry ∈ sys.device.working then
        .ok { sys with
          bytes := Function.update sys.bytes (sys.vq.desc last).addr status.code
          device := { sys.device with
            working := sys.device.working.erase entry
            finished := sys.device.finished ++ [entry] } }
      else
        .error .disabled
  | none => .error .disabled

/-- The device publishes the used element of a chain it is done with. -/
def giveBack (sys : System size τ ω) (entry : Entry τ) : Except Fault (System size τ ω) :=
  if entry ∈ sys.device.finished then
    .ok { sys with
      vq := { sys.vq with
        usedRing := Function.update sys.vq.usedRing (Fin.ofNat size sys.vq.usedIdx) entry
        usedIdx := wrappingNext sys.vq.usedIdx }
      device := { sys.device with finished := sys.device.finished.erase entry } }
  else
    .error .disabled

/-- The poll thread takes what is in the slot of a used element. -/
def takeWaker (sys : System size τ ω) (entry : Entry τ) : Option ω × System size τ ω :=
  if entry.id < size then
    (sys.vq.wakers entry.id,
      { sys with vq := { sys.vq with wakers := Function.update sys.vq.wakers entry.id none } })
  else
    (none, sys)

/-- `virtio_blk_poll_thread`; only reading the used ring and waking need no lock. -/
def threadStep (sys : System size τ ω) : Except Fault (System size τ ω) :=
  match sys.thread with
  | .boot =>
      if sys.holder = none then .ok { sys with thread := .outer sys.vq.lastSeenUsed }
      else .error .disabled
  | .outer lastSeen =>
      if sys.holder = none then
        let currentUsed := sys.vq.usedIdx
        let thread := if currentUsed ≠ lastSeen then .inner lastSeen currentUsed
          else .outer lastSeen
        .ok { sys with thread := thread }
      else
        .error .disabled
  | .inner lastSeen currentUsed =>
      if lastSeen ≠ currentUsed then
        let entry := sys.vq.usedRing (Fin.ofNat size lastSeen)
        .ok { sys with thread := .read lastSeen currentUsed entry }
      else if sys.holder = none then
        .ok { sys with
          vq := { sys.vq with lastSeenUsed := lastSeen }
          thread := .outer lastSeen }
      else
        .error .disabled
  | .read lastSeen currentUsed entry =>
      if sys.holder = none then
        let (waker, sys) := sys.takeWaker entry
        .ok { sys with thread := .taken lastSeen currentUsed entry waker }
      else
        .error .disabled
  | .taken lastSeen currentUsed _ _ =>
      .ok { sys with thread := .inner (wrappingNext lastSeen) currentUsed }

end System

/-- One step of the driver, the device or the poll thread. -/
def step (sys : System size τ ω) : Event τ ω → Except Fault (System size τ ω)
  | .transfer task request page =>
      match sys.tasks task with
      | .idle => .ok (sys.transfer task request page)
      | _ => .error .disabled
  | .reserve task =>
      match sys.tasks task, sys.holder with
      | .prepared request page, none => .ok (sys.reserve task request page)
      | _, _ => .error .disabled
  | .post task =>
      match sys.tasks task with
      | .reserved future => .ok (sys.post task future)
      | _ => .error .disabled
  | .publish task =>
      match sys.tasks task with
      | .posted future => .ok (sys.publish task future)
      | _ => .error .disabled
  | .check task waker =>
      match sys.tasks task with
      | .waiting future =>
          .ok (sys.setTask task (.checked future (sys.bytes (future.pagePhys + 512)) waker))
      | _ => .error .disabled
  | .settle task =>
      match sys.tasks task, sys.holder with
      | .checked future status waker, none => sys.settle task future status waker
      | _, _ => .error .disabled
  | .release task =>
      match sys.tasks task with
      | .freed _ status => .ok (sys.setTask task (.ready (status = 0)))
      | _ => .error .disabled
  | .consume => sys.consume
  | .complete entry status => sys.complete entry status
  | .giveBack entry => sys.giveBack entry
  | .thread => sys.threadStep

omit [DecidableEq τ] in
/-- The poll thread goes round its loops, reads a used element, takes its waker slot, or wakes what
it has taken. -/
theorem threadStep_cases {sys next : System size τ ω} (thread_eq : sys.threadStep = .ok next) :
    (∃ thread lastSeen, sys.thread.entry? = none ∧ thread.entry? = none ∧
      next = { sys with vq := { sys.vq with lastSeenUsed := lastSeen }, thread := thread }) ∨
    (∃ lastSeen currentUsed, sys.thread = .inner lastSeen currentUsed ∧
      next = { sys with
        thread := .read lastSeen currentUsed (sys.vq.usedRing (Fin.ofNat size lastSeen)) }) ∨
    (∃ lastSeen currentUsed entry, sys.thread = .read lastSeen currentUsed entry ∧
      next = { (sys.takeWaker entry).2 with
        thread := .taken lastSeen currentUsed entry (sys.takeWaker entry).1 }) ∨
    ∃ lastSeen currentUsed entry waker, sys.thread = .taken lastSeen currentUsed entry waker ∧
      next = { sys with thread := .inner (wrappingNext lastSeen) currentUsed } := by
  rw [System.threadStep] at thread_eq
  cases phase_eq : sys.thread with
  | boot =>
      simp only [phase_eq] at thread_eq
      obtain ⟨-, done⟩ := guard_eq_ok.mp thread_eq
      cases done
      exact .inl ⟨_, sys.vq.lastSeenUsed, rfl, rfl, rfl⟩
  | outer lastSeen =>
      simp only [phase_eq] at thread_eq
      obtain ⟨-, done⟩ := guard_eq_ok.mp thread_eq
      cases done
      refine .inl ⟨_, sys.vq.lastSeenUsed, rfl, ?_, rfl⟩
      split <;> rfl
  | inner lastSeen currentUsed =>
      simp only [phase_eq] at thread_eq
      split at thread_eq
      next =>
        cases thread_eq
        exact .inr (.inl ⟨lastSeen, currentUsed, rfl, rfl⟩)
      next =>
        obtain ⟨-, done⟩ := guard_eq_ok.mp thread_eq
        cases done
        exact .inl ⟨_, lastSeen, rfl, rfl, rfl⟩
  | read lastSeen currentUsed entry =>
      simp only [phase_eq] at thread_eq
      obtain ⟨-, done⟩ := guard_eq_ok.mp thread_eq
      cases done
      exact .inr (.inr (.inl ⟨lastSeen, currentUsed, entry, rfl, rfl⟩))
  | taken lastSeen currentUsed entry waker =>
      simp only [phase_eq] at thread_eq
      cases thread_eq
      exact .inr (.inr (.inr ⟨lastSeen, currentUsed, entry, waker, rfl, rfl⟩))

/-- Before the first call. -/
structure Boot (sys : System size τ ω) : Prop where
  vq_eq : sys.vq = vqSetup
  holder_eq : sys.holder = none
  tasks_eq : ∀ task, sys.tasks task = .idle
  device_eq : sys.device = ⟨0, [], []⟩
  thread_eq : sys.thread = .boot

/-- The allocator returns no page, or an aligned one that no request owns. -/
def FreshPage (sys : System size τ ω) : Event τ ω → Prop
  | .transfer _ _ page => page ≠ 0 →
      NORMAL_PAGE_SIZE ∣ page ∧ ∀ task, (sys.tasks task).page? ≠ some page
  | _ => True

/-- The driver, the device and the poll thread. -/
def machine : Machine (System size τ ω) (Event τ ω) Fault where
  step := step
  permitted := FreshPage

end Steps

end Vespertine.Virtio
