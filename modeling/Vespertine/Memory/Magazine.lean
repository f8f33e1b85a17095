import Vespertine.Library.Ownership
import Vespertine.Memory.BuddyRun

/-!
# Per-core magazines

Each core keeps a stack of up to 256 frames in front of the page allocator.  An allocation that
finds the stack empty takes the lock of the page allocator and fetches half a magazine; a free that
finds it full gives half a magazine back.  Interrupts are disabled meanwhile, so a core does nothing
else before it is done; the other cores go on.

The page allocator is any one that hands out each of its frames to one caller at a time.
-/

namespace Vespertine

/-- An allocator of single frames that owns each frame it has not handed out. -/
structure PagePool (π : Type) (frames : Set Nat) where
  free : π → Set Nat
  alloc : π → Option Nat × π
  release : π → Nat → π
  alloc_some : ∀ pool rest frame, alloc pool = (some frame, rest) →
    frame ∈ free pool ∧ free rest = free pool \ {frame}
  free_release : ∀ pool, ∀ frame ∈ frames, frame ∉ free pool →
    free (release pool frame) = insert frame (free pool)

namespace Magazines

def MAG_CAPACITY : Nat := 256

structure Magazine where
  pages : Nat → Nat
  count : Nat

namespace Magazine

def init : Magazine := ⟨fun _ => 0, 0⟩

/-- The frames in `pages[0..count]`. -/
def contents (magazine : Magazine) : List Nat := (List.range magazine.count).map magazine.pages

/-- `self.pages[self.count] = addr; self.count += 1`, with the check of the index. -/
def store (magazine : Magazine) (addr : Nat) : Kernel Magazine :=
  if magazine.count < MAG_CAPACITY then
    .ok ⟨Function.update magazine.pages magazine.count addr, magazine.count + 1⟩
  else
    .error .indexOutOfBounds

/-- `self.count -= 1; self.pages[self.count]`, with the check of the index. -/
def take (magazine : Magazine) : Kernel (Nat × Magazine) :=
  match magazine.count with
  | 0 => .error .indexOutOfBounds
  | count + 1 =>
      if count < MAG_CAPACITY then
        .ok (magazine.pages count, { magazine with count })
      else
        .error .indexOutOfBounds

/-- `self.pages[self.count] = 0`. -/
def erase (magazine : Magazine) : Magazine :=
  { magazine with pages := Function.update magazine.pages magazine.count 0 }

end Magazine

/-- What a core is in the middle of. -/
inductive Phase where
  | idle
  /-- In the loop of `Magazine::alloc`, with so many turns to go. -/
  | refilling (turns : Nat)
  /-- In the loop of `Magazine::free` of an address, with so many turns to go. -/
  | flushing (turns addr : Nat)
  deriving DecidableEq, Repr

/-- Why an event does not happen: it is impossible here, or the kernel panics. -/
inductive Stop where
  | disabled
  | panic (panic : Panic)
  deriving DecidableEq, Repr

/-- The page allocator, the magazines of the cores and how far the calls on them are. -/
structure Cores (π κ : Type) where
  pool : π
  magazine : κ → Magazine
  phase : κ → Phase
  /-- The core that holds the lock of the page allocator. -/
  pmmLock : Option κ

/-- The allocator, and what its callers asked it for and got from it. -/
structure System (π κ : Type) extends Cores π κ where
  /-- The frames that were allocated and whose free has not returned. -/
  live : List Nat
  /-- The address that the free on a core was called with, while it runs. -/
  freeing : κ → Option Nat

/-- Calls of `PCAllocator` on the cores, and the turns of their loops. -/
inductive Event (κ : Type) where
  | alloc (core : κ)
  | free (core : κ) (addr : Nat)
  | advance (core : κ)

variable {π κ : Type} [DecidableEq κ] {frames : Set Nat}

/-- A panic of the code of a core. -/
def orPanic {α : Type} : Kernel α → Except Stop α := Except.mapError .panic

namespace Cores

def setMagazine (cores : Cores π κ) (core : κ) (magazine : Magazine) : Cores π κ :=
  { cores with magazine := Function.update cores.magazine core magazine }

/-- Enter a loop, holding the lock of the page allocator. -/
def enter (cores : Cores π κ) (core : κ) (phase : Phase) : Cores π κ :=
  { cores with phase := Function.update cores.phase core phase, pmmLock := some core }

/-- Leave a loop and drop the lock. -/
def finish (cores : Cores π κ) (core : κ) : Cores π κ :=
  { cores with phase := Function.update cores.phase core .idle, pmmLock := none }

/-- `Magazine::alloc` up to its loop. -/
def alloc (cores : Cores π κ) (core : κ) : Except Stop (Option Nat × Cores π κ) :=
  if (cores.magazine core).count > 0 then do
    let (ret, magazine) ← orPanic (cores.magazine core).take
    return (some ret, cores.setMagazine core magazine.erase)
  else if cores.pmmLock = none then
    return (none, cores.enter core (.refilling (MAG_CAPACITY / 2 - 1)))
  else
    .error .disabled

/-- `Magazine::free` up to its loop. -/
def free (cores : Cores π κ) (core : κ) (addr : Nat) : Except Stop (Option Nat × Cores π κ) :=
  if (cores.magazine core).count < MAG_CAPACITY then do
    let magazine ← orPanic ((cores.magazine core).store addr)
    return (none, cores.setMagazine core magazine)
  else if cores.pmmLock = none then
    return (none, cores.enter core (.flushing (MAG_CAPACITY / 2) addr))
  else
    .error .disabled

/-- One turn of a loop, or what follows it. -/
def advance (ops : PagePool π frames) (cores : Cores π κ) (core : κ) :
    Except Stop (Option Nat × Cores π κ) :=
  match cores.phase core with
  | .idle => .error .disabled
  | .refilling (turns + 1) =>
      match ops.alloc cores.pool with
      | (none, _) => .error (.panic .outOfMemory)
      | (some block, pool) => do
          let magazine ← orPanic ((cores.magazine core).store block)
          return (none, { cores.setMagazine core magazine with pool }.enter core (.refilling turns))
  | .refilling 0 =>
      match ops.alloc cores.pool with
      | (none, _) => .error (.panic .outOfMemory)
      | (some ret, pool) =>
          return (some ret, { cores with pool }.finish core)
  | .flushing (turns + 1) addr => do
      let (page, magazine) ← orPanic (cores.magazine core).take
      return (none, { cores.setMagazine core magazine with
        pool := ops.release cores.pool page }.enter core (.flushing turns addr))
  | .flushing 0 addr => do
      let magazine ← orPanic ((cores.magazine core).store addr)
      return (none, (cores.setMagazine core magazine).finish core)

end Cores

/-- A free of an address is called on a core. -/
def System.calls (sys : System π κ) (core : κ) (addr : Nat) : System π κ :=
  { sys with freeing := Function.update sys.freeing core (some addr) }

/-- What a call on a core has come to: the caller has the frame that `alloc` returned, and no
longer has the one whose free has returned. -/
def System.record (sys : System π κ) (core : κ) :
    Option Nat × Cores π κ → Option Nat × System π κ
  | (some ret, cores) => (some ret, { sys with toCores := cores, live := ret :: sys.live })
  | (none, cores) =>
      match cores.phase core, sys.freeing core with
      | .idle, some addr =>
          (none, ⟨cores, sys.live.erase addr, Function.update sys.freeing core none⟩)
      | _, _ => (none, { sys with toCores := cores })

/-- One event, with the address that a call of `alloc` returns. -/
def step (ops : PagePool π frames) (sys : System π κ) :
    Event κ → Except Stop (Option Nat × System π κ)
  | .alloc core =>
      if sys.phase core = .idle then (sys.toCores.alloc core).map (sys.record core)
      else .error .disabled
  | .free core addr =>
      if sys.phase core = .idle then
        (sys.toCores.free core addr).map ((sys.calls core addr).record core)
      else .error .disabled
  | .advance core => (sys.toCores.advance ops core).map (sys.record core)

/-- Only live frames are freed, and no frame that is being freed already. -/
def FreesLive (sys : System π κ) : Event κ → Prop
  | .free _ addr => addr ∈ sys.live ∧ ∀ core, sys.freeing core ≠ some addr
  | _ => True

def machine (ops : PagePool π frames) : Machine (System π κ) (Event κ) Stop where
  step sys event := (step ops sys event).map Prod.snd
  permitted := FreesLive

/-- Who has a frame. -/
inductive Holder (κ : Type) where
  | caller
  | magazine (core : κ)
  | pool

def System.held (ops : PagePool π frames) (sys : System π κ) : Holder κ → Set Nat
  | .caller => {frame | frame ∈ sys.live}
  | .magazine core => {frame | frame ∈ (sys.magazine core).contents}
  | .pool => ops.free sys.pool

/-- Empty magazines in front of an allocator that has all frames. -/
structure Boot (ops : PagePool π frames) (sys : System π κ) : Prop where
  pool : ops.free sys.pool = frames
  magazine : ∀ core, sys.magazine core = .init
  phase : ∀ core, sys.phase core = .idle
  live : sys.live = []
  freeing : ∀ core, sys.freeing core = none

/-- Every frame is in one place, once, and no magazine overflows. -/
structure Conserved (ops : PagePool π frames) (sys : System π κ) : Prop where
  partition : Partition frames (sys.held ops)
  live_nodup : sys.live.Nodup
  stored_nodup : ∀ core, (sys.magazine core).contents.Nodup
  count_le : ∀ core, (sys.magazine core).count ≤ MAG_CAPACITY

namespace Magazine

variable {magazine next : Magazine} {addr : Nat}

theorem store_ok (store_eq : magazine.store addr = .ok next) :
    magazine.count < MAG_CAPACITY ∧ next.count = magazine.count + 1 ∧
      next.contents = magazine.contents ++ [addr] := by
  obtain ⟨lt, ⟨⟩⟩ := guard_eq_ok.mp store_eq
  refine ⟨lt, rfl, ?_⟩
  rw [contents, List.range_succ, List.map_append, List.map_singleton]
  dsimp only
  rw [Function.update_self]
  congr 1
  refine List.map_congr_left fun index mem => Function.update_of_ne ?_ _ _
  exact Nat.ne_of_lt (List.mem_range.mp mem)

theorem take_ok (take_eq : magazine.take = .ok (addr, next)) :
    magazine.count = next.count + 1 ∧ magazine.contents = next.contents ++ [addr] := by
  rw [take] at take_eq
  split at take_eq
  next => cases take_eq
  next count count_eq =>
    obtain ⟨-, ⟨⟩⟩ := guard_eq_ok.mp take_eq
    refine ⟨count_eq, ?_⟩
    rw [contents, count_eq, List.range_succ, List.map_append, List.map_singleton]
    rfl

@[simp] theorem erase_count (magazine : Magazine) : magazine.erase.count = magazine.count := rfl

@[simp] theorem erase_contents (magazine : Magazine) :
    magazine.erase.contents = magazine.contents := by
  refine List.map_congr_left fun index mem => Function.update_of_ne ?_ _ _
  exact Nat.ne_of_lt (List.mem_range.mp mem)

end Magazine

/-- What holds of a core in the middle of a loop. -/
def PhaseOk (sys : System π κ) (core : κ) : Phase → Prop
  | .idle => sys.freeing core = none
  | .refilling turns =>
      ((sys.magazine core).count + turns + 1 = MAG_CAPACITY / 2 ∧ sys.pmmLock = some core) ∧
        sys.freeing core = none
  | .flushing turns addr =>
      ((sys.magazine core).count = MAG_CAPACITY / 2 + turns ∧ addr ∈ sys.live ∧
        sys.pmmLock = some core) ∧ sys.freeing core = some addr

structure Sound (ops : PagePool π frames) (sys : System π κ) : Prop extends Conserved ops sys where
  phases : ∀ core, PhaseOk sys core (sys.phase core)

section Steps

variable {ops : PagePool π frames} {sys next : System π κ} {core : κ} {addr : Nat}

omit [DecidableEq κ] in
/-- A core that is in a loop has the lock. -/
theorem Sound.idle (sound : Sound ops sys) (free : sys.pmmLock ≠ some core) :
    sys.phase core = .idle := by
  have phase_ok := sound.phases core
  cases phase : sys.phase core with
  | idle => rfl
  | refilling turns => rw [phase] at phase_ok; exact absurd phase_ok.1.2 free
  | flushing turns addr => rw [phase] at phase_ok; exact absurd phase_ok.1.2.2 free

/-- A frame passes from one holder to another. -/
theorem Sound.pass (sound : Sound ops sys) {source target : Holder κ}
    (passes : Passes (sys.held ops) (next.held ops) source target addr)
    (live_nodup : next.live.Nodup) (stored_nodup : (next.magazine core).contents.Nodup)
    (count_le : (next.magazine core).count ≤ MAG_CAPACITY)
    (phase : PhaseOk next core (next.phase core))
    (magazines : ∀ other, other ≠ core → next.magazine other = sys.magazine other)
    (phases : ∀ other, other ≠ core → PhaseOk next other (next.phase other)) : Sound ops next := by
  refine ⟨⟨sound.partition.pass passes, live_nodup, fun other => ?_, fun other => ?_⟩,
    fun other => ?_⟩
  · by_cases same : other = core
    · exact same ▸ stored_nodup
    · rw [magazines other same]
      exact sound.stored_nodup other
  · by_cases same : other = core
    · exact same ▸ count_le
    · rw [magazines other same]
      exact sound.count_le other
  · by_cases same : other = core
    · exact same ▸ phase
    · exact phases other same

/-- A frame of the caller goes to a magazine. -/
theorem Sound.store (sound : Sound ops sys) {magazine : Magazine} (mem : addr ∈ sys.live)
    (store_eq : (sys.magazine core).store addr = .ok magazine) (pool_eq : next.pool = sys.pool)
    (magazine_eq : next.magazine = Function.update sys.magazine core magazine)
    (live_eq : next.live = sys.live.erase addr) (phase : PhaseOk next core (next.phase core))
    (phases : ∀ other, other ≠ core → PhaseOk next other (next.phase other)) : Sound ops next := by
  obtain ⟨lt, count_eq, contents_eq⟩ := Magazine.store_ok store_eq
  have same : next.magazine core = magazine := by rw [magazine_eq, Function.update_self]
  have other_eq (other : κ) (ne : other ≠ core) : next.magazine other = sys.magazine other := by
    rw [magazine_eq, Function.update_of_ne ne]
  have owned : addr ∈ sys.held ops .caller := mem
  have outside : addr ∉ sys.held ops (.magazine core) := sound.partition.not_mem owned nofun
  have passes : Passes (sys.held ops) (next.held ops) .caller (.magazine core) addr := by
    refine sound.partition.passes owned nofun ?_ ?_ fun holder not_source not_target => ?_
    · rw [System.held, live_eq]
      exact setOf_mem_erase sound.live_nodup
    · rw [System.held, same, contents_eq]
      exact setOf_mem_snoc
    · cases holder with
      | caller => exact absurd rfl not_source
      | magazine other =>
          rw [System.held, System.held, other_eq other fun same => not_target (same ▸ rfl)]
      | pool => rw [System.held, System.held, pool_eq]
  refine sound.pass passes ?_ ?_ ?_ phase other_eq phases
  · rw [live_eq]
    exact sound.live_nodup.erase addr
  · rw [same, contents_eq]
    simpa using (sound.stored_nodup core).concat outside
  · rw [same, count_eq]
    exact lt

/-- A frame of a magazine goes to the caller or to the pool. -/
theorem Sound.take (sound : Sound ops sys) {magazine : Magazine} {target : Holder κ}
    (take_eq : (sys.magazine core).take = .ok (addr, magazine))
    (elsewhere : target ≠ .magazine core)
    (same : (next.magazine core).contents = magazine.contents ∧
      (next.magazine core).count = magazine.count)
    (other_eq : ∀ other, other ≠ core → next.magazine other = sys.magazine other)
    (target_eq : next.held ops target = insert addr (sys.held ops target))
    (others : ∀ holder, (∀ core, holder ≠ .magazine core) → holder ≠ target →
      next.held ops holder = sys.held ops holder)
    (live_nodup : next.live.Nodup) (phase : PhaseOk next core (next.phase core))
    (phases : ∀ other, other ≠ core → PhaseOk next other (next.phase other)) : Sound ops next := by
  obtain ⟨count_eq, contents_eq⟩ := Magazine.take_ok take_eq
  have nodup := sound.stored_nodup core
  have count_le := sound.count_le core
  rw [contents_eq] at nodup
  have owned : addr ∈ sys.held ops (.magazine core) := by
    simp [System.held, contents_eq]
  have passes : Passes (sys.held ops) (next.held ops) (.magazine core) target addr := by
    refine sound.partition.passes owned elsewhere.symm ?_ target_eq
      fun holder not_source not_target => ?_
    · rw [System.held, System.held, same.1, contents_eq]
      exact setOf_mem_of_snoc nodup
    · cases holder with
      | magazine other =>
          rw [System.held, System.held, other_eq other fun same => not_source (same ▸ rfl)]
      | caller => exact others _ nofun not_target
      | pool => exact others _ nofun not_target
  refine sound.pass passes live_nodup ?_ ?_ phase other_eq phases
  · rw [same.1]
    exact (List.nodup_append.mp nodup).1
  · rw [same.2]
    omega

/-- A frame of the pool goes to the caller or to a magazine. -/
theorem Sound.fetch (sound : Sound ops sys) {target : Holder κ} {rest : π}
    (alloc_eq : ops.alloc sys.pool = (some addr, rest)) (pool_eq : next.pool = rest)
    (elsewhere : target ≠ .pool)
    (target_eq : next.held ops target = insert addr (sys.held ops target))
    (others : ∀ holder, holder ≠ .pool → holder ≠ target →
      next.held ops holder = sys.held ops holder)
    (other_eq : ∀ other, other ≠ core → next.magazine other = sys.magazine other)
    (live_nodup : next.live.Nodup) (stored_nodup : (next.magazine core).contents.Nodup)
    (count_le : (next.magazine core).count ≤ MAG_CAPACITY)
    (phase : PhaseOk next core (next.phase core))
    (phases : ∀ other, other ≠ core → PhaseOk next other (next.phase other)) : Sound ops next := by
  obtain ⟨owned, free_eq⟩ := ops.alloc_some _ _ _ alloc_eq
  have passes : Passes (sys.held ops) (next.held ops) .pool target addr := by
    refine sound.partition.passes owned elsewhere.symm ?_ target_eq others
    rw [System.held, pool_eq]
    exact free_eq
  exact sound.pass passes live_nodup stored_nodup count_le phase other_eq phases

omit [DecidableEq κ] in
theorem PhaseOk.congr {phase : Phase} (phase_ok : PhaseOk sys core phase)
    (magazine_eq : next.magazine core = sys.magazine core) (lock_eq : next.pmmLock = sys.pmmLock)
    (freeing_eq : next.freeing core = sys.freeing core)
    (kept : ∀ addr, sys.freeing core = some addr → addr ∈ sys.live → addr ∈ next.live) :
    PhaseOk next core phase := by
  cases phase with
  | idle => exact freeing_eq.trans phase_ok
  | refilling turns => rwa [PhaseOk, magazine_eq, lock_eq, freeing_eq]
  | flushing turns addr =>
      rw [PhaseOk, magazine_eq, lock_eq, freeing_eq]
      obtain ⟨⟨count_eq, mem, locked⟩, called⟩ := phase_ok
      exact ⟨⟨count_eq, kept addr called mem, locked⟩, called⟩

/-- While a core has the lock, or gets it, the other cores are in no loop. -/
theorem Sound.others_idle (sound : Sound ops sys)
    (lock : sys.pmmLock = none ∨ sys.pmmLock = some core) (other : κ) (ne : other ≠ core)
    (freeing_eq : next.freeing other = sys.freeing other) (phase : Phase) :
    PhaseOk next other (Function.update sys.phase core phase other) := by
  have idle : sys.phase other = .idle := by
    refine sound.idle ?_
    rcases lock with free | held
    · rw [free]
      nofun
    · rw [held]
      exact fun same => ne (Option.some.inj same).symm
  have phase_ok := sound.phases other
  rw [idle] at phase_ok
  rw [Function.update_of_ne ne, idle]
  exact freeing_eq.trans phase_ok

omit [DecidableEq κ] in
/-- A core that runs no call frees nothing. -/
theorem Sound.freeing_eq (sound : Sound ops sys) (idle : sys.phase core = .idle) :
    sys.freeing core = none := by
  have phase_ok := sound.phases core
  rwa [idle] at phase_ok

omit [DecidableEq κ] in
theorem phaseOk_idle (idle : next.phase core = .idle) (freeing_eq : next.freeing core = none) :
    PhaseOk next core (next.phase core) := by
  rw [idle]
  exact freeing_eq

@[simp] theorem enter_phase (cores : Cores π κ) (core : κ) (phase : Phase) :
    (cores.enter core phase).phase core = phase := Function.update_self _ _ _

@[simp] theorem finish_phase (cores : Cores π κ) (core : κ) :
    (cores.finish core).phase core = .idle := Function.update_self _ _ _

/-- A free that has returned takes its frame from the caller. -/
theorem record_freed {cores : Cores π κ} (idle : cores.phase core = .idle)
    (called : sys.freeing core = some addr) : sys.record core (none, cores) =
      (none, ⟨cores, sys.live.erase addr, Function.update sys.freeing core none⟩) := by
  rw [System.record, idle, called]

/-- A call in a loop leaves the caller what it has. -/
theorem record_busy {cores : Cores π κ} (busy : cores.phase core ≠ .idle) :
    sys.record core (none, cores) = (none, { sys with toCores := cores }) := by
  rw [System.record]
  split
  next idle _ => exact absurd idle busy
  next => rfl

/-- A core takes the lock. -/
theorem Sound.enter {phase : Phase} (sound : Sound ops sys) (free : sys.pmmLock = none)
    (cores_eq : next.toCores = sys.toCores.enter core phase) (live_eq : next.live = sys.live)
    (freeing_eq : ∀ other, other ≠ core → next.freeing other = sys.freeing other)
    (phase_ok : PhaseOk next core phase) : Sound ops next := by
  obtain ⟨cores, live, freeing⟩ := next
  dsimp only at cores_eq live_eq
  subst cores_eq live_eq
  refine ⟨⟨sound.partition, sound.live_nodup, sound.stored_nodup, sound.count_le⟩, fun other => ?_⟩
  by_cases same : other = core
  · rw [same, enter_phase]
    exact phase_ok
  · exact sound.others_idle (.inl free) other same (freeing_eq other same) _

theorem Sound.alloc {result : Option Nat × Cores π κ} (sound : Sound ops sys)
    (idle : sys.phase core = .idle) (alloc_eq : sys.toCores.alloc core = .ok result) :
    Sound ops (sys.record core result).2 := by
  have called := sound.freeing_eq idle
  rw [Cores.alloc] at alloc_eq
  split at alloc_eq
  next =>
    obtain ⟨⟨ret, magazine⟩, take_eq, done⟩ := bind_eq_ok.mp alloc_eq
    cases done
    replace take_eq := mapError_eq_ok.mp take_eq
    have owned : ret ∈ sys.held ops (.magazine core) := by
      simp [System.held, (Magazine.take_ok take_eq).2]
    have outside : ret ∉ sys.held ops .caller := sound.partition.not_mem owned nofun
    have target_ne : Holder.caller ≠ .magazine core := nofun
    refine sound.take take_eq target_ne ?_ (fun other ne => Function.update_of_ne ne _ _)
      setOf_mem_cons (fun holder not_magazine not_caller => ?_)
      (List.nodup_cons.mpr ⟨outside, sound.live_nodup⟩) (phaseOk_idle idle called)
      fun other ne => ?_
    · simp [System.record, Cores.setMagazine]
    · cases holder with
      | caller => exact absurd rfl not_caller
      | magazine other => exact absurd rfl (not_magazine other)
      | pool => rfl
    · exact (sound.phases other).congr (Function.update_of_ne ne _ _) rfl rfl
        fun _ _ mem => List.mem_cons_of_mem _ mem
  next empty =>
    obtain ⟨free, done⟩ := guard_eq_ok.mp alloc_eq
    cases done
    have busy : (sys.toCores.enter core (.refilling (MAG_CAPACITY / 2 - 1))).phase core ≠
        .idle := by
      rw [enter_phase]
      nofun
    rw [record_busy busy]
    refine sound.enter free rfl rfl (fun _ _ => rfl) ⟨⟨?_, rfl⟩, called⟩
    change (sys.magazine core).count + _ + 1 = _
    rw [show (sys.magazine core).count = 0 by omega]
    rfl

theorem Sound.free {result : Option Nat × Cores π κ} (sound : Sound ops sys)
    (idle : sys.phase core = .idle) (mem : addr ∈ sys.live)
    (alone : ∀ core, sys.freeing core ≠ some addr)
    (free_eq : sys.toCores.free core addr = .ok result) :
    Sound ops ((sys.calls core addr).record core result).2 := by
  have called : (sys.calls core addr).freeing core = some addr := Function.update_self _ _ _
  rw [Cores.free] at free_eq
  split at free_eq
  next =>
    obtain ⟨magazine, store_eq, done⟩ := bind_eq_ok.mp free_eq
    cases done
    have returned : (sys.toCores.setMagazine core magazine).phase core = .idle := idle
    rw [record_freed returned called]
    refine sound.store mem (mapError_eq_ok.mp store_eq) rfl rfl rfl
      (phaseOk_idle idle (Function.update_self _ _ _)) fun other ne => ?_
    refine (sound.phases other).congr (Function.update_of_ne ne _ _) rfl ?_
      fun freed freeing freed_mem => ?_
    · change Function.update (Function.update sys.freeing core (some addr)) core none other = _
      rw [Function.update_of_ne ne, Function.update_of_ne ne]
    · refine (List.mem_erase_of_ne ?_).mpr freed_mem
      rintro rfl
      exact alone other freeing
  next full =>
    obtain ⟨free, done⟩ := guard_eq_ok.mp free_eq
    cases done
    have busy : (sys.toCores.enter core (.flushing (MAG_CAPACITY / 2) addr)).phase core ≠
        .idle := by
      rw [enter_phase]
      nofun
    rw [record_busy busy]
    refine sound.enter free rfl rfl (fun other ne => Function.update_of_ne ne _ _)
      ⟨⟨?_, mem, rfl⟩, called⟩
    have count_le := sound.count_le core
    change (sys.magazine core).count = _
    rw [show (sys.magazine core).count = MAG_CAPACITY by omega]
    rfl

/-- One turn of the loop of `Magazine::alloc`. -/
theorem Sound.refill {turns block : Nat} {pool : π} {magazine : Magazine} (sound : Sound ops sys)
    (count_eq : (sys.magazine core).count + (turns + 1) + 1 = MAG_CAPACITY / 2)
    (lock_eq : sys.pmmLock = some core) (alloc_eq : ops.alloc sys.pool = (some block, pool))
    (store_eq : (sys.magazine core).store block = .ok magazine)
    (called : sys.freeing core = none) (next_eq : next = { sys with
      toCores := { sys.setMagazine core magazine with pool }.enter core (.refilling turns) }) :
    Sound ops next := by
  obtain ⟨lt, stored_count, contents_eq⟩ := Magazine.store_ok store_eq
  have same : next.magazine core = magazine := by
    rw [next_eq]
    exact Function.update_self _ _ _
  have kept (other : κ) (ne : other ≠ core) : next.magazine other = sys.magazine other := by
    rw [next_eq]
    exact Function.update_of_ne ne _ _
  have owned : block ∈ sys.held ops .pool := (ops.alloc_some _ _ _ alloc_eq).1
  have outside : block ∉ sys.held ops (.magazine core) := sound.partition.not_mem owned nofun
  have target_ne : Holder.magazine core ≠ .pool := nofun
  refine sound.fetch alloc_eq (by rw [next_eq]; rfl) target_ne ?_
    (fun holder not_pool not_target => ?_) kept ?_ ?_ ?_ ?_ fun other ne => ?_
  · rw [System.held, same, contents_eq]
    exact setOf_mem_snoc
  · cases holder with
    | caller => rw [next_eq]; rfl
    | magazine other =>
        rw [System.held, System.held, kept other fun same => not_target (congrArg _ same)]
    | pool => exact absurd rfl not_pool
  · rw [next_eq]
    exact sound.live_nodup
  · rw [same, contents_eq]
    simpa using (sound.stored_nodup core).concat outside
  · rw [same, stored_count]
    exact lt
  · rw [show next.phase core = .refilling turns by rw [next_eq, enter_phase]]
    refine ⟨⟨?_, by rw [next_eq]; rfl⟩, by rw [next_eq]; exact called⟩
    rw [same, stored_count]
    omega
  · rw [next_eq]
    exact sound.others_idle (.inr lock_eq) other ne (by rfl) _

/-- One turn of the loop of `Magazine::free`. -/
theorem Sound.flush {turns page : Nat} {magazine : Magazine} (sound : Sound ops sys)
    (count_eq : (sys.magazine core).count = MAG_CAPACITY / 2 + (turns + 1))
    (mem : addr ∈ sys.live) (lock_eq : sys.pmmLock = some core)
    (take_eq : (sys.magazine core).take = .ok (page, magazine))
    (called : sys.freeing core = some addr) (next_eq : next = { sys with
      toCores := { sys.setMagazine core magazine with
        pool := ops.release sys.pool page }.enter core (.flushing turns addr) }) :
    Sound ops next := by
  obtain ⟨taken_count, contents_eq⟩ := Magazine.take_ok take_eq
  have same : next.magazine core = magazine := by
    rw [next_eq]
    exact Function.update_self _ _ _
  have owned : page ∈ sys.held ops (.magazine core) := by simp [System.held, contents_eq]
  have outside : page ∉ sys.held ops .pool := sound.partition.not_mem owned nofun
  have frame : page ∈ frames := (sound.partition.union page).mpr ⟨_, owned⟩
  have target_ne : Holder.pool ≠ .magazine core := nofun
  refine sound.take take_eq target_ne (by rw [same]; exact ⟨rfl, rfl⟩) (fun other ne => ?_) ?_
    (fun holder not_magazine not_pool => ?_) ?_ ?_ fun other ne => ?_
  · rw [next_eq]
    exact Function.update_of_ne ne _ _
  · rw [next_eq]
    exact ops.free_release _ page frame outside
  · cases holder with
    | caller => rw [next_eq]; rfl
    | magazine other => exact absurd rfl (not_magazine other)
    | pool => exact absurd rfl not_pool
  · rw [next_eq]
    exact sound.live_nodup
  · rw [show next.phase core = .flushing turns addr by rw [next_eq, enter_phase]]
    refine ⟨⟨?_, by rw [next_eq]; exact mem, by rw [next_eq]; rfl⟩, by rw [next_eq]; exact called⟩
    rw [same]
    omega
  · rw [next_eq]
    exact sound.others_idle (.inr lock_eq) other ne (by rfl) _

theorem Sound.advance {result : Option Nat × Cores π κ} (sound : Sound ops sys)
    (advance_eq : sys.toCores.advance ops core = .ok result) :
    Sound ops (sys.record core result).2 := by
  have phase_ok := sound.phases core
  rw [Cores.advance] at advance_eq
  split at advance_eq
  next => cases advance_eq
  next turns phase =>
    rw [phase] at phase_ok
    obtain ⟨⟨count_eq, lock_eq⟩, called⟩ := phase_ok
    split at advance_eq
    next => cases advance_eq
    next block pool alloc_eq =>
      obtain ⟨magazine, store_eq, done⟩ := bind_eq_ok.mp advance_eq
      cases done
      rw [record_busy (by rw [enter_phase]; nofun)]
      exact sound.refill count_eq lock_eq alloc_eq (mapError_eq_ok.mp store_eq) called rfl
  next phase =>
    rw [phase] at phase_ok
    obtain ⟨⟨-, lock_eq⟩, called⟩ := phase_ok
    split at advance_eq
    next => cases advance_eq
    next ret pool alloc_eq =>
      cases advance_eq
      have owned : ret ∈ sys.held ops .pool := (ops.alloc_some _ _ _ alloc_eq).1
      have outside : ret ∉ sys.held ops .caller := sound.partition.not_mem owned nofun
      have target_ne : (Holder.caller : Holder κ) ≠ .pool := nofun
      refine sound.fetch alloc_eq rfl target_ne setOf_mem_cons
        (fun holder not_pool not_target => ?_)
        (fun other _ => rfl) (List.nodup_cons.mpr ⟨outside, sound.live_nodup⟩)
        (sound.stored_nodup core) (sound.count_le core)
        (phaseOk_idle (finish_phase _ core) called)
        fun other ne => sound.others_idle (.inr lock_eq) other ne (by rfl) _
      cases holder with
      | caller => exact absurd rfl not_target
      | magazine other => rfl
      | pool => exact absurd rfl not_pool
  next turns addr phase =>
    rw [phase] at phase_ok
    obtain ⟨⟨count_eq, mem, lock_eq⟩, called⟩ := phase_ok
    obtain ⟨⟨page, magazine⟩, take_eq, done⟩ := bind_eq_ok.mp advance_eq
    cases done
    rw [record_busy (by rw [enter_phase]; nofun)]
    exact sound.flush count_eq mem lock_eq (mapError_eq_ok.mp take_eq) called rfl
  next addr phase =>
    rw [phase] at phase_ok
    obtain ⟨⟨-, mem, lock_eq⟩, called⟩ := phase_ok
    obtain ⟨magazine, store_eq, done⟩ := bind_eq_ok.mp advance_eq
    cases done
    rw [record_freed (finish_phase _ core) called]
    refine sound.store mem (mapError_eq_ok.mp store_eq) rfl rfl rfl
      (phaseOk_idle (finish_phase _ core) (Function.update_self _ _ _)) fun other ne => ?_
    exact sound.others_idle (.inr lock_eq) other ne (Function.update_of_ne ne _ _) _

theorem Sound.step {event : Event κ} {value : Option Nat} (sound : Sound ops sys)
    (permitted : FreesLive sys event) (step_eq : step ops sys event = .ok (value, next)) :
    Sound ops next := by
  cases event with
  | alloc core =>
      obtain ⟨idle, record_eq⟩ := guard_eq_ok.mp step_eq
      obtain ⟨result, alloc_eq, done⟩ := map_eq_ok.mp record_eq
      have kept := sound.alloc idle alloc_eq
      rwa [done] at kept
  | free core addr =>
      obtain ⟨idle, record_eq⟩ := guard_eq_ok.mp step_eq
      obtain ⟨result, free_eq, done⟩ := map_eq_ok.mp record_eq
      have kept := sound.free idle permitted.1 permitted.2 free_eq
      rwa [done] at kept
  | advance core =>
      obtain ⟨result, advance_eq, done⟩ := map_eq_ok.mp step_eq
      have kept := sound.advance advance_eq
      rwa [done] at kept

omit [DecidableEq κ] in
/-- A frame of a magazine or of the pool is not live. -/
theorem Sound.fresh {frame : Nat} (sound : Sound ops sys) (holder : Holder κ)
    (ne : Holder.caller ≠ holder) (owned : frame ∈ sys.held ops holder) :
    frame ∈ frames ∧ frame ∉ sys.live :=
  ⟨(sound.partition.union frame).mpr ⟨holder, owned⟩, sound.partition.not_mem owned ne⟩

/-- The value of an event is that of the code. -/
theorem record_value (sys : System π κ) (core : κ) (result : Option Nat × Cores π κ) :
    (sys.record core result).1 = result.1 := by
  obtain ⟨value, cores⟩ := result
  cases value with
  | some ret => rfl
  | none =>
      rw [System.record]
      split <;> rfl

/-- What a call of `alloc` returns was not live before. -/
theorem Sound.returned {event : Event κ} {frame : Nat} (sound : Sound ops sys)
    (step_eq : Magazines.step ops sys event = .ok (some frame, next)) :
    frame ∈ frames ∧ frame ∉ sys.live := by
  have coded {sys : System π κ} {core : κ} {result : Option Nat × Cores π κ}
      (record_eq : sys.record core result = (some frame, next)) : result.1 = some frame := by
    rw [← record_value sys core, record_eq]
  cases event with
  | alloc core =>
      obtain ⟨-, record_eq⟩ := guard_eq_ok.mp step_eq
      obtain ⟨result, alloc_eq, done⟩ := map_eq_ok.mp record_eq
      have value_eq := coded done
      rw [Cores.alloc] at alloc_eq
      split at alloc_eq
      next =>
        obtain ⟨⟨ret, magazine⟩, take_eq, done⟩ := bind_eq_ok.mp alloc_eq
        cases done
        cases value_eq
        have contents_eq := (Magazine.take_ok (mapError_eq_ok.mp take_eq)).2
        have owned : frame ∈ sys.held ops (.magazine core) := by simp [System.held, contents_eq]
        exact sound.fresh (.magazine core) nofun owned
      next =>
        obtain ⟨-, done⟩ := guard_eq_ok.mp alloc_eq
        cases done
        cases value_eq
  | free core addr =>
      obtain ⟨-, record_eq⟩ := guard_eq_ok.mp step_eq
      obtain ⟨result, free_eq, done⟩ := map_eq_ok.mp record_eq
      have value_eq := coded done
      rw [Cores.free] at free_eq
      split at free_eq
      next =>
        obtain ⟨magazine, -, done⟩ := bind_eq_ok.mp free_eq
        cases done
        cases value_eq
      next =>
        obtain ⟨-, done⟩ := guard_eq_ok.mp free_eq
        cases done
        cases value_eq
  | advance core =>
      obtain ⟨result, advance_eq, done⟩ := map_eq_ok.mp step_eq
      have value_eq := coded done
      rw [Cores.advance] at advance_eq
      split at advance_eq
      next => cases advance_eq
      next =>
        split at advance_eq
        next => cases advance_eq
        next =>
          obtain ⟨magazine, -, done⟩ := bind_eq_ok.mp advance_eq
          cases done
          cases value_eq
      next =>
        split at advance_eq
        next => cases advance_eq
        next ret pool alloc_eq =>
          cases advance_eq
          cases value_eq
          have owned : frame ∈ sys.held ops .pool := (ops.alloc_some _ _ _ alloc_eq).1
          exact sound.fresh .pool nofun owned
      next =>
        obtain ⟨⟨page, magazine⟩, -, done⟩ := bind_eq_ok.mp advance_eq
        cases done
        cases value_eq
      next =>
        obtain ⟨magazine, -, done⟩ := bind_eq_ok.mp advance_eq
        cases done
        cases value_eq

omit [DecidableEq κ] in
theorem Sound.boot (boot : Boot ops sys) : Sound ops sys := by
  have empty (core : κ) : (sys.magazine core).contents = [] := by rw [boot.magazine]; rfl
  have only (frame : Nat) (holder : Holder κ) :
      frame ∈ sys.held ops holder ↔ holder = .pool ∧ frame ∈ frames := by
    cases holder with
    | caller => simp [System.held, boot.live]
    | magazine core => simp [System.held, empty]
    | pool => simp [System.held, boot.pool]
  refine ⟨⟨⟨fun frame left right in_left in_right => ?_, fun frame => ?_⟩, ?_, fun core => ?_,
    fun core => ?_⟩, fun core => phaseOk_idle (boot.phase core) (boot.freeing core)⟩
  · rw [only] at in_left in_right
    rw [in_left.1, in_right.1]
  · exact ⟨fun mem => ⟨.pool, (only _ _).mpr ⟨rfl, mem⟩⟩, fun ⟨_, mem⟩ => ((only _ _).mp mem).2⟩
  · rw [boot.live]
    exact List.nodup_nil
  · rw [empty]
    exact List.nodup_nil
  · rw [boot.magazine]
    exact Nat.zero_le _

end Steps

/-- In every run that frees only live frames, every frame is live, in one magazine or free,
magazines hold at most 256 frames, and `alloc` returns neither 0 nor a live frame. -/
theorem magazines_conserve_frames {ops : PagePool π frames} {sys final : System π κ}
    {events : List (Event κ)} (nonzero : 0 ∉ frames) (boot : Boot ops sys)
    (permits : (machine ops).Permits sys events)
    (run_eq : (machine ops).run sys events = .ok final) :
    Conserved ops final ∧ ∀ event frame next, step ops final event = .ok (some frame, next) →
      frame ≠ 0 ∧ frame ∉ final.live := by
  have keeps : ∀ (sys : System π κ) event next, Sound ops sys → FreesLive sys event →
      (machine ops).step sys event = .ok next → Sound ops next := by
    intro sys event next sound permitted step_eq
    obtain ⟨⟨value, after⟩, event_eq, rfl⟩ := map_eq_ok.mp step_eq
    exact sound.step permitted event_eq
  have sound := (machine ops).run_keeps keeps (Sound.boot boot) permits run_eq
  refine ⟨sound.toConserved, fun event frame next step_eq => ?_⟩
  obtain ⟨mem, not_live⟩ := sound.returned step_eq
  exact ⟨fun zero => nonzero (zero ▸ mem), not_live⟩

/-- A stack of frames. -/
def stackPool (frames : Set Nat) : PagePool (List Nat) frames where
  free pool := {frame | frame ∈ pool}
  alloc
    | [] => (none, [])
    | frame :: rest => (some frame, rest.filter (· ≠ frame))
  release pool frame := frame :: pool
  alloc_some pool rest frame alloc_eq := by
    cases pool with
    | nil => cases alloc_eq
    | cons first others =>
        cases alloc_eq
        refine ⟨List.mem_cons_self, Set.ext fun other => ?_⟩
        simp only [Set.mem_ofPred_eq, List.mem_filter, decide_eq_true_eq, Set.mem_sdiff,
          List.mem_cons, Set.mem_singleton_iff]
        tauto
  free_release pool frame _ _ := setOf_mem_cons

/-- One core with an empty magazine, in front of three frames. -/
def soloBoot : System (List Nat) Unit where
  pool := [0x1000, 0x2000, 0x3000]
  magazine _ := .init
  phase _ := .idle
  pmmLock := none
  live := []
  freeing _ := none

/-- The core is in its first refill: two of the frames are in the magazine. -/
theorem magazines_conserve_frames_refill :
    ∃ final, (machine (stackPool {frame | frame ∈ soloBoot.pool})).run soloBoot
        [.alloc (), .advance (), .advance ()] = .ok final ∧
      (final.magazine ()).contents = [0x1000, 0x2000] ∧
      Conserved (stackPool {frame | frame ∈ soloBoot.pool}) final := by
  obtain ⟨final, run_eq, contents_eq⟩ : ∃ final,
      (machine (stackPool {frame | frame ∈ soloBoot.pool})).run soloBoot
        [.alloc (), .advance (), .advance ()] = .ok final ∧
        (final.magazine ()).contents = [0x1000, 0x2000] := ⟨_, rfl, rfl⟩
  have boot : Boot (stackPool {frame | frame ∈ soloBoot.pool}) soloBoot :=
    ⟨rfl, fun _ => rfl, fun _ => rfl, rfl, fun _ => rfl⟩
  have permits : (machine (stackPool {frame | frame ∈ soloBoot.pool})).Permits soloBoot
      [.alloc (), .advance (), .advance ()] :=
    Machine.permits_of_mem _ soloBoot (by simp [machine, FreesLive])
  refine ⟨final, run_eq, contents_eq, ?_⟩
  exact (magazines_conserve_frames (by decide) boot permits run_eq).1

/-! ## The buddy allocator as a pool -/

section Buddy

open Allocator

/-- A sound state of the buddy allocator that has handed out single frames only. -/
structure SingleFrames (managed : Set Nat) (pfndbLen : Nat) where
  served : Served
  sound : Allocator.Sound managed pfndbLen served
  single : ∀ block ∈ served.live, block.order = 0

namespace SingleFrames

variable {managed : Set Nat} {pfndbLen : Nat} {addr : Nat}

/-- The addresses of the managed frames that are not live. -/
def free (state : SingleFrames managed pfndbLen) : Set Nat :=
  {addr | ∃ frame ∈ managed, addr = frame * NORMAL_PAGE_SIZE ∧ ⟨frame, 0⟩ ∉ state.served.live}

/-- `Allocator::alloc` of a frame leads from one state to another. -/
def Allocates (state : SingleFrames managed pfndbLen) (addr : Nat)
    (rest : SingleFrames managed pfndbLen) : Prop :=
  state.served.pmm.alloc .Normal = .ok (some addr, rest.served.pmm) ∧
    ∃ frame, addr = frame * NORMAL_PAGE_SIZE ∧ rest.served.live = ⟨frame, 0⟩ :: state.served.live

/-- `Allocator::free` of a frame leads from one state to another. -/
def Releases (state : SingleFrames managed pfndbLen) (addr : Nat)
    (rest : SingleFrames managed pfndbLen) : Prop :=
  state.served.pmm.free addr .Normal = .ok rest.served.pmm ∧
    rest.served.live = state.served.live.erase ⟨addr / NORMAL_PAGE_SIZE, 0⟩

/-- Live blocks are listed once. -/
theorem live_nodup (state : SingleFrames managed pfndbLen) : state.served.live.Nodup := by
  obtain ⟨lists, holds⟩ := state.sound.holds
  have apart := (List.pairwise_append.mp holds.tiles.pairwise_apart).2.1
  refine apart.imp fun {left right} apart => ?_
  rintro rfl
  exact apart left.base ⟨DyadicBlock.covers_base left, DyadicBlock.covers_base left⟩

/-- The allocator returns a frame, or has none. -/
theorem alloc_cases (covers : Covers managed pfndbLen) (state : SingleFrames managed pfndbLen) :
    state.served.pmm.alloc .Normal = .ok (none, state.served.pmm) ∨
      ∃ addr rest, state.Allocates addr rest := by
  obtain ⟨lists, holds⟩ := state.sound.holds
  obtain ⟨next, serve_eq, sound⟩ := serve_sound covers state.served (.alloc 0) state.sound
    (Nat.zero_le _)
  have reached : Covers managed state.served.pmm.pfndbLen := by
    rw [state.sound.len_eq]
    exact covers
  rcases allocOrder_spec reached.reaches (Nat.zero_le _) holds with
    alloc_eq | ⟨base, after, -, alloc_eq, -⟩
  · exact .inl alloc_eq
  · rw [serve, alloc_eq] at serve_eq
    cases serve_eq
    rw [mul_page_div] at sound
    refine .inr ⟨_, ⟨_, sound, fun block mem => ?_⟩, alloc_eq, base, rfl, rfl⟩
    rcases List.mem_cons.mp mem with rfl | old
    · rfl
    · exact state.single block old

/-- A live frame can be freed. -/
theorem release_exists (covers : Covers managed pfndbLen) (state : SingleFrames managed pfndbLen)
    {frame : Nat} (mem : ⟨frame, 0⟩ ∈ state.served.live) :
    ∃ rest, state.Releases (frame * NORMAL_PAGE_SIZE) rest := by
  obtain ⟨next, serve_eq, sound⟩ := serve_sound covers state.served
    (.free (frame * NORMAL_PAGE_SIZE) 0) state.sound
    ⟨Nat.dvd_mul_left _ _, by rwa [mul_page_div]⟩
  obtain ⟨pmm, free_eq, done⟩ := bind_eq_ok.mp serve_eq
  cases done
  refine ⟨⟨_, sound, fun block block_mem => ?_⟩, free_eq, rfl⟩
  exact state.single block (List.mem_of_mem_erase block_mem)

theorem Allocates.spec {state rest : SingleFrames managed pfndbLen}
    (allocates : state.Allocates addr rest) :
    addr ∈ state.free ∧ rest.free = state.free \ {addr} := by
  obtain ⟨-, frame, rfl, live_eq⟩ := allocates
  have nodup := rest.live_nodup
  rw [live_eq] at nodup
  obtain ⟨lists, holds⟩ := rest.sound.holds
  have mem : ⟨frame, 0⟩ ∈ rest.served.live := by rw [live_eq]; exact List.mem_cons_self
  have owned := holds.managed_of_covers mem (DyadicBlock.covers_base ⟨frame, 0⟩)
  refine ⟨⟨frame, owned, rfl, (List.nodup_cons.mp nodup).1⟩, Set.ext fun other => ?_⟩
  constructor
  · rintro ⟨number, number_mem, rfl, outside⟩
    rw [live_eq, List.mem_cons, not_or] at outside
    refine ⟨⟨number, number_mem, rfl, outside.2⟩, fun same => outside.1 ?_⟩
    have positive : 0 < NORMAL_PAGE_SIZE := by decide
    rw [Nat.eq_of_mul_eq_mul_right positive (Set.mem_singleton_iff.mp same)]
  · rintro ⟨⟨number, number_mem, rfl, outside⟩, ne⟩
    refine ⟨number, number_mem, rfl, ?_⟩
    rw [live_eq, List.mem_cons, not_or]
    refine ⟨fun same => ne ?_, outside⟩
    have base_eq : number = frame := congrArg DyadicBlock.base same
    rw [Set.mem_singleton_iff, base_eq]

theorem Releases.spec {state rest : SingleFrames managed pfndbLen} {frame : Nat}
    (mem : frame ∈ managed) (releases : state.Releases (frame * NORMAL_PAGE_SIZE) rest) :
    rest.free = insert (frame * NORMAL_PAGE_SIZE) state.free := by
  obtain ⟨-, live_eq⟩ := releases
  rw [mul_page_div] at live_eq
  ext other
  constructor
  · rintro ⟨number, number_mem, rfl, outside⟩
    by_cases same : number = frame
    · exact .inl (by rw [same])
    · refine .inr ⟨number, number_mem, rfl, fun listed => outside ?_⟩
      rw [live_eq]
      exact (List.mem_erase_of_ne fun equal => same (congrArg DyadicBlock.base equal)).mpr listed
  · rintro (rfl | ⟨number, number_mem, rfl, outside⟩)
    · refine ⟨frame, mem, rfl, ?_⟩
      rw [live_eq]
      exact state.live_nodup.not_mem_erase
    · refine ⟨number, number_mem, rfl, ?_⟩
      rw [live_eq]
      exact fun listed => outside (List.mem_of_mem_erase listed)

/-- A managed frame that is not free is live. -/
theorem live_of_not_free {state : SingleFrames managed pfndbLen} {frame : Nat}
    (mem : frame ∈ managed) (used : frame * NORMAL_PAGE_SIZE ∉ state.free) :
    ⟨frame, 0⟩ ∈ state.served.live := by
  by_contra outside
  exact used ⟨frame, mem, rfl, outside⟩

open Classical in
/-- The buddy allocator serves the magazines as an exclusive pool. -/
noncomputable def pool (covers : Covers managed pfndbLen) :
    PagePool (SingleFrames managed pfndbLen)
      {addr | ∃ frame ∈ managed, addr = frame * NORMAL_PAGE_SIZE} where
  free := free
  alloc state :=
    if found : ∃ result : Nat × SingleFrames managed pfndbLen,
        state.Allocates result.1 result.2 then
      (some found.choose.1, found.choose.2)
    else
      (none, state)
  release state addr :=
    if freed : ∃ rest, state.Releases addr rest then freed.choose else state
  alloc_some state rest addr alloc_eq := by
    split at alloc_eq
    next found =>
      cases alloc_eq
      exact found.choose_spec.spec
    next => cases alloc_eq
  free_release state addr mem used := by
    obtain ⟨frame, frame_mem, rfl⟩ := mem
    have freed := release_exists covers state (live_of_not_free frame_mem used)
    rw [dif_pos freed]
    exact freed.choose_spec.spec frame_mem

/-- It never hands out the null frame. -/
theorem zero_not_managed (covers : Covers managed pfndbLen) :
    0 ∉ {addr | ∃ frame ∈ managed, addr = frame * NORMAL_PAGE_SIZE} := by
  rintro ⟨frame, mem, zero⟩
  exact covers.reaches.page_ne_zero mem zero.symm

/-- The pool has a frame exactly when `Allocator::alloc` finds one. -/
theorem pool_alloc_none_iff (covers : Covers managed pfndbLen)
    (state : SingleFrames managed pfndbLen) :
    ((pool covers).alloc state).1 = none ↔
      state.served.pmm.alloc .Normal = .ok (none, state.served.pmm) := by
  rcases alloc_cases covers state with none_left | ⟨addr, rest, allocates⟩
  · refine iff_of_true ?_ none_left
    refine congrArg Prod.fst (dif_neg ?_)
    rintro ⟨⟨addr, rest⟩, alloc_eq, -⟩
    cases none_left.symm.trans alloc_eq
  · have found : ∃ result : Nat × SingleFrames managed pfndbLen,
        state.Allocates result.1 result.2 := ⟨(addr, rest), allocates⟩
    refine iff_of_false ?_ fun none_left => ?_
    · rw [show (pool covers).alloc state = _ from dif_pos found]
      nofun
    · cases none_left.symm.trans allocates.1

end SingleFrames

end Buddy

end Magazines
end Vespertine
