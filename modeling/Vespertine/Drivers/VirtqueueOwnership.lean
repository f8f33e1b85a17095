import Mathlib.Data.List.Perm.Subperm
import Vespertine.Drivers.Virtqueue

/-!
# Descriptors have one owner

A descriptor is free, or part of the chain of one request, or was lost when a chain could not be
completed.  A request whose entry the device has not finished still sees the status byte `0xFF`, so
its future does not free the chain; the entries the device has yet to read are therefore chains of
different requests, of which there are fewer than ring slots.
-/

namespace Vespertine.Virtio

variable {size : Nat} [NeZero size] {τ ω : Type}

/-! ## The invariant -/

/-- A request whose entry the device may still hold. -/
def Phase.awaits : Phase ω → Option BlockTransferFuture
  | .waiting future => some future
  | .checked future status _ => if status = 0xFF then some future else none
  | _ => none

/-- The page of a request that is not yet available to the device. -/
def Phase.early : Phase ω → Option Nat
  | .prepared _ page => some page
  | .reserved future => some future.pagePhys
  | .posted future => some future.pagePhys
  | _ => none

/-- The chain of a request that holds the lock. -/
def Phase.locks : Phase ω → Option BlockTransferFuture
  | .reserved future => some future
  | .posted future => some future
  | _ => none

/-- The available entries that the device has not read. -/
def System.unconsumed (sys : System size τ ω) : List (Entry τ) :=
  Ring.window sys.vq.availRing sys.device.nextAvail
    (Ring.distance 0x10000 sys.vq.availIdx sys.device.nextAvail)

/-- The entries whose status byte the device has not written. -/
def System.entries (sys : System size τ ω) : List (Entry τ) :=
  sys.device.working ++ sys.unconsumed

/-- The descriptors of a chain are as `transfer_sectors` wrote them. -/
structure Intact (desc : Nat → VqDescriptor) (future : BlockTransferFuture) : Prop where
  first : (desc future.d0).flags % 2 = 1 ∧ (desc future.d0).next = future.d1
  second : (desc future.d1).flags % 2 = 1 ∧ (desc future.d1).next = future.d2
  third : (desc future.d2).flags % 2 = 0 ∧ (desc future.d2).addr = future.pagePhys + 512

/-- The free list and the chains of the requests. -/
structure Owners (size : Nat) (desc : Nat → VqDescriptor) (freeHead : Nat)
    (chains : τ → Option BlockTransferFuture) (free : List Nat) : Prop where
  threaded : Threaded (fun idx => (desc idx).next) NO_DESC freeHead free
  free_lt : ∀ idx ∈ free, idx < size
  chain_nodup : ∀ task future, chains task = some future → future.descs.Nodup
  chain_lt : ∀ task future, chains task = some future → ∀ idx ∈ future.descs, idx < size
  not_free : ∀ task future, chains task = some future → ∀ idx ∈ future.descs, idx ∉ free
  apart : ∀ left right first second, chains left = some first → chains right = some second →
    ∀ idx ∈ first.descs, idx ∈ second.descs → left = right
  intact : ∀ task future, chains task = some future → Intact desc future

/-- Requests own different aligned pages. -/
structure Paged (pages : τ → Option Nat) : Prop where
  aligned : ∀ task page, pages task = some page → NORMAL_PAGE_SIZE ∣ page
  apart : ∀ left right page, pages left = some page → pages right = some page → left = right

/-- What the device has yet to finish belongs to requests that still wait. -/
structure Tracked (sys : System size τ ω) : Prop where
  avail_lt : sys.vq.availIdx < 0x10000
  next_lt : sys.device.nextAvail < 0x10000
  entry : ∀ entry ∈ sys.entries, ∃ task future, entry = ⟨future.d0, some task⟩ ∧
    (sys.tasks task).awaits = some future ∧ sys.bytes (future.pagePhys + 512) = 0xFF
  nodup : sys.entries.Nodup
  early : ∀ task page, (sys.tasks task).early = some page → sys.bytes (page + 512) = 0xFF
  locked : ∀ task future, (sys.tasks task).locks = some future → sys.holder = some task
  posted : ∀ task future, sys.tasks task = .posted future →
    sys.vq.availRing (Fin.ofNat size sys.vq.availIdx) = ⟨future.d0, some task⟩

/-- Every state of the driver and the device. -/
structure Sound (sys : System size τ ω) : Prop where
  owners : ∃ free,
    Owners size sys.vq.desc sys.vq.freeHead (fun task => (sys.tasks task).chain?) free
  paged : Paged fun task => (sys.tasks task).page?
  tracked : Tracked sys

theorem Phase.chain_of_awaits {phase : Phase ω} {future : BlockTransferFuture}
    (awaits : phase.awaits = some future) : phase.chain? = some future := by
  cases phase with
  | waiting other => exact awaits
  | checked other status waker =>
      rw [Phase.awaits] at awaits
      split at awaits
      next => exact awaits
      next => cases awaits
  | _ => cases awaits

theorem Phase.chain_of_locks {phase : Phase ω} {future : BlockTransferFuture}
    (locks : phase.locks = some future) : phase.chain? = some future ∧ phase.awaits = none := by
  cases phase with
  | reserved other => exact ⟨locks, rfl⟩
  | posted other => exact ⟨locks, rfl⟩
  | _ => cases locks

theorem Phase.page_of_chain {phase : Phase ω} {future : BlockTransferFuture}
    (chain : phase.chain? = some future) : phase.page? = some future.pagePhys := by
  cases phase with
  | reserved other => cases chain; rfl
  | posted other => cases chain; rfl
  | waiting other => cases chain; rfl
  | checked other status waker => cases chain; rfl
  | _ => cases chain

theorem Phase.page_of_early {phase : Phase ω} {page : Nat} (early : phase.early = some page) :
    phase.page? = some page ∧ phase.awaits = none := by
  cases phase with
  | prepared request other => exact ⟨early, rfl⟩
  | reserved other => exact ⟨early, rfl⟩
  | posted other => exact ⟨early, rfl⟩
  | _ => cases early

/-! ## Counting the entries -/

/-- Different numbers below a bound are at most that many. -/
theorem length_le_of_nodup {numbers : List Nat} {bound : Nat} (nodup : numbers.Nodup)
    (lt : ∀ number ∈ numbers, number < bound) : numbers.length ≤ bound := by
  have fits : numbers.Subperm (List.range bound) :=
    List.subperm_of_subset nodup fun number mem => List.mem_range.mpr (lt number mem)
  simpa using fits.length_le

namespace Sound

variable {sys : System size τ ω}

/-- Entries with the same first descriptor are the same. -/
theorem entry_of_id (sound : Sound sys) {left right : Entry τ} (left_mem : left ∈ sys.entries)
    (right_mem : right ∈ sys.entries) (id_eq : left.id = right.id) : left = right := by
  obtain ⟨free, owners⟩ := sound.owners
  obtain ⟨task, future, rfl, awaits, -⟩ := sound.tracked.entry left left_mem
  obtain ⟨other, second, rfl, awaits_other, -⟩ := sound.tracked.entry right right_mem
  have head_eq : future.d0 = second.d0 := id_eq
  obtain rfl := owners.apart task other future second (Phase.chain_of_awaits awaits)
    (Phase.chain_of_awaits awaits_other) future.d0 (by simp [BlockTransferFuture.descs])
    (by simp [head_eq, BlockTransferFuture.descs])
  rw [head_eq]

/-- A request that holds the lock makes one more chain than the device has entries. -/
theorem entries_lt (sound : Sound sys) {task : τ} {future : BlockTransferFuture}
    (locks : (sys.tasks task).locks = some future) : sys.entries.length < size := by
  obtain ⟨free, owners⟩ := sound.owners
  obtain ⟨chain, not_awaits⟩ := Phase.chain_of_locks locks
  have nodup : (future.d0 :: sys.entries.map Entry.id).Nodup := by
    refine List.nodup_cons.mpr ⟨fun mem => ?_, ?_⟩
    · obtain ⟨entry, entry_mem, id_eq⟩ := List.mem_map.mp mem
      obtain ⟨other, second, rfl, awaits, -⟩ := sound.tracked.entry entry entry_mem
      have head_eq : second.d0 = future.d0 := id_eq
      obtain rfl := owners.apart task other future second chain (Phase.chain_of_awaits awaits)
        future.d0 (by simp [BlockTransferFuture.descs])
        (by simp [head_eq, BlockTransferFuture.descs])
      cases not_awaits.symm.trans awaits
    · exact sound.tracked.nodup.map_on fun left left_mem right right_mem =>
        sound.entry_of_id left_mem right_mem
  have bound := length_le_of_nodup nodup fun idx mem => by
    rcases List.mem_cons.mp mem with rfl | mem
    · exact owners.chain_lt task future chain _ (by simp [BlockTransferFuture.descs])
    · obtain ⟨entry, entry_mem, rfl⟩ := List.mem_map.mp mem
      obtain ⟨other, second, rfl, awaits, -⟩ := sound.tracked.entry entry entry_mem
      exact owners.chain_lt other second (Phase.chain_of_awaits awaits) _
        (by simp [BlockTransferFuture.descs])
  rwa [List.length_cons, List.length_map] at bound

end Sound

/-! ## Taking and freeing descriptors -/

section Chains

omit [NeZero size]

/-- A chain is known by its own descriptors. -/
theorem Intact.congr {desc other : Nat → VqDescriptor} {future : BlockTransferFuture}
    (intact : Intact desc future) (agree : ∀ idx ∈ future.descs, other idx = desc idx) :
    Intact other future := by
  obtain ⟨first, second, third⟩ := intact
  simp only [BlockTransferFuture.descs, List.mem_cons, List.not_mem_nil, or_false] at agree
  constructor
  · rwa [agree _ (.inl rfl)]
  · rwa [agree _ (.inr (.inl rfl))]
  · rwa [agree _ (.inr (.inr rfl))]

/-- The device visits the three descriptors of an intact chain. -/
theorem Intact.walk_eq {desc : Nat → VqDescriptor} {future : BlockTransferFuture}
    (intact : Intact desc future) {fuel : Nat} (enough : 3 ≤ fuel) :
    walk desc fuel future.d0 = future.descs := by
  obtain ⟨rest, rfl⟩ := Nat.exists_eq_add_of_le' enough
  obtain ⟨⟨flag0, next0⟩, ⟨flag1, next1⟩, ⟨flag2, -⟩⟩ := intact
  simp [walk, BlockTransferFuture.descs, flag0, next0, flag1, next1, flag2]

namespace Owners

variable {desc : Nat → VqDescriptor} {freeHead idx : Nat} {chains : τ → Option BlockTransferFuture}
  {free : List Nat}

/-- A descriptor is part of no chain. -/
def Unowned (chains : τ → Option BlockTransferFuture) (idx : Nat) : Prop :=
  ∀ task future, chains task = some future → idx ∉ future.descs

/-- The first free descriptor is taken off the list. -/
theorem pop (owners : Owners size desc freeHead chains free) (ne : freeHead ≠ NO_DESC) :
    ∃ rest, Owners size desc (desc freeHead).next chains rest ∧ freeHead < size ∧
      freeHead ∉ rest ∧ (∀ idx ∈ rest, idx ∈ free) ∧ Unowned chains freeHead := by
  obtain ⟨rest, rfl, below⟩ := owners.threaded.exists_cons ne
  have nodup := List.nodup_cons.mp owners.threaded.nodup
  refine ⟨rest, { owners with
    threaded := below
    free_lt := fun idx mem => owners.free_lt idx (List.mem_cons_of_mem _ mem)
    not_free := fun task future chain idx mem later =>
      owners.not_free task future chain idx mem (List.mem_cons_of_mem _ later) },
    owners.free_lt _ List.mem_cons_self, nodup.1, fun idx mem => List.mem_cons_of_mem _ mem,
    fun task future chain mem => ?_⟩
  exact owners.not_free task future chain _ mem List.mem_cons_self

/-- A descriptor that is neither free nor in a chain can be written. -/
theorem write (owners : Owners size desc freeHead chains free) (outside : idx ∉ free)
    (unowned : Unowned chains idx) (value : VqDescriptor) :
    Owners size (Function.update desc idx value) freeHead chains free := by
  refine { owners with
    threaded := owners.threaded.congr fun node mem => ?_
    intact := fun task future chain => (owners.intact task future chain).congr fun node mem => ?_ }
  · rw [Function.update_of_ne fun same : node = idx => outside (same ▸ mem)]
  · exact Function.update_of_ne (fun same : node = idx => unowned task future chain (same ▸ mem)) ..

/-- A descriptor that is neither free nor in a chain is put on the free list. -/
theorem push (owners : Owners size desc freeHead chains free) (lt : idx < size)
    (size_le : size ≤ NO_DESC) (outside : idx ∉ free) (unowned : Unowned chains idx) :
    Owners size (Function.update desc idx { desc idx with next := freeHead }) idx chains
      (idx :: free) := by
  have written := owners.write outside unowned { desc idx with next := freeHead }
  refine { written with
    threaded := ⟨rfl, (lt.trans_le size_le).ne, ?_⟩
    free_lt := fun node mem => ?_
    not_free := fun task future chain node mem listed => ?_ }
  · beta_reduce
    rw [Function.update_self]
    exact written.threaded
  · rcases List.mem_cons.mp mem with rfl | old
    · exact lt
    · exact owners.free_lt node old
  · rcases List.mem_cons.mp listed with rfl | old
    · exact unowned task future chain mem
    · exact owners.not_free task future chain node mem old

variable [DecidableEq τ]

/-- A request gives up its chain. -/
theorem drop (owners : Owners size desc freeHead chains free) (task : τ) :
    Owners size desc freeHead (Function.update chains task none) free := by
  have old : ∀ other future, Function.update chains task none other = some future →
      chains other = some future := by
    intro other future chain
    by_cases same : other = task
    · subst same
      simp at chain
    · rwa [Function.update_of_ne same] at chain
  exact { owners with
    chain_nodup := fun other future chain => owners.chain_nodup other future (old _ _ chain)
    chain_lt := fun other future chain => owners.chain_lt other future (old _ _ chain)
    not_free := fun other future chain => owners.not_free other future (old _ _ chain)
    apart := fun left right first second left_chain right_chain =>
      owners.apart left right first second (old _ _ left_chain) (old _ _ right_chain)
    intact := fun other future chain => owners.intact other future (old _ _ chain) }

/-- The descriptors a request gave up are in no chain. -/
theorem unowned_of_drop (owners : Owners size desc freeHead chains free) {task : τ}
    {future : BlockTransferFuture} (chain : chains task = some future) (mem : idx ∈ future.descs) :
    Unowned (Function.update chains task none) idx := by
  intro other second other_chain other_mem
  by_cases same : other = task
  · subst same
    simp at other_chain
  · rw [Function.update_of_ne same] at other_chain
    exact same (owners.apart other task second future other_chain chain idx other_mem mem)

/-- A request owns a chain it has built from taken descriptors. -/
theorem adopt (owners : Owners size desc freeHead chains free) {task : τ}
    {future : BlockTransferFuture} (nodup : future.descs.Nodup)
    (lt : ∀ idx ∈ future.descs, idx < size) (outside : ∀ idx ∈ future.descs, idx ∉ free)
    (unowned : ∀ idx ∈ future.descs, Unowned chains idx) (intact : Intact desc future) :
    Owners size desc freeHead (Function.update chains task (some future)) free := by
  have cases_of : ∀ other second, Function.update chains task (some future) other = some second →
      other = task ∧ second = future ∨ other ≠ task ∧ chains other = some second := by
    intro other second chain
    by_cases same : other = task
    · subst same
      rw [Function.update_self] at chain
      exact .inl ⟨rfl, (Option.some.inj chain).symm⟩
    · rw [Function.update_of_ne same] at chain
      exact .inr ⟨same, chain⟩
  refine { owners with
    chain_nodup := fun other second chain => ?_
    chain_lt := fun other second chain => ?_
    not_free := fun other second chain => ?_
    apart := fun left right first second left_chain right_chain idx left_mem right_mem => ?_
    intact := fun other second chain => ?_ }
  · rcases cases_of other second chain with ⟨-, rfl⟩ | ⟨-, old⟩
    · exact nodup
    · exact owners.chain_nodup other second old
  · rcases cases_of other second chain with ⟨-, rfl⟩ | ⟨-, old⟩
    · exact lt
    · exact owners.chain_lt other second old
  · rcases cases_of other second chain with ⟨-, rfl⟩ | ⟨-, old⟩
    · exact outside
    · exact owners.not_free other second old
  · rcases cases_of left first left_chain with ⟨rfl, rfl⟩ | ⟨-, left_old⟩
    · rcases cases_of right second right_chain with ⟨rfl, -⟩ | ⟨-, right_old⟩
      · rfl
      · exact absurd right_mem (unowned idx left_mem right second right_old)
    · rcases cases_of right second right_chain with ⟨-, rfl⟩ | ⟨-, right_old⟩
      · exact absurd left_mem (unowned idx right_mem left first left_old)
      · exact owners.apart left right first second left_old right_old idx left_mem right_mem
  · rcases cases_of other second chain with ⟨-, rfl⟩ | ⟨-, old⟩
    · exact intact
    · exact owners.intact other second old

end Owners

/-- Descriptors that were taken off the free list and belong to no chain. -/
structure Taken (size : Nat) (chains : τ → Option BlockTransferFuture) (free : List Nat)
    (taken : List Nat) : Prop where
  nodup : taken.Nodup
  lt : ∀ idx ∈ taken, idx < size
  outside : ∀ idx ∈ taken, idx ∉ free
  unowned : ∀ idx ∈ taken, Owners.Unowned chains idx

theorem Taken.nil {chains : τ → Option BlockTransferFuture} {free : List Nat} :
    Taken size chains free [] :=
  ⟨List.nodup_nil, nofun, nofun, nofun⟩

section Alloc

variable {vq : Virtqueue size τ ω} {chains : τ → Option BlockTransferFuture} {free taken : List Nat}

/-- `alloc_desc` takes one more descriptor, or the list is empty. -/
theorem allocDesc_spec (vq : Virtqueue size τ ω)
    (owners : Owners size vq.desc vq.freeHead chains free) (held : Taken size chains free taken) :
    vq.allocDesc = none ∨ ∃ idx rest,
      vq.allocDesc = some (idx, { vq with freeHead := (vq.desc idx).next }) ∧
        Owners size vq.desc (vq.desc idx).next chains rest ∧
        Taken size chains rest (taken ++ [idx]) := by
  rw [Virtqueue.allocDesc]
  split
  next => exact .inl rfl
  next ne =>
    obtain ⟨rest, shorter, lt, not_mem, fewer, unowned⟩ := owners.pop ne
    have listed : vq.freeHead ∈ free := by
      obtain ⟨rest, rfl, -⟩ := owners.threaded.exists_cons ne
      exact List.mem_cons_self
    refine .inr ⟨_, rest, rfl, shorter, ?_, fun idx mem => ?_, fun idx mem => ?_,
      fun idx mem => ?_⟩
    · refine List.nodup_append.mpr ⟨held.nodup, List.nodup_singleton _,
        fun idx mem other last => ?_⟩
      rw [List.mem_singleton.mp last]
      exact fun same => held.outside idx mem (same ▸ listed)
    · rcases List.mem_append.mp mem with old | last
      · exact held.lt idx old
      · exact List.mem_singleton.mp last ▸ lt
    · rcases List.mem_append.mp mem with old | last
      · exact fun later => held.outside idx old (fewer idx later)
      · exact List.mem_singleton.mp last ▸ not_mem
    · rcases List.mem_append.mp mem with old | last
      · exact held.unowned idx old
      · exact List.mem_singleton.mp last ▸ unowned

/-- The three calls of `alloc_desc` change the head of the free list only. -/
theorem allocChain_spec (owners : Owners size vq.desc vq.freeHead chains free) :
    ∃ head rest, Owners size vq.desc head chains rest ∧
      (vq.allocChain = (none, { vq with freeHead := head }) ∨
        ∃ d0 d1 d2, vq.allocChain = (some (d0, d1, d2), { vq with freeHead := head }) ∧
          Taken size chains rest [d0, d1, d2]) := by
  rw [Virtqueue.allocChain]
  rcases allocDesc_spec vq owners Taken.nil with none_eq | ⟨d0, rest, some_eq, owners, taken⟩
  · rw [none_eq]
    exact ⟨_, _, owners, .inl rfl⟩
  · rw [some_eq]
    rcases allocDesc_spec { vq with freeHead := (vq.desc d0).next } owners taken with
      none_eq | ⟨d1, rest, some_eq, owners, taken⟩
    · simp only [none_eq]
      exact ⟨_, _, owners, .inl rfl⟩
    · simp only [some_eq]
      rcases allocDesc_spec { vq with freeHead := (vq.desc d1).next } owners taken with
        none_eq | ⟨d2, rest, some_eq, owners, taken⟩
      · simp only [none_eq]
        exact ⟨_, _, owners, .inl rfl⟩
      · simp only [some_eq]
        exact ⟨_, _, owners, .inr ⟨d0, d1, d2, rfl, taken⟩⟩

variable [DecidableEq τ]

/-- A request owns the chain it has written. -/
theorem Owners.writeChain {d0 d1 d2 : Nat} (owners : Owners size vq.desc vq.freeHead chains free)
    (taken : Taken size chains free [d0, d1, d2]) (task : τ) (request : Request) (page : Nat) :
    Owners size (vq.writeChain request page d0 d1 d2).desc vq.freeHead
      (Function.update chains task (some ⟨d0, d1, d2, page, 0⟩)) free := by
  have mem0 : d0 ∈ [d0, d1, d2] := by simp
  have mem1 : d1 ∈ [d0, d1, d2] := by simp
  have mem2 : d2 ∈ [d0, d1, d2] := by simp
  have nodup := taken.nodup
  simp only [List.nodup_cons, List.mem_cons, List.not_mem_nil, or_false, not_or] at nodup
  obtain ⟨⟨ne01, ne02⟩, ne12, -⟩ := nodup
  have written : Owners size (vq.writeChain request page d0 d1 d2).desc vq.freeHead chains free :=
    ((owners.write (taken.outside d0 mem0) (taken.unowned d0 mem0) _).write
      (taken.outside d1 mem1) (taken.unowned d1 mem1) _).write (taken.outside d2 mem2)
      (taken.unowned d2 mem2) _
  refine written.adopt taken.nodup taken.lt taken.outside taken.unowned ⟨?_, ?_, ?_⟩
  · simp only [Virtqueue.writeChain]
    rw [Function.update_of_ne ne02, Function.update_of_ne ne01, Function.update_self]
    exact ⟨rfl, rfl⟩
  · simp only [Virtqueue.writeChain]
    rw [Function.update_of_ne ne12, Function.update_self]
    refine ⟨?_, rfl⟩
    cases request.isWrite <;> simp
  · simp only [Virtqueue.writeChain]
    rw [Function.update_self]
    exact ⟨Nat.mod_self 2, rfl⟩

/-- A request frees its chain. -/
theorem Owners.freeChain {task : τ} {future : BlockTransferFuture}
    (owners : Owners size vq.desc vq.freeHead chains free) (size_le : size ≤ NO_DESC)
    (chain : chains task = some future) :
    ∃ free, Owners size (((vq.freeDesc future.d0).freeDesc future.d1).freeDesc future.d2).desc
      future.d2 (Function.update chains task none) free := by
  have mem0 : future.d0 ∈ future.descs := by simp [BlockTransferFuture.descs]
  have mem1 : future.d1 ∈ future.descs := by simp [BlockTransferFuture.descs]
  have mem2 : future.d2 ∈ future.descs := by simp [BlockTransferFuture.descs]
  have nodup := owners.chain_nodup task future chain
  simp only [BlockTransferFuture.descs, List.nodup_cons, List.mem_cons, List.not_mem_nil, or_false,
    not_or] at nodup
  obtain ⟨⟨ne01, ne02⟩, ne12, -⟩ := nodup
  have lt := owners.chain_lt task future chain
  have outside := owners.not_free task future chain
  have pushed0 := (owners.drop task).push (lt _ mem0) size_le (outside _ mem0)
    (owners.unowned_of_drop chain mem0)
  have pushed1 := pushed0.push (lt _ mem1) size_le
    (by simp [Ne.symm ne01, outside _ mem1]) (owners.unowned_of_drop chain mem1)
  have pushed2 := pushed1.push (lt _ mem2) size_le
    (by simp [Ne.symm ne02, Ne.symm ne12, outside _ mem2]) (owners.unowned_of_drop chain mem2)
  exact ⟨_, pushed2⟩

end Alloc

/-- The links `vq_setup` writes. -/
theorem vqSetup_next {idx : Nat} (lt : idx < size) :
    ((vqSetup : Virtqueue size τ ω).desc idx).next =
      if idx + 1 = size then NO_DESC else idx + 1 := by
  rw [vqSetup]
  split
  next last =>
    obtain rfl : idx = size - 1 := by omega
    simp only
    rw [Function.update_self]
  next more =>
    have ne : idx ≠ size - 1 := by omega
    have written : writeAll (fun _ => (⟨0, 0, 0, 0⟩ : VqDescriptor)) id (fun i => ⟨0, 0, 1, i + 1⟩)
        (List.range' 0 (size - 1)) (id idx) = ⟨0, 0, 1, idx + 1⟩ :=
      writeAll_of_mem _ (by simp; omega) fun _ _ _ _ same => same
    simp only
    rw [Function.update_of_ne ne, ← id_eq idx, written]
    rfl

end Chains

/-- `vq_setup` makes all descriptors free. -/
theorem Owners.setup (size_le : size ≤ NO_DESC) :
    ∃ free, Owners size (vqSetup : Virtqueue size τ ω).desc (vqSetup : Virtqueue size τ ω).freeHead
      (fun _ : τ => none) free := by
  have positive : 0 < size := Nat.pos_of_ne_zero (NeZero.ne size)
  have linked : Threaded (fun idx => ((vqSetup : Virtqueue size τ ω).desc idx).next) NO_DESC
      (if size = 0 then NO_DESC else id 0) ((List.range' 0 size).map id) := by
    refine Threaded.of_range id (fun idx _ lt => ?_) fun idx _ lt => ?_
    · rw [Nat.zero_add] at lt ⊢
      exact vqSetup_next lt
    · rw [Nat.zero_add] at lt
      exact (lt.trans_le size_le).ne
  rw [if_neg positive.ne'] at linked
  refine ⟨_, linked, fun idx mem => ?_, nofun, nofun, nofun, nofun, nofun⟩
  simpa using mem

/-! ## Steps -/

section Wrap

variable {α : Type}

/-- The 16-bit index wraps at a multiple of the ring. -/
theorem slot_wrap (divides : size ∣ 0x10000) (idx : Nat) :
    Fin.ofNat size (idx % 0x10000) = Fin.ofNat size idx :=
  Fin.ext (Nat.mod_mod_of_dvd idx divides)

theorem window_wrap (divides : size ∣ 0x10000) (cells : Fin size → α) (start count : Nat) :
    Ring.window cells (start % 0x10000) count = Ring.window cells start count := by
  rw [← Ring.window_mod cells (start % 0x10000), Nat.mod_mod_of_dvd start divides, Ring.window_mod]

end Wrap

variable [DecidableEq τ] {sys : System size τ ω} {task : τ} {phase : Phase ω}

omit [NeZero size] in
theorem System.setTask_self : (sys.setTask task phase).tasks task = phase :=
  Function.update_self ..

omit [NeZero size] in
theorem System.setTask_of_ne {other : τ} (ne : other ≠ task) :
    (sys.setTask task phase).tasks other = sys.tasks other :=
  Function.update_of_ne ne ..

/-- Changing the phase of a request changes its chain only. -/
theorem chains_update (tasks : τ → Phase ω) (task : τ) (phase : Phase ω) :
    (fun other => (Function.update tasks task phase other).chain?) =
      Function.update (fun other => (tasks other).chain?) task phase.chain? :=
  Function.comp_update Phase.chain? tasks task phase

theorem pages_update (tasks : τ → Phase ω) (task : τ) (phase : Phase ω) :
    (fun other => (Function.update tasks task phase other).page?) =
      Function.update (fun other => (tasks other).page?) task phase.page? :=
  Function.comp_update Phase.page? tasks task phase

theorem Paged.drop {pages : τ → Option Nat} (paged : Paged pages) (task : τ) :
    Paged (Function.update pages task none) := by
  have old : ∀ other page, Function.update pages task none other = some page →
      pages other = some page := by
    intro other page held
    by_cases same : other = task
    · subst same
      simp at held
    · rwa [Function.update_of_ne same] at held
  exact ⟨fun other page held => paged.aligned other page (old _ _ held),
    fun left right page left_held right_held =>
      paged.apart left right page (old _ _ left_held) (old _ _ right_held)⟩

theorem Paged.adopt {pages : τ → Option Nat} (paged : Paged pages) {page : Nat} (task : τ)
    (aligned : NORMAL_PAGE_SIZE ∣ page) (fresh : ∀ other, pages other ≠ some page) :
    Paged (Function.update pages task (some page)) := by
  refine ⟨fun other held held_eq => ?_, fun left right held left_eq right_eq => ?_⟩
  · by_cases same : other = task
    · subst same
      rw [Function.update_self] at held_eq
      exact Option.some.inj held_eq ▸ aligned
    · rw [Function.update_of_ne same] at held_eq
      exact paged.aligned other held held_eq
  · by_cases left_same : left = task
    · subst left_same
      rw [Function.update_self] at left_eq
      by_cases right_same : right = left
      · exact right_same.symm
      · rw [Function.update_of_ne right_same, ← left_eq] at right_eq
        exact absurd right_eq (fresh right)
    · rw [Function.update_of_ne left_same] at left_eq
      by_cases right_same : right = task
      · subst right_same
        rw [Function.update_self, ← left_eq] at right_eq
        exact absurd right_eq.symm (fresh left)
      · rw [Function.update_of_ne right_same] at right_eq
        exact paged.apart left right held left_eq right_eq

/-- A request moves to a phase that keeps its promises. -/
theorem Tracked.setTask (tracked : Tracked sys)
    (awaits : ∀ future, (sys.tasks task).awaits = some future →
      sys.bytes (future.pagePhys + 512) = 0xFF → phase.awaits = some future)
    (early : ∀ page, phase.early = some page → sys.bytes (page + 512) = 0xFF)
    (locked : ∀ future, phase.locks = some future → sys.holder = some task)
    (posted : ∀ future, phase = .posted future →
      sys.vq.availRing (Fin.ofNat size sys.vq.availIdx) = ⟨future.d0, some task⟩) :
    Tracked (sys.setTask task phase) := by
  refine { tracked with
    entry := fun entry mem => ?_
    early := fun other page held => ?_
    locked := fun other future held => ?_
    posted := fun other future held => ?_ }
  · obtain ⟨other, future, rfl, waits, status⟩ := tracked.entry entry mem
    refine ⟨other, future, rfl, ?_, status⟩
    by_cases same : other = task
    · subst same
      rw [System.setTask_self]
      exact awaits future waits status
    · rwa [System.setTask_of_ne same]
  · by_cases same : other = task
    · subst same
      rw [System.setTask_self] at held
      exact early page held
    · rw [System.setTask_of_ne same] at held
      exact tracked.early other page held
  · by_cases same : other = task
    · subst same
      rw [System.setTask_self] at held
      exact locked future held
    · rw [System.setTask_of_ne same] at held
      exact tracked.locked other future held
  · by_cases same : other = task
    · subst same
      rw [System.setTask_self] at held
      exact posted future held
    · rw [System.setTask_of_ne same] at held
      exact tracked.posted other future held

omit [DecidableEq τ] in
/-- Writes that leave the status bytes of the requests alone are not seen. -/
theorem Tracked.rewrite (tracked : Tracked sys) {bytes : Nat → Nat}
    {headers : Nat → VirtioBlkReqHeader}
    (agree : ∀ task page, (sys.tasks task).page? = some page →
      bytes (page + 512) = sys.bytes (page + 512)) :
    Tracked { sys with bytes := bytes, headers := headers } := by
  refine { tracked with entry := fun entry mem => ?_, early := fun other page held => ?_ }
  · obtain ⟨other, future, rfl, waits, status⟩ := tracked.entry entry mem
    have owned := Phase.page_of_chain (Phase.chain_of_awaits waits)
    exact ⟨other, future, rfl, waits, (agree other future.pagePhys owned).trans status⟩
  · exact (agree other page (Phase.page_of_early held).1).trans (tracked.early other page held)

namespace Sound

/-- A request keeps its chain and its page. -/
theorem retask (sound : Sound sys) (chain_eq : phase.chain? = (sys.tasks task).chain?)
    (page_eq : phase.page? = (sys.tasks task).page?)
    (tracked : Tracked (sys.setTask task phase)) : Sound (sys.setTask task phase) := by
  refine ⟨?_, ?_, tracked⟩
  · simp only [System.setTask, chains_update, chain_eq]
    rw [Function.update_eq_self_iff.mpr rfl]
    exact sound.owners
  · simp only [System.setTask, pages_update, page_eq]
    rw [Function.update_eq_self_iff.mpr rfl]
    exact sound.paged

omit [DecidableEq τ] in
/-- Another request's status byte is outside a page. -/
theorem status_outside (sound : Sound sys) {page other : Nat} (aligned : NORMAL_PAGE_SIZE ∣ page)
    (fresh : ∀ task, (sys.tasks task).page? ≠ some page)
    (held : (sys.tasks task).page? = some other) :
    other + 512 < page ∨ page + NORMAL_PAGE_SIZE ≤ other + 512 := by
  have other_aligned := sound.paged.aligned task other held
  have ne : other ≠ page := fun same => fresh task (same ▸ held)
  obtain ⟨left, rfl⟩ := aligned
  obtain ⟨right, rfl⟩ := other_aligned
  simp only [NORMAL_PAGE_SIZE] at ne ⊢
  omega

/-- A new request leaves the status bytes of the others alone. -/
theorem transfer_bytes (sound : Sound sys) {request : Request} {page : Nat}
    (fresh : FreshPage sys (.transfer task request page)) (other : τ) {held : Nat}
    (held_eq : (sys.tasks other).page? = some held) :
    (sys.transfer task request page).bytes (held + 512) = sys.bytes (held + 512) := by
  rw [System.transfer]
  split
  next => rfl
  next ne =>
    obtain ⟨aligned, unowned⟩ := fresh ne
    have outside := sound.status_outside aligned unowned held_eq
    simp only [System.setTask]
    rw [Function.update_of_ne (by simp only [NORMAL_PAGE_SIZE] at outside; omega),
      System.zeroPage, if_neg (by omega)]

theorem transfer (sound : Sound sys) {request : Request} {page : Nat}
    (idle : sys.tasks task = .idle) (fresh : FreshPage sys (.transfer task request page)) :
    Sound (sys.transfer task request page) := by
  have agree := sound.transfer_bytes fresh
  rw [System.transfer] at agree ⊢
  split
  next =>
    refine sound.retask (by rw [idle]; rfl) (by rw [idle]; rfl) ?_
    exact sound.tracked.setTask (by rw [idle]; nofun) nofun nofun nofun
  next ne =>
    rw [if_neg ne] at agree
    obtain ⟨aligned, unowned⟩ := fresh ne
    refine ⟨?_, ?_, ?_⟩
    · simp only [System.setTask, chains_update]
      rw [Function.update_eq_self_iff.mpr (by rw [idle]; rfl)]
      exact sound.owners
    · simp only [System.setTask, pages_update]
      exact sound.paged.adopt task aligned unowned
    · refine (sound.tracked.rewrite fun other _ => agree other).setTask (by rw [idle]; nofun)
        (fun other held => ?_) nofun nofun
      obtain rfl : page = other := Option.some.inj held
      simp only [System.setTask, Function.update_self]

theorem reserve (sound : Sound sys) {request : Request} {page : Nat}
    (prepared : sys.tasks task = .prepared request page) (unlocked : sys.holder = none) :
    Sound (sys.reserve task request page) := by
  obtain ⟨free, owners⟩ := sound.owners
  obtain ⟨head, rest, shorter, alloc_eq | ⟨d0, d1, d2, alloc_eq, taken⟩⟩ := allocChain_spec owners
  · simp only [System.reserve, alloc_eq]
    refine ⟨⟨rest, ?_⟩, ?_, ?_⟩
    · simp only [System.setTask, chains_update]
      rw [Function.update_eq_self_iff.mpr (by rw [prepared]; rfl)]
      exact shorter
    · simp only [System.setTask, pages_update]
      exact sound.paged.drop task
    · have tracked : Tracked { sys with vq := { sys.vq with freeHead := head } } :=
        { sound.tracked with }
      exact tracked.setTask (by simp [prepared, Phase.awaits]) nofun nofun nofun
  · simp only [System.reserve, alloc_eq]
    have status := sound.tracked.early task page (by rw [prepared]; rfl)
    refine ⟨⟨rest, ?_⟩, ?_, ?_⟩
    · simp only [System.setTask, chains_update]
      have built : Owners size { sys.vq with freeHead := head }.desc
        { sys.vq with freeHead := head }.freeHead _ rest := shorter
      exact built.writeChain taken task request page
    · simp only [System.setTask, pages_update]
      rw [Function.update_eq_self_iff.mpr (by rw [prepared]; rfl)]
      exact sound.paged
    · have tracked : Tracked { sys with
          vq := { sys.vq with freeHead := head }.writeChain request page d0 d1 d2
          holder := some task } :=
        { sound.tracked with
          locked := fun other future held => by
            cases (sound.tracked.locked other future held).symm.trans unlocked }
      refine tracked.setTask (by simp [prepared, Phase.awaits]) (fun other held => ?_)
        (fun _ _ => rfl) nofun
      cases held
      exact status

theorem check (sound : Sound sys) {future : BlockTransferFuture} (waker : ω)
    (waiting : sys.tasks task = .waiting future) :
    Sound (sys.setTask task (.checked future (sys.bytes (future.pagePhys + 512)) waker)) := by
  refine sound.retask (by rw [waiting]; rfl) (by rw [waiting]; rfl) ?_
  refine sound.tracked.setTask (fun other awaits status => ?_) nofun nofun nofun
  rw [waiting] at awaits
  cases awaits
  exact if_pos status

theorem release (sound : Sound sys) {future : BlockTransferFuture} {status : Nat}
    (freed : sys.tasks task = .freed future status) :
    Sound (sys.setTask task (.ready (status = 0))) := by
  refine ⟨?_, ?_, ?_⟩
  · simp only [System.setTask, chains_update]
    rw [Function.update_eq_self_iff.mpr (by rw [freed]; rfl)]
    exact sound.owners
  · simp only [System.setTask, pages_update]
    exact sound.paged.drop task
  · exact sound.tracked.setTask (by simp [freed, Phase.awaits]) nofun nofun nofun

omit [DecidableEq τ] in
/-- The ring has room for the entry of a request that holds the lock. -/
theorem unconsumed_lt (sound : Sound sys) {future : BlockTransferFuture}
    (locks : (sys.tasks task).locks = some future) :
    Ring.distance 0x10000 sys.vq.availIdx sys.device.nextAvail < size := by
  have bound := sound.entries_lt locks
  rw [System.entries, List.length_append, System.unconsumed, Ring.length_window] at bound
  omega

omit [DecidableEq τ] in
/-- The slot behind the unread entries is the one `transfer_sectors` writes. -/
theorem slot_eq (sound : Sound sys) (divides : size ∣ 0x10000) :
    Fin.ofNat size (sys.device.nextAvail +
      Ring.distance 0x10000 sys.vq.availIdx sys.device.nextAvail) =
        Fin.ofNat size sys.vq.availIdx := by
  have reached := Ring.add_distance sound.tracked.avail_lt sound.tracked.next_lt
  rw [← slot_wrap divides, reached]

omit [DecidableEq τ] in
/-- Writing the slot leaves the entries the device has not read alone. -/
theorem window_post (sound : Sound sys) (divides : size ∣ 0x10000) {future : BlockTransferFuture}
    (locks : (sys.tasks task).locks = some future) (entry : Entry τ) :
    Ring.window (Function.update sys.vq.availRing (Fin.ofNat size sys.vq.availIdx) entry)
      sys.device.nextAvail (Ring.distance 0x10000 sys.vq.availIdx sys.device.nextAvail) =
        sys.unconsumed := by
  rw [← sound.slot_eq divides, Ring.window_update _ _ (sound.unconsumed_lt locks)]
  rfl

omit [DecidableEq τ] in
/-- Only the request that holds the lock can be about to publish. -/
theorem task_of_locks (sound : Sound sys) {other : τ} {future second : BlockTransferFuture}
    (locks : (sys.tasks task).locks = some future)
    (other_locks : (sys.tasks other).locks = some second) : other = task :=
  Option.some.inj ((sound.tracked.locked other second other_locks).symm.trans
    (sound.tracked.locked task future locks))

theorem post (sound : Sound sys) (divides : size ∣ 0x10000) {future : BlockTransferFuture}
    (reserved : sys.tasks task = .reserved future) : Sound (sys.post task future) := by
  have locks : (sys.tasks task).locks = some future := by rw [reserved]; rfl
  let written : System size τ ω := { sys with vq := { sys.vq with
    availRing := Function.update sys.vq.availRing (Fin.ofNat size sys.vq.availIdx)
      ⟨future.d0, some task⟩ } }
  have entries_eq : written.entries = sys.entries :=
    congrArg (sys.device.working ++ ·) (sound.window_post divides locks _)
  have tracked : Tracked written := by
    refine { sound.tracked with
      entry := fun entry mem => sound.tracked.entry entry (entries_eq ▸ mem)
      nodup := entries_eq ▸ sound.tracked.nodup
      posted := fun other second held => ?_ }
    have held : sys.tasks other = .posted second := held
    obtain rfl := sound.task_of_locks locks (by rw [held]; rfl)
    cases reserved.symm.trans held
  have kept : Sound written := ⟨sound.owners, sound.paged, tracked⟩
  have task_eq : written.tasks task = .reserved future := reserved
  refine kept.retask (by rw [task_eq]; rfl) (by rw [task_eq]; rfl) ?_
  refine tracked.setTask (by simp [task_eq, Phase.awaits]) (fun page held => ?_)
    (fun _ _ => sound.tracked.locked task future locks) fun second held => ?_
  · exact sound.tracked.early task page (by rw [reserved]; exact held)
  · cases held
    exact Function.update_self ..

/-- Publishing hands the device one more entry. -/
theorem entries_publish (sound : Sound sys) (divides : size ∣ 0x10000)
    (size_lt : size < 0x10000) {future : BlockTransferFuture}
    (posted : sys.tasks task = .posted future) :
    (sys.publish task future).entries = sys.entries ++ [⟨future.d0, some task⟩] := by
  have locks : (sys.tasks task).locks = some future := by rw [posted]; rfl
  have room := sound.unconsumed_lt locks
  have advance := Ring.distance_advance sound.tracked.avail_lt sound.tracked.next_lt (by omega)
  rw [System.entries, System.entries, List.append_assoc]
  refine congrArg (sys.device.working ++ ·) ?_
  simp only [System.unconsumed, System.publish, System.setTask, wrappingNext]
  rw [advance, Ring.window_snoc, sound.slot_eq divides, sound.tracked.posted task future posted]

/-- The future that is returned owns the chain the call has built. -/
theorem owners_publish (sound : Sound sys) {future : BlockTransferFuture}
    (posted : sys.tasks task = .posted future) (lastSeen : Nat) :
    ∃ free, Owners size sys.vq.desc sys.vq.freeHead
      (Function.update (fun other => (sys.tasks other).chain?) task
        (some { future with lastSeenUsed := lastSeen })) free := by
  obtain ⟨free, owners⟩ := sound.owners
  have chain : (sys.tasks task).chain? = some future := by rw [posted]; rfl
  have intact := owners.intact task future chain
  have moved : Owners size sys.vq.desc sys.vq.freeHead
      (Function.update (Function.update (fun other => (sys.tasks other).chain?) task none) task
        (some { future with lastSeenUsed := lastSeen })) free :=
    (owners.drop task).adopt (owners.chain_nodup task future chain)
      (owners.chain_lt task future chain) (owners.not_free task future chain)
      (fun idx mem => owners.unowned_of_drop chain mem)
      ⟨intact.first, intact.second, intact.third⟩
  rw [Function.update_idem] at moved
  exact ⟨free, moved⟩

theorem publish (sound : Sound sys) (divides : size ∣ 0x10000) (size_lt : size < 0x10000)
    {future : BlockTransferFuture} (posted : sys.tasks task = .posted future) :
    Sound (sys.publish task future) := by
  have locks : (sys.tasks task).locks = some future := by rw [posted]; rfl
  have entries_eq := sound.entries_publish divides size_lt posted
  have task_eq : (sys.publish task future).tasks task =
    .waiting { future with lastSeenUsed := sys.vq.lastSeenUsed } := Function.update_self ..
  have others : ∀ other, other ≠ task →
      (sys.publish task future).tasks other = sys.tasks other :=
    fun other ne => Function.update_of_ne ne ..
  have waits_ne : ∀ other second, (sys.tasks other).awaits = some second → other ≠ task := by
    rintro other second waits rfl
    rw [posted] at waits
    cases waits
  have unlocked : ∀ other second, ((sys.publish task future).tasks other).locks ≠ some second := by
    intro other second held
    by_cases same : other = task
    · rw [same, task_eq] at held
      cases held
    · rw [others other same] at held
      exact same (sound.task_of_locks locks held)
  refine ⟨?_, ?_, ?_⟩
  · simp only [System.publish, System.setTask, chains_update]
    exact sound.owners_publish posted _
  · simp only [System.publish, System.setTask, pages_update]
    rw [Function.update_eq_self_iff.mpr (by rw [posted]; rfl)]
    exact sound.paged
  · refine
      { avail_lt := Nat.mod_lt _ (by decide)
        next_lt := sound.tracked.next_lt
        entry := fun entry mem => ?_
        nodup := ?_
        early := fun other page held => ?_
        locked := fun other second held => absurd held (unlocked other second)
        posted := fun other second held => absurd (by rw [held]; rfl) (unlocked other second) }
    · rw [entries_eq] at mem
      rcases List.mem_append.mp mem with old | new
      · obtain ⟨other, second, rfl, waits, status⟩ := sound.tracked.entry entry old
        refine ⟨other, second, rfl, ?_, status⟩
        rw [others other (waits_ne other second waits)]
        exact waits
      · refine ⟨task, { future with lastSeenUsed := sys.vq.lastSeenUsed },
          List.mem_singleton.mp new, ?_, ?_⟩
        · rw [task_eq]
          rfl
        · exact sound.tracked.early task future.pagePhys (by rw [posted]; rfl)
    · rw [entries_eq]
      refine List.nodup_append.mpr ⟨sound.tracked.nodup, List.nodup_singleton _, ?_⟩
      rintro entry mem last last_mem rfl
      obtain ⟨other, second, rfl, waits, -⟩ := sound.tracked.entry entry mem
      obtain ⟨-, label_eq⟩ := Entry.mk.inj (List.mem_singleton.mp last_mem)
      exact waits_ne other second waits (Option.some.inj label_eq)
    · by_cases same : other = task
      · rw [same, task_eq] at held
        cases held
      · rw [others other same] at held
        exact sound.tracked.early other page held

theorem settle (sound : Sound sys) (size_le : size ≤ NO_DESC) {future : BlockTransferFuture}
    {status : Nat} {waker : ω} {next : System size τ ω}
    (checked : sys.tasks task = .checked future status waker)
    (settle_eq : sys.settle task future status waker = .ok next) : Sound next := by
  rw [System.settle] at settle_eq
  split at settle_eq
  next done =>
    cases settle_eq
    obtain ⟨free, owners⟩ := sound.owners
    have chain : (sys.tasks task).chain? = some future := by rw [checked]; rfl
    refine ⟨?_, ?_, ?_⟩
    · simp only [System.setTask, chains_update]
      exact owners.freeChain size_le chain
    · simp only [System.setTask, pages_update]
      rw [Function.update_eq_self_iff.mpr (by rw [checked]; rfl)]
      exact sound.paged
    · have tracked : Tracked { sys with
          vq := ((sys.vq.freeDesc future.d0).freeDesc future.d1).freeDesc future.d2 } :=
        { sound.tracked with }
      exact tracked.setTask (by simp [checked, Phase.awaits, done]) nofun nofun nofun
  next pending =>
    obtain rfl := not_not.mp pending
    obtain ⟨inside, done⟩ := guard_eq_ok.mp settle_eq
    cases done
    have tracked : Tracked { sys with vq := { sys.vq with
        wakers := Function.update sys.vq.wakers future.d0 (some waker) } } :=
      { sound.tracked with }
    have kept : Sound { sys with vq := { sys.vq with
        wakers := Function.update sys.vq.wakers future.d0 (some waker) } } :=
      ⟨sound.owners, sound.paged, tracked⟩
    refine kept.retask (by simp only [checked]; rfl) (by simp only [checked]; rfl) ?_
    refine tracked.setTask (fun second awaits _ => ?_) nofun nofun nofun
    simp only [checked] at awaits
    exact awaits

omit [DecidableEq τ] in
theorem consume (sound : Sound sys) (divides : size ∣ 0x10000) {next : System size τ ω}
    (consume_eq : sys.consume = .ok next) : Sound next := by
  rw [System.consume] at consume_eq
  split at consume_eq
  next => cases consume_eq
  next ne =>
    cases consume_eq
    have avail_lt := sound.tracked.avail_lt
    have next_lt := sound.tracked.next_lt
    have occupied : 0 < Ring.distance 0x10000 sys.vq.availIdx sys.device.nextAvail := by
      simp only [Ring.distance]
      split <;> omega
    have retreat := Ring.distance_retreat avail_lt next_lt occupied
    have entries_eq : System.entries { sys with device := { sys.device with
        nextAvail := wrappingNext sys.device.nextAvail
        working := sys.device.working ++
          [sys.vq.availRing (Fin.ofNat size sys.device.nextAvail)] } } = sys.entries := by
      simp only [System.entries, System.unconsumed, wrappingNext]
      rw [List.append_assoc, window_wrap divides, ← retreat, Ring.window_cons]
      rfl
    exact ⟨sound.owners, sound.paged, { sound.tracked with
      next_lt := Nat.mod_lt _ (by decide)
      entry := fun entry mem => sound.tracked.entry entry (entries_eq ▸ mem)
      nodup := entries_eq ▸ sound.tracked.nodup }⟩

omit [DecidableEq τ] in
/-- The chain of an entry the device has yet to finish. -/
theorem walk_entry (sound : Sound sys) {entry : Entry τ} (mem : entry ∈ sys.entries) :
    ∃ task future, entry = ⟨future.d0, some task⟩ ∧ (sys.tasks task).awaits = some future ∧
      walk sys.vq.desc size entry.id = future.descs ∧
      (sys.vq.desc future.d2).addr = future.pagePhys + 512 := by
  obtain ⟨free, owners⟩ := sound.owners
  obtain ⟨task, future, rfl, awaits, -⟩ := sound.tracked.entry entry mem
  have chain := Phase.chain_of_awaits awaits
  have intact := owners.intact task future chain
  have enough : 3 ≤ size := length_le_of_nodup (owners.chain_nodup task future chain)
    (owners.chain_lt task future chain)
  exact ⟨task, future, rfl, awaits, intact.walk_eq enough, intact.third.2⟩

theorem complete (sound : Sound sys) {entry : Entry τ} {status : DeviceStatus}
    {next : System size τ ω} (complete_eq : sys.complete entry status = .ok next) : Sound next := by
  rw [System.complete] at complete_eq
  split at complete_eq
  next last last_eq =>
    obtain ⟨working, done⟩ := guard_eq_ok.mp complete_eq
    cases done
    have mem : entry ∈ sys.entries := List.mem_append_left _ working
    obtain ⟨task, future, rfl, awaits, walk_eq, addr_eq⟩ := sound.walk_entry mem
    have page_eq := Phase.page_of_chain (Phase.chain_of_awaits awaits)
    rw [walk_eq] at last_eq
    obtain rfl : future.d2 = last := Option.some.inj last_eq
    -- the byte belongs to the request of this entry alone
    have kept : ∀ other page, other ≠ task → (sys.tasks other).page? = some page →
        Function.update sys.bytes (sys.vq.desc future.d2).addr status.code (page + 512) =
          sys.bytes (page + 512) := by
      intro other page ne held
      refine Function.update_of_ne (fun same => ne ?_) ..
      rw [addr_eq] at same
      obtain rfl : page = future.pagePhys := by omega
      exact sound.paged.apart other task _ held page_eq
    have nodup := sound.tracked.nodup
    have shorter : (sys.device.working.erase ⟨future.d0, some task⟩ ++ sys.unconsumed).Sublist
        sys.entries := List.Sublist.append List.erase_sublist (List.Sublist.refl _)
    have gone : (⟨future.d0, some task⟩ : Entry τ) ∉
        sys.device.working.erase ⟨future.d0, some task⟩ ++ sys.unconsumed := by
      rw [← List.erase_append_left _ working]
      exact nodup.not_mem_erase
    refine ⟨sound.owners, sound.paged, { sound.tracked with
      entry := fun other other_mem => ?_
      nodup := nodup.sublist shorter
      early := fun other page held => ?_ }⟩
    · obtain ⟨other_task, second, rfl, waits, byte⟩ :=
        sound.tracked.entry other (shorter.subset other_mem)
      refine ⟨other_task, second, rfl, waits, (kept other_task _ (fun same => gone ?_)
        (Phase.page_of_chain (Phase.chain_of_awaits waits))).trans byte⟩
      subst same
      cases awaits.symm.trans waits
      exact other_mem
    · obtain ⟨held_page, not_awaits⟩ := Phase.page_of_early held
      refine (kept other page (fun same => ?_) held_page).trans
        (sound.tracked.early other page held)
      subst same
      cases not_awaits.symm.trans awaits
  next => cases complete_eq

theorem giveBack (sound : Sound sys) {entry : Entry τ} {next : System size τ ω}
    (give_eq : sys.giveBack entry = .ok next) : Sound next := by
  obtain ⟨-, done⟩ := guard_eq_ok.mp give_eq
  cases done
  exact ⟨sound.owners, sound.paged, { sound.tracked with }⟩

omit [DecidableEq τ] in
theorem takeWaker (sound : Sound sys) (entry : Entry τ) : Sound (sys.takeWaker entry).2 := by
  rw [System.takeWaker]
  split
  next => exact ⟨sound.owners, sound.paged, { sound.tracked with }⟩
  next => exact sound

omit [DecidableEq τ] in
/-- The poll thread touches neither descriptors nor the available ring. -/
theorem threadStep (sound : Sound sys) {next : System size τ ω}
    (thread_eq : sys.threadStep = .ok next) : Sound next := by
  have kept : ∀ other : System size τ ω, Sound other → ∀ thread lastSeen,
      Sound { other with
        vq := { other.vq with lastSeenUsed := lastSeen }
        thread := thread } :=
    fun other sound _ _ => ⟨sound.owners, sound.paged, { sound.tracked with }⟩
  rcases threadStep_cases thread_eq with
    ⟨thread, lastSeen, -, -, rfl⟩ | ⟨lastSeen, currentUsed, -, rfl⟩ |
      ⟨lastSeen, currentUsed, entry, -, rfl⟩ | ⟨lastSeen, currentUsed, entry, waker, -, rfl⟩
  · exact kept sys sound _ _
  · exact kept sys sound _ _
  · exact kept _ (sound.takeWaker entry) _ _
  · exact kept sys sound _ _

theorem step (sound : Sound sys) (divides : size ∣ 0x10000) (size_lt : size < 0x10000)
    {event : Event τ ω} {next : System size τ ω} (fresh : FreshPage sys event)
    (step_eq : Virtio.step sys event = .ok next) : Sound next := by
  have size_le : size ≤ NO_DESC := Nat.le_of_lt_succ size_lt
  cases event with
  | transfer task request page =>
      simp only [Virtio.step] at step_eq
      split at step_eq
      next idle =>
        cases step_eq
        exact sound.transfer idle fresh
      next => cases step_eq
  | reserve task =>
      simp only [Virtio.step] at step_eq
      split at step_eq
      next prepared unlocked =>
        cases step_eq
        exact sound.reserve prepared unlocked
      next => cases step_eq
  | post task =>
      simp only [Virtio.step] at step_eq
      split at step_eq
      next reserved =>
        cases step_eq
        exact sound.post divides reserved
      next => cases step_eq
  | publish task =>
      simp only [Virtio.step] at step_eq
      split at step_eq
      next posted =>
        cases step_eq
        exact sound.publish divides size_lt posted
      next => cases step_eq
  | check task waker =>
      simp only [Virtio.step] at step_eq
      split at step_eq
      next waiting =>
        cases step_eq
        exact sound.check waker waiting
      next => cases step_eq
  | settle task =>
      simp only [Virtio.step] at step_eq
      split at step_eq
      next checked unlocked => exact sound.settle size_le checked step_eq
      next => cases step_eq
  | release task =>
      simp only [Virtio.step] at step_eq
      split at step_eq
      next freed =>
        cases step_eq
        exact sound.release freed
      next => cases step_eq
  | consume => exact sound.consume divides step_eq
  | complete entry status => exact sound.complete step_eq
  | giveBack entry => exact sound.giveBack step_eq
  | thread => exact sound.threadStep step_eq

omit [DecidableEq τ] in
theorem boot (boot : Boot sys) (size_le : size ≤ NO_DESC) : Sound sys := by
  have entries_eq : sys.entries = [] := by
    rw [System.entries, System.unconsumed, boot.device_eq, boot.vq_eq]
    rfl
  refine ⟨?_, ?_, ?_⟩
  · simp only [boot.vq_eq, boot.tasks_eq, Phase.chain?]
    exact Owners.setup size_le
  · simp only [boot.tasks_eq, Phase.page?]
    exact ⟨nofun, nofun⟩
  · refine ⟨?_, ?_, ?_, ?_, ?_, ?_, ?_⟩
    · rw [boot.vq_eq]
      exact Nat.two_pow_pos 16
    · rw [boot.device_eq]
      exact Nat.two_pow_pos 16
    · rw [entries_eq]
      nofun
    · rw [entries_eq]
      exact List.nodup_nil
    · simp [boot.tasks_eq, Phase.early]
    · simp [boot.tasks_eq, Phase.locks]
    · simp [boot.tasks_eq]

end Sound

/-- The promise about the queue's descriptors and its available ring. -/
structure OneOwner (sys : System size τ ω) : Prop where
  distinct : ∀ task future, (sys.tasks task).chain? = some future → future.descs.Nodup
  one_chain : ∀ left right first second, (sys.tasks left).chain? = some first →
    (sys.tasks right).chain? = some second → ∀ idx ∈ first.descs, idx ∈ second.descs → left = right
  free_list : ∃ free, Threaded (fun idx => (sys.vq.desc idx).next) NO_DESC sys.vq.freeHead free ∧
    free.Nodup ∧ ∀ task future, (sys.tasks task).chain? = some future →
      ∀ idx ∈ future.descs, idx ∉ free
  /-- The device finds exactly the three descriptors of one request. -/
  whole : ∀ entry ∈ sys.entries, ∃ task future, (sys.tasks task).chain? = some future ∧
    walk sys.vq.desc size entry.id = future.descs
  /-- The slot that is about to be written is none the device has yet to read. -/
  slot_read : ∀ task future, sys.tasks task = .reserved future →
    ∀ offset < Ring.distance 0x10000 sys.vq.availIdx sys.device.nextAvail,
      Fin.ofNat size (sys.device.nextAvail + offset) ≠ Fin.ofNat size sys.vq.availIdx

omit [DecidableEq τ] in
theorem Sound.oneOwner (sound : Sound sys) (divides : size ∣ 0x10000) : OneOwner sys := by
  obtain ⟨free, owners⟩ := sound.owners
  refine
    { distinct := owners.chain_nodup
      one_chain := owners.apart
      free_list := ⟨free, owners.threaded, owners.threaded.nodup, owners.not_free⟩
      whole := fun entry mem => ?_
      slot_read := fun task future reserved offset lt same => ?_ }
  · obtain ⟨task, future, -, awaits, walk_eq, -⟩ := sound.walk_entry mem
    exact ⟨task, future, Phase.chain_of_awaits awaits, walk_eq⟩
  · have locks : (sys.tasks task).locks = some future := by rw [reserved]; rfl
    have room := sound.unconsumed_lt locks
    rw [← sound.slot_eq divides] at same
    exact lt.ne (Ring.offset_eq (lt.trans room) room same)

omit [NeZero size] in
theorem size_dvd (power : ∃ exponent, size = 2 ^ exponent) (fits : size < 0x10000) :
    size ∣ 0x10000 := by
  obtain ⟨exponent, size_eq⟩ := power
  have lt : 2 ^ exponent < 2 ^ 16 := size_eq ▸ fits
  rw [size_eq]
  exact Nat.pow_dvd_pow 2 (Nat.le_of_lt ((Nat.pow_lt_pow_iff_right (by decide)).mp lt))

/-- In every run with a queue whose size is a power of two, every descriptor has one owner, the
free list ends, the device finds whole chains, and no available entry is overwritten before it was
read. -/
theorem descriptors_have_one_owner (power : ∃ exponent, size = 2 ^ exponent)
    (fits : size < 0x10000) {final : System size τ ω} {events : List (Event τ ω)}
    (boot : Boot sys) (permits : machine.Permits sys events)
    (run_eq : machine.run sys events = .ok final) : OneOwner final := by
  have divides := size_dvd power fits
  have keeps : ∀ (sys : System size τ ω) event next, Sound sys → FreshPage sys event →
      machine.step sys event = .ok next → Sound next :=
    fun sys event next sound fresh step_eq => sound.step divides fits fresh step_eq
  have sound := machine.run_keeps keeps (Sound.boot boot (Nat.le_of_lt_succ fits)) permits run_eq
  exact sound.oneOwner divides

/-- A queue of eight descriptors, and two tasks. -/
def pairQueue : System 8 Bool Unit where
  vq := vqSetup
  holder := none
  tasks _ := .idle
  headers _ := ⟨0, 0, 0⟩
  bytes _ := 0
  device := ⟨0, [], []⟩
  thread := .boot

/-- Both tasks get a page. -/
def pairTransfers : List (Event Bool Unit) :=
  [.transfer false ⟨8, 1, 0x9000, false⟩ 0x5000, .transfer true ⟨16, 1, 0xB000, true⟩ 0x7000]

/-- The device finishes the second request first, and its chain is freed. -/
def pairRun : List (Event Bool Unit) :=
  [.reserve false, .post false, .publish false, .reserve true, .post true, .publish true,
    .consume, .consume, .complete ⟨3, some true⟩ .ok, .giveBack ⟨3, some true⟩,
    .complete ⟨0, some false⟩ .ok, .giveBack ⟨0, some false⟩, .thread, .thread, .thread, .thread,
    .check true (), .settle true, .release true]

/-- The first request still has its chain. -/
theorem descriptors_have_one_owner_pair :
    ∃ final, machine.run pairQueue (pairTransfers ++ pairRun) = .ok final ∧
      final.tasks true = .ready true ∧ final.tasks false = .waiting ⟨0, 1, 2, 0x5000, 0⟩ ∧
      final.vq.freeHead = 5 ∧ OneOwner final := by
  obtain ⟨final, run_eq, ready, waiting, head_eq⟩ : ∃ final,
      machine.run pairQueue (pairTransfers ++ pairRun) = .ok final ∧
        final.tasks true = .ready true ∧ final.tasks false = .waiting ⟨0, 1, 2, 0x5000, 0⟩ ∧
        final.vq.freeHead = 5 := ⟨_, rfl, rfl, rfl, rfl⟩
  have boot : Boot pairQueue := ⟨rfl, rfl, fun _ => rfl, rfl, rfl⟩
  have permits : machine.Permits pairQueue (pairTransfers ++ pairRun) := by
    refine machine.permits_cons (fun _ => ⟨by decide, by rintro (_ | _) ⟨⟩⟩) rfl ?_
    refine machine.permits_cons (fun _ => ⟨by decide, by rintro (_ | _) ⟨⟩⟩) rfl ?_
    refine Machine.permits_of_mem _ _ ?_
    simp [machine, FreshPage, pairRun]
  exact ⟨final, run_eq, ready, waiting, head_eq,
    descriptors_have_one_owner ⟨3, rfl⟩ (by decide) boot permits run_eq⟩

end Vespertine.Virtio
