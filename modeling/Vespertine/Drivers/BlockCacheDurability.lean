import Vespertine.Drivers.BlockCacheCoherence

/-!
# Durability of the block cache

A slot may forget that it is dirty only when the device holds its data.  `flush` clears the flag of
every slot that is dirty at its end, not of those whose data it wrote: a block stored while the
flush waits for the device is marked clean and lost by the next eviction.  A hit that stores into a
slot whose write-back has begun is lost in the same way.

Runs in which neither happens, and that are orderly, lose nothing: what was stored last in a block
is in its slot, and on the device if the slot is clean or the block is not in the cache.
-/

namespace Vespertine
namespace BlockCache

variable {slots spb : Nat} {Sector τ : Type}

/-- The sectors of a block have 64-bit numbers. -/
def Fits (spb blockId : Nat) : Prop := (blockId + 1) * spb ≤ wordSize

section Device

variable {disk : Nat → Sector} {blockId other : Nat} {data : Fin spb → Sector}

theorem startSector_eq (fits : Fits spb blockId) (positive : 0 < spb) :
    startSector spb blockId = blockId * spb := by
  refine Nat.mod_eq_of_lt (Nat.lt_of_lt_of_le ?_ fits)
  rw [Nat.add_one_mul]
  omega

@[simp] theorem read_written (disk : Nat → Sector) (blockId : Nat) (data : Fin spb → Sector) :
    readSectors (writeSectors disk blockId data) blockId = data := by
  funext offset
  rw [readSectors, writeSectors, dif_pos ⟨Nat.le_add_right _ _, by omega⟩]
  congr
  exact Nat.add_sub_cancel_left _ _

/-- The sectors of different blocks are different. -/
theorem read_other (fits : Fits spb blockId) (other_fits : Fits spb other) (ne : other ≠ blockId) :
    (readSectors (writeSectors disk blockId data) other : Fin spb → Sector) =
      readSectors disk other := by
  funext offset
  have positive : 0 < spb := Nat.zero_lt_of_lt offset.isLt
  refine dif_neg ?_
  rw [startSector_eq fits positive, startSector_eq other_fits positive]
  rintro ⟨after_start, before_end⟩
  have offset_lt := offset.isLt
  rcases Nat.lt_or_gt_of_ne ne with below | above
  · have gap : (other + 1) * spb ≤ blockId * spb := Nat.mul_le_mul_right spb below
    rw [Nat.add_one_mul] at gap
    omega
  · have gap : (blockId + 1) * spb ≤ other * spb := Nat.mul_le_mul_right spb above
    rw [Nat.add_one_mul] at gap
    omega

/-- Writing what was stored last keeps what the device already holds. -/
theorem read_kept {logical : Nat → Fin spb → Sector} (fits : Fits spb blockId)
    (other_fits : Fits spb other) (data_eq : data = logical blockId)
    (holds : readSectors disk other = logical other) :
    readSectors (writeSectors disk blockId data) other = logical other := by
  by_cases same : other = blockId
  · subst same
    rw [read_written, data_eq]
  · rw [read_other fits other_fits same, holds]

end Device

/-- The block that a task was called for and has not tagged yet. -/
def Phase.requested {Block : Type} : Phase slots Block → Option Nat
  | .lookup request | .hit request _ | .miss request | .victim request _ | .writeBack request ..
  | .written request _ | .retag request _ => some request.blockId
  | .idle | .fetching .. | .fetched .. | .snapshot | .flushing _ | .returned _ => none

/-- The slot that a task has reserved. -/
def Phase.owned {Block : Type} : Phase slots Block → Option (Fin slots)
  | .victim _ slot | .writeBack _ slot .. | .written _ slot | .retag _ slot | .fetching _ slot
  | .fetched _ slot => some slot
  | .idle | .lookup _ | .hit .. | .miss _ | .snapshot | .flushing _ | .returned _ => none

/-- What was stored last in each block is in its slot or on the device. -/
structure Backed (inner : BlockCacheInner slots (Fin spb → Sector)) (disk : Nat → Sector)
    (logical : Nat → Fin spb → Sector) : Prop where
  fits : ∀ slot blockId, (inner.entries slot).blockId = some blockId → Fits spb blockId
  /-- A dirty slot holds a block. -/
  tagged : ∀ slot, (inner.entries slot).dirty = true → (inner.entries slot).blockId ≠ none
  /-- A slot that is dirty or not in flight has its block's data. -/
  current : ∀ slot blockId, (inner.entries slot).blockId = some blockId →
    (inner.entries slot).dirty = true ∨ (inner.entries slot).inFlight = false →
    (inner.entries slot).data = logical blockId
  /-- The device has the data of a clean slot's block. -/
  clean : ∀ slot blockId, (inner.entries slot).blockId = some blockId →
    (inner.entries slot).dirty = false → readSectors disk blockId = logical blockId
  /-- And that of a block that is in no slot. -/
  absent : ∀ blockId, Fits spb blockId → (∀ slot, (inner.entries slot).blockId ≠ some blockId) →
    readSectors disk blockId = logical blockId

/-- What a phase relies on. -/
def Settled (inner : BlockCacheInner slots (Fin spb → Sector)) (disk : Nat → Sector)
    (logical : Nat → Fin spb → Sector) : Phase slots (Fin spb → Sector) → Prop
  | .writeBack _ slot oldBlock oldData =>
      (inner.entries slot).blockId = some oldBlock ∧ oldData = logical oldBlock
  | .written _ slot => ∃ oldBlock, (inner.entries slot).blockId = some oldBlock ∧
      readSectors disk oldBlock = logical oldBlock
  | .retag _ slot => (inner.entries slot).dirty = false
  | .fetching blockId slot =>
      (inner.entries slot).blockId = some blockId ∧ (inner.entries slot).dirty = false
  | .fetched blockId slot => (inner.entries slot).blockId = some blockId ∧
      (inner.entries slot).dirty = false ∧ (inner.entries slot).data = logical blockId
  | .flushing rest =>
      (∀ entry ∈ rest, Fits spb entry.1 ∧ entry.2 = logical entry.1) ∧
        ∀ slot blockId, (inner.entries slot).blockId = some blockId →
          (inner.entries slot).dirty = true → (inner.entries slot).inFlight = false →
          readSectors disk blockId = logical blockId ∨ ∃ entry ∈ rest, entry.1 = blockId
  | .idle | .lookup _ | .hit .. | .miss _ | .victim .. | .snapshot | .returned _ => True

/-- An orderly cache that loses nothing. -/
structure Durable (state : State slots spb Sector τ) : Prop extends Orderly state where
  backed : Backed state.inner state.disk state.logical
  requestFits : ∀ task blockId, (state.tasks task).requested = some blockId → Fits spb blockId
  /-- A reserved slot is in flight. -/
  reserved : ∀ task slot, (state.tasks task).owned = some slot →
    (state.inner.entries slot).inFlight = true
  /-- And reserved by one task. -/
  unshared : ∀ left right slot, (state.tasks left).owned = some slot →
    (state.tasks right).owned = some slot → left = right
  settled : ∀ task, Settled state.inner state.disk state.logical (state.tasks task)

/-- A call names a block that the device can have. -/
def CallFits (spb : Nat) : Event τ (Fin spb → Sector) → Prop
  | .call _ (.request request) => Fits spb request.blockId
  | .call _ .flush | .advance _ | .complete .. => True

/-- A hit stores only into a slot that is not in flight. -/
def StoresSettled (state : State slots spb Sector τ) : Event τ (Fin spb → Sector) → Prop
  | .advance task => ∀ blockId src slot, state.tasks task = .hit (.write blockId src) slot →
      (state.inner.entries slot).inFlight = false
  | .call .. | .complete .. => True

/-- Nothing is stored while a flush waits for the device. -/
def FlushUndisturbed (state : State slots spb Sector τ) : Event τ (Fin spb → Sector) → Prop
  | .advance task => ∀ blockId src slot, state.tasks task = .hit (.write blockId src) slot ∨
      state.tasks task = .retag (.write blockId src) slot →
      ∀ other rest, state.tasks other ≠ .flushing rest
  | .call .. | .complete .. => True

/-- Nobody flushes while a task on its own stores. -/
theorem flushUndisturbed_of_subsingleton [Subsingleton τ] (state : State slots spb Sector τ)
    (event : Event τ (Fin spb → Sector)) : FlushUndisturbed state event := by
  cases event with
  | advance task =>
      intro blockId src slot phase other rest flushing
      rw [Subsingleton.elim other task] at flushing
      rcases phase with phase | phase
      · exact absurd (phase.symm.trans flushing) nofun
      · exact absurd (phase.symm.trans flushing) nofun
  | call _ _ | complete _ _ => trivial

section Frames

variable {inner after : BlockCacheInner slots (Fin spb → Sector)} {disk : Nat → Sector}
  {logical : Nat → Fin spb → Sector} {phase : Phase slots (Fin spb → Sector)}

theorem Refreshed.fields {Block : Type} {inner after : BlockCacheInner slots Block}
    (refreshed : Refreshed inner after) (slot : Fin slots) :
    (after.entries slot).dirty = (inner.entries slot).dirty ∧
      (after.entries slot).inFlight = (inner.entries slot).inFlight ∧
      (after.entries slot).data = (inner.entries slot).data := by
  obtain ⟨referenced, entry_eq⟩ := refreshed slot
  rw [entry_eq]
  exact ⟨rfl, rfl, rfl⟩

/-- Referenced bits do not matter. -/
theorem Backed.refreshed (backed : Backed inner disk logical)
    (refreshed : Refreshed inner after) : Backed after disk logical := by
  have tag_eq := refreshed.blockId
  have dirty_eq (slot : Fin slots) := (refreshed.fields slot).1
  have flight_eq (slot : Fin slots) := (refreshed.fields slot).2.1
  have data_eq (slot : Fin slots) := (refreshed.fields slot).2.2
  constructor
  · intro slot blockId
    rw [tag_eq]
    exact backed.fits slot blockId
  · intro slot
    rw [tag_eq, dirty_eq]
    exact backed.tagged slot
  · intro slot blockId
    rw [tag_eq, dirty_eq, flight_eq, data_eq]
    exact backed.current slot blockId
  · intro slot blockId
    rw [tag_eq, dirty_eq]
    exact backed.clean slot blockId
  · intro blockId fits missing
    refine backed.absent blockId fits fun slot => ?_
    rw [← tag_eq]
    exact missing slot

theorem Settled.refreshed (settled : Settled inner disk logical phase)
    (refreshed : Refreshed inner after) : Settled after disk logical phase := by
  have tag_eq := refreshed.blockId
  have dirty_eq (slot : Fin slots) := (refreshed.fields slot).1
  have flight_eq (slot : Fin slots) := (refreshed.fields slot).2.1
  have data_eq (slot : Fin slots) := (refreshed.fields slot).2.2
  cases phase with
  | writeBack _ _ _ _ | written _ _ | retag _ _ | fetching _ _ | fetched _ _ | flushing _ =>
      simpa only [Settled, tag_eq, dirty_eq, flight_eq, data_eq] using settled
  | idle | lookup _ | hit _ _ | miss _ | victim _ _ | snapshot | returned _ => trivial

/-- A change of one slot is backed if the new entry is, and the block that leaves the slot, if any,
is on the device. -/
theorem Backed.modify {slot : Fin slots} {entry : CacheEntry (Fin spb → Sector)}
    {change : CacheEntry (Fin spb → Sector) → CacheEntry (Fin spb → Sector)}
    (backed : Backed inner disk logical) (entry_eq : change (inner.entries slot) = entry)
    (fits : ∀ blockId, entry.blockId = some blockId → Fits spb blockId)
    (tagged : entry.dirty = true → entry.blockId ≠ none)
    (current : ∀ blockId, entry.blockId = some blockId →
      entry.dirty = true ∨ entry.inFlight = false → entry.data = logical blockId)
    (clean : ∀ blockId, entry.blockId = some blockId → entry.dirty = false →
      readSectors disk blockId = logical blockId)
    (leaves : ∀ blockId, (inner.entries slot).blockId = some blockId →
      entry.blockId ≠ some blockId → readSectors disk blockId = logical blockId) :
    Backed (inner.modify slot change) disk logical := by
  have own : (inner.modify slot change).entries slot = entry := by
    rw [entries_modify_same, entry_eq]
  have others (other : Fin slots) (ne : other ≠ slot) :
      (inner.modify slot change).entries other = inner.entries other :=
    entries_modify_other ne change
  refine ⟨fun other blockId => ?_, fun other => ?_, fun other blockId => ?_,
    fun other blockId => ?_, fun blockId block_fits missing => ?_⟩
  · by_cases same : other = slot
    · rw [same, own]
      exact fits blockId
    · rw [others other same]
      exact backed.fits other blockId
  · by_cases same : other = slot
    · rw [same, own]
      exact tagged
    · rw [others other same]
      exact backed.tagged other
  · by_cases same : other = slot
    · rw [same, own]
      exact current blockId
    · rw [others other same]
      exact backed.current other blockId
  · by_cases same : other = slot
    · rw [same, own]
      exact clean blockId
    · rw [others other same]
      exact backed.clean other blockId
  · by_cases was_here : (inner.entries slot).blockId = some blockId
    · refine leaves blockId was_here ?_
      rw [← own]
      exact missing slot
    · refine backed.absent blockId block_fits fun other => ?_
      by_cases same : other = slot
      · rw [same]
        exact was_here
      · rw [← others other same]
        exact missing other

/-- A phase does not rely on slots that other tasks have reserved. -/
theorem Settled.modify {slot : Fin slots}
    {change : CacheEntry (Fin spb → Sector) → CacheEntry (Fin spb → Sector)}
    (settled : Settled inner disk logical phase) (free : phase.owned ≠ some slot)
    (cover : (change (inner.entries slot)).dirty = true →
      (change (inner.entries slot)).inFlight = false →
        (inner.entries slot).dirty = true ∧ (inner.entries slot).inFlight = false ∧
          (change (inner.entries slot)).blockId = (inner.entries slot).blockId) :
    Settled (inner.modify slot change) disk logical phase := by
  have others (other : Fin slots) (ne : other ≠ slot) :
      (inner.modify slot change).entries other = inner.entries other :=
    entries_modify_other ne change
  have own : (inner.modify slot change).entries slot = change (inner.entries slot) :=
    entries_modify_same ..
  have apart {other : Fin slots} (owned : phase.owned = some other) : other ≠ slot :=
    fun same => free (same ▸ owned)
  cases phase with
  | writeBack _ other _ _ | written _ other | retag _ other | fetching _ other | fetched _ other =>
      simp only [Settled, others other (apart rfl)] at settled ⊢
      exact settled
  | flushing rest =>
      refine ⟨settled.1, fun other blockId tag dirty ready => ?_⟩
      by_cases same : other = slot
      · rw [same, own] at tag dirty ready
        obtain ⟨was_dirty, was_ready, tag_eq⟩ := cover dirty ready
        exact settled.2 slot blockId (tag_eq ▸ tag) was_dirty was_ready
      · rw [others other same] at tag dirty ready
        exact settled.2 other blockId tag dirty ready
  | idle | lookup _ | hit _ _ | miss _ | victim _ _ | snapshot | returned _ => trivial

/-- Writing what was stored last to the device keeps everything backed. -/
theorem Backed.writeSectors {blockId : Nat} {data : Fin spb → Sector}
    (backed : Backed inner disk logical) (fits : Fits spb blockId)
    (data_eq : data = logical blockId) :
    Backed inner (writeSectors disk blockId data) logical where
  fits := backed.fits
  tagged := backed.tagged
  current := backed.current
  clean slot other tag clean :=
    read_kept fits (backed.fits slot other tag) data_eq (backed.clean slot other tag clean)
  absent other other_fits missing :=
    read_kept fits other_fits data_eq (backed.absent other other_fits missing)

theorem Settled.writeSectors {blockId : Nat} {data : Fin spb → Sector}
    (settled : Settled inner disk logical phase) (backed : Backed inner disk logical)
    (fits : Fits spb blockId) (data_eq : data = logical blockId) :
    Settled inner (writeSectors disk blockId data) logical phase := by
  cases phase with
  | written _ slot =>
      obtain ⟨oldBlock, tag, holds⟩ := settled
      exact ⟨oldBlock, tag, read_kept fits (backed.fits slot oldBlock tag) data_eq holds⟩
  | flushing rest =>
      refine ⟨settled.1, fun slot other tag dirty ready => ?_⟩
      exact (settled.2 slot other tag dirty ready).imp_left
        (read_kept fits (backed.fits slot other tag) data_eq)
  | writeBack _ _ _ _ | retag _ _ | fetching _ _ | fetched _ _ => exact settled
  | idle | lookup _ | hit _ _ | miss _ | victim _ _ | snapshot | returned _ => trivial

/-- Storing a block in a slot, where no other slot has it. -/
theorem Backed.store {slot : Fin slots} {entry : CacheEntry (Fin spb → Sector)} {blockId : Nat}
    {change : CacheEntry (Fin spb → Sector) → CacheEntry (Fin spb → Sector)}
    (backed : Backed inner disk logical) (entry_eq : change (inner.entries slot) = entry)
    (tag : entry.blockId = some blockId) (dirty : entry.dirty = true) (fits : Fits spb blockId)
    (alone : ∀ other, other ≠ slot → (inner.entries other).blockId ≠ some blockId)
    (leaves : ∀ oldBlock, (inner.entries slot).blockId = some oldBlock → oldBlock ≠ blockId →
      readSectors disk oldBlock = logical oldBlock) :
    Backed (inner.modify slot change) disk (Function.update logical blockId entry.data) := by
  have own : (inner.modify slot change).entries slot = entry := by
    rw [entries_modify_same, entry_eq]
  have others (other : Fin slots) (ne : other ≠ slot) :
      (inner.modify slot change).entries other = inner.entries other :=
    entries_modify_other ne change
  have kept {other : Fin slots} {block : Nat} (ne : other ≠ slot)
      (held : (inner.entries other).blockId = some block) :
      Function.update logical blockId entry.data block = logical block :=
    Function.update_of_ne (fun same : block = blockId => alone other ne (same ▸ held)) ..
  refine ⟨fun other block => ?_, fun other => ?_, fun other block => ?_, fun other block => ?_,
    fun block block_fits missing => ?_⟩
  · by_cases same : other = slot
    · rw [same, own, tag]
      rintro ⟨⟩
      exact fits
    · rw [others other same]
      exact backed.fits other block
  · by_cases same : other = slot
    · rw [same, own, tag]
      nofun
    · rw [others other same]
      exact backed.tagged other
  · by_cases same : other = slot
    · rw [same, own, tag]
      rintro ⟨⟩ -
      rw [Function.update_self]
    · rw [others other same]
      intro held
      rw [kept same held]
      exact backed.current other block held
  · by_cases same : other = slot
    · rw [same, own, dirty]
      nofun
    · rw [others other same]
      intro held
      rw [kept same held]
      exact backed.clean other block held
  · have block_ne : block ≠ blockId := by
      rintro rfl
      exact missing slot (by rw [own, tag])
    rw [Function.update_of_ne block_ne]
    by_cases was_here : (inner.entries slot).blockId = some block
    · exact leaves block was_here block_ne
    · refine backed.absent block block_fits fun other => ?_
      by_cases same : other = slot
      · rw [same]
        exact was_here
      · rw [← others other same]
        exact missing other

/-- A phase other than a flush does not rely on a slot that its task has not reserved. -/
theorem Settled.store {slot : Fin slots} {blockId : Nat} {src : Fin spb → Sector}
    {change : CacheEntry (Fin spb → Sector) → CacheEntry (Fin spb → Sector)}
    (settled : Settled inner disk logical phase) (no_flush : ∀ rest, phase ≠ .flushing rest)
    (free : phase.owned ≠ some slot)
    (alone : ∀ other, other ≠ slot → (inner.entries other).blockId ≠ some blockId) :
    Settled (inner.modify slot change) disk (Function.update logical blockId src) phase := by
  have others (other : Fin slots) (ne : other ≠ slot) :
      (inner.modify slot change).entries other = inner.entries other :=
    entries_modify_other ne change
  have kept {other : Fin slots} {block : Nat} (ne : other ≠ slot)
      (held : (inner.entries other).blockId = some block) :
      Function.update logical blockId src block = logical block :=
    Function.update_of_ne (fun same : block = blockId => alone other ne (same ▸ held)) ..
  have apart {other : Fin slots} (owned : phase.owned = some other) : other ≠ slot :=
    fun same => free (same ▸ owned)
  cases phase with
  | writeBack _ other oldBlock _ =>
      rw [Settled, others other (apart rfl), kept (apart rfl) settled.1]
      exact settled
  | written _ other =>
      obtain ⟨oldBlock, tag, holds⟩ := settled
      refine ⟨oldBlock, ?_, ?_⟩
      · rw [others other (apart rfl)]
        exact tag
      · rw [kept (apart rfl) tag]
        exact holds
  | retag _ other | fetching _ other =>
      rw [Settled, others other (apart rfl)]
      exact settled
  | fetched _ other =>
      rw [Settled, others other (apart rfl), kept (apart rfl) settled.1]
      exact settled
  | flushing rest => exact absurd rfl (no_flush rest)
  | idle | lookup _ | hit _ _ | miss _ | victim _ _ | snapshot | returned _ => trivial

/-- What a flush collects was stored last, and is all that is dirty and not in flight. -/
theorem settled_dirtyEntries (backed : Backed inner disk logical) :
    Settled inner disk logical (.flushing inner.dirtyEntries) := by
  constructor
  · intro entry mem
    obtain ⟨slot, -, entry_eq⟩ := List.mem_filterMap.mp mem
    dsimp only at entry_eq
    split_ifs at entry_eq with dirty
    obtain ⟨blockId, tag, rfl⟩ := Option.map_eq_some_iff.mp entry_eq
    rw [Bool.and_eq_true] at dirty
    exact ⟨backed.fits slot blockId tag, backed.current slot blockId tag (.inl dirty.1)⟩
  · intro slot blockId tag dirty ready
    refine .inr ⟨(blockId, (inner.entries slot).data), ?_, rfl⟩
    refine List.mem_filterMap.mpr ⟨slot, List.mem_finRange slot, ?_⟩
    simp [dirty, ready, tag]

theorem clearDirty_fields {Block : Type} (inner : BlockCacheInner slots Block) (slot : Fin slots) :
    (inner.clearDirty.entries slot).dirty =
        ((inner.entries slot).dirty && (inner.entries slot).inFlight) ∧
      (inner.clearDirty.entries slot).inFlight = (inner.entries slot).inFlight ∧
      (inner.clearDirty.entries slot).data = (inner.entries slot).data := by
  rw [BlockCacheInner.clearDirty]
  cases dirty : (inner.entries slot).dirty <;> cases flying : (inner.entries slot).inFlight <;>
    simp [dirty, flying]

/-- The flags of slots that are not in flight may be cleared when the device has their data. -/
theorem Backed.clearDirty (backed : Backed inner disk logical)
    (flushed : Settled inner disk logical (.flushing [])) :
    Backed inner.clearDirty disk logical := by
  have tag_eq := clearDirty_blockId inner
  have dirty_eq (slot : Fin slots) := (clearDirty_fields inner slot).1
  have flight_eq (slot : Fin slots) := (clearDirty_fields inner slot).2.1
  have data_eq (slot : Fin slots) := (clearDirty_fields inner slot).2.2
  constructor
  · intro slot blockId
    rw [tag_eq]
    exact backed.fits slot blockId
  · intro slot
    rw [tag_eq, dirty_eq, Bool.and_eq_true]
    exact fun both => backed.tagged slot both.1
  · intro slot blockId
    rw [tag_eq, dirty_eq, flight_eq, data_eq, Bool.and_eq_true]
    exact fun tag state => backed.current slot blockId tag (state.imp_left And.left)
  · intro slot blockId
    rw [tag_eq, dirty_eq, Bool.and_eq_false_iff]
    intro tag clean
    cases dirty : (inner.entries slot).dirty with
    | false => exact backed.clean slot blockId tag dirty
    | true =>
        have ready := clean.resolve_left (by rw [dirty]; nofun)
        exact (flushed.2 slot blockId tag dirty ready).resolve_right (by simp)
  · intro blockId fits missing
    refine backed.absent blockId fits fun slot => ?_
    rw [← tag_eq]
    exact missing slot

theorem Settled.clearDirty (settled : Settled inner disk logical phase) :
    Settled inner.clearDirty disk logical phase := by
  have tag_eq := clearDirty_blockId inner
  have dirty_eq (slot : Fin slots) := (clearDirty_fields inner slot).1
  have flight_eq (slot : Fin slots) := (clearDirty_fields inner slot).2.1
  have data_eq (slot : Fin slots) := (clearDirty_fields inner slot).2.2
  cases phase with
  | writeBack _ _ _ _ | written _ _ =>
      simpa only [Settled, tag_eq] using settled
  | retag _ slot =>
      rw [Settled, dirty_eq, show (inner.entries slot).dirty = false from settled, Bool.false_and]
  | fetching _ slot =>
      obtain ⟨tag, clean⟩ := settled
      exact ⟨(tag_eq slot).trans tag, by rw [dirty_eq, clean, Bool.false_and]⟩
  | fetched _ slot =>
      obtain ⟨tag, clean, data⟩ := settled
      exact ⟨(tag_eq slot).trans tag, by rw [dirty_eq, clean, Bool.false_and],
        (data_eq slot).trans data⟩
  | flushing rest =>
      refine ⟨settled.1, fun slot blockId tag dirty ready => ?_⟩
      rw [dirty_eq, Bool.and_eq_true] at dirty
      rw [flight_eq, dirty.2] at ready
      cases ready
  | idle | lookup _ | hit _ _ | miss _ | victim _ _ | snapshot | returned _ => trivial

end Frames

section Steps

variable [DecidableEq τ] {state base after : State slots spb Sector τ} {task : τ}
  {phase : Phase slots (Fin spb → Sector)}

/-- What a move of one task has to show. -/
theorem Durable.move (durable : Durable state) (tasks_eq : base.tasks = state.tasks)
    (orderly : Orderly (base.enter task phase))
    (backed : Backed base.inner base.disk base.logical)
    (fits : ∀ blockId, phase.requested = some blockId → Fits spb blockId)
    (own : ∀ slot, phase.owned = some slot → (base.inner.entries slot).inFlight = true ∧
      ∀ other, other ≠ task → (state.tasks other).owned ≠ some slot)
    (others : ∀ other, other ≠ task → ∀ slot, (state.tasks other).owned = some slot →
      (base.inner.entries slot).inFlight = true)
    (settled : Settled base.inner base.disk base.logical phase)
    (undisturbed : ∀ other, other ≠ task →
      Settled base.inner base.disk base.logical (state.tasks other)) :
    Durable (base.enter task phase) := by
  refine ⟨orderly, backed, fun other blockId requested => ?_, fun other slot owned => ?_,
    fun left right slot left_owned right_owned => ?_, fun other => ?_⟩
  · by_cases same : other = task
    · subst same
      rw [enter_same] at requested
      exact fits blockId requested
    · rw [enter_other same, tasks_eq] at requested
      exact durable.requestFits other blockId requested
  · by_cases same : other = task
    · subst same
      rw [enter_same] at owned
      exact (own slot owned).1
    · rw [enter_other same, tasks_eq] at owned
      exact others other same slot owned
  · by_cases left_same : left = task
    · subst left_same
      rw [enter_same] at left_owned
      by_contra ne
      rw [enter_other (Ne.symm ne), tasks_eq] at right_owned
      exact (own slot left_owned).2 right (Ne.symm ne) right_owned
    · rw [enter_other left_same, tasks_eq] at left_owned
      by_cases right_same : right = task
      · subst right_same
        rw [enter_same] at right_owned
        exact absurd left_owned ((own slot right_owned).2 left left_same)
      · rw [enter_other right_same, tasks_eq] at right_owned
        exact durable.unshared left right slot left_owned right_owned
  · by_cases same : other = task
    · subst same
      rw [enter_same]
      exact settled
    · rw [enter_other same, tasks_eq]
      exact undisturbed other same

omit [DecidableEq τ] in
/-- A reserved slot is in flight, and no other task has reserved it. -/
theorem Durable.owns (durable : Durable state) {slot : Fin slots}
    (owned : (state.tasks task).owned = some slot) :
    (state.inner.entries slot).inFlight = true ∧
      ∀ other, other ≠ task → (state.tasks other).owned ≠ some slot :=
  ⟨durable.reserved task slot owned, fun other ne other_owned =>
    ne (durable.unshared other task slot other_owned owned)⟩

/-- A task moves on without touching anything. -/
theorem Durable.enter (durable : Durable state) (orderly : Orderly (state.enter task phase))
    (fits : ∀ blockId, phase.requested = some blockId → Fits spb blockId)
    (own : ∀ slot, phase.owned = some slot → (state.tasks task).owned = some slot)
    (settled : Settled state.inner state.disk state.logical phase) :
    Durable (state.enter task phase) :=
  durable.move rfl orderly durable.backed fits (fun slot owned => durable.owns (own slot owned))
    (fun other _ slot => durable.reserved other slot) settled fun other _ => durable.settled other

/-- A task changes the slot that it has reserved. -/
theorem Durable.change {slot : Fin slots} {entry : CacheEntry (Fin spb → Sector)}
    {change : CacheEntry (Fin spb → Sector) → CacheEntry (Fin spb → Sector)}
    (durable : Durable state) (entry_eq : change (state.inner.entries slot) = entry)
    (orderly : Orderly ((state.modify slot change).enter task phase))
    (owned : (state.tasks task).owned = some slot)
    (backed : Backed (state.inner.modify slot change) state.disk state.logical)
    (fits : ∀ blockId, phase.requested = some blockId → Fits spb blockId)
    (own : ∀ other, phase.owned = some other → other = slot ∧ entry.inFlight = true)
    (flies : entry.dirty = true → entry.inFlight = true)
    (settled : Settled (state.inner.modify slot change) state.disk state.logical phase) :
    Durable ((state.modify slot change).enter task phase) := by
  obtain ⟨flying, unshared⟩ := durable.owns owned
  have entry_at : (state.modify slot change).inner.entries slot = entry := by
    rw [modify_same, entry_eq]
  refine durable.move rfl orderly backed fits (fun other other_owned => ?_)
    (fun other ne held held_owned => ?_) settled fun other ne => ?_
  · obtain ⟨rfl, entry_flying⟩ := own other other_owned
    exact ⟨by rw [entry_at]; exact entry_flying, unshared⟩
  · have apart : held ≠ slot := fun same => unshared other ne (same ▸ held_owned)
    rw [modify_other apart]
    exact durable.reserved other held held_owned
  · refine (durable.settled other).modify (unshared other ne) ?_
    rw [entry_eq]
    intro dirty ready
    rw [flies dirty] at ready
    cases ready

/-- A task stores a block in a slot that no other task has reserved, and returns. -/
theorem Durable.store {slot : Fin slots} {blockId : Nat} {src : Fin spb → Sector}
    {change : CacheEntry (Fin spb → Sector) → CacheEntry (Fin spb → Sector)}
    {result : Except Unit (Option (Fin spb → Sector))} (durable : Durable state)
    (orderly : Orderly (((state.modify slot change).store blockId src).enter task
      (.returned result)))
    (backed : Backed (state.inner.modify slot change) state.disk
      (Function.update state.logical blockId src))
    (free : ∀ other, other ≠ task → (state.tasks other).owned ≠ some slot)
    (no_flush : ∀ other rest, state.tasks other ≠ .flushing rest)
    (alone : ∀ other, other ≠ slot → (state.inner.entries other).blockId ≠ some blockId) :
    Durable (((state.modify slot change).store blockId src).enter task (.returned result)) := by
  refine durable.move rfl orderly backed nofun nofun (fun other ne held held_owned => ?_) trivial
    fun other ne => ?_
  · have apart : held ≠ slot := fun same => free other ne (same ▸ held_owned)
    exact (congrArg CacheEntry.inFlight (modify_other apart change)).trans
      (durable.reserved other held held_owned)
  · exact (durable.settled other).store (no_flush other) (free other ne) alone

/-- A task returns after a change of referenced bits only. -/
theorem Durable.refresh {inner : BlockCacheInner slots (Fin spb → Sector)}
    {result : Except Unit (Option (Fin spb → Sector))} (durable : Durable state)
    (refreshed : Refreshed state.inner inner)
    (orderly : Orderly ({ state with inner }.enter task (.returned result))) :
    Durable ({ state with inner }.enter task (.returned result)) := by
  refine durable.move rfl orderly (durable.backed.refreshed refreshed) nofun nofun
    (fun other _ slot owned => ?_) trivial fun other _ => ?_
  · exact (refreshed.fields slot).2.1.trans (durable.reserved other slot owned)
  · exact (durable.settled other).refreshed refreshed

theorem refreshed_modify {Block : Type} (inner : BlockCacheInner slots Block) (slot : Fin slots) :
    Refreshed inner (inner.modify slot ({ · with referenced := true })) := by
  intro other
  by_cases same : other = slot
  · subst same
    exact ⟨true, by simp [BlockCacheInner.modify]⟩
  · exact ⟨_, by simp [BlockCacheInner.modify, same]; rfl⟩

/-- A task reserves a slot that is not in flight. -/
theorem Durable.reserve {inner : BlockCacheInner slots (Fin spb → Sector)} {slot : Fin slots}
    {request : Request (Fin spb → Sector)} (durable : Durable state)
    (refreshed : Refreshed state.inner inner)
    (fits : Fits spb request.blockId) (free : (state.inner.entries slot).inFlight = false)
    (orderly : Orderly (({ state with inner }.modify slot ({ · with inFlight := true })).enter task
      (.victim request slot))) :
    Durable (({ state with inner }.modify slot ({ · with inFlight := true })).enter task
      (.victim request slot)) := by
  have backed := durable.backed.refreshed refreshed
  have unowned (other : τ) : (state.tasks other).owned ≠ some slot := by
    intro owned
    have flying := durable.reserved other slot owned
    rw [free] at flying
    cases flying
  refine durable.move rfl orderly ?_ (fun blockId requested => ?_) (fun other owned => ?_)
    (fun other _ held owned => ?_) trivial fun other _ => ?_
  · change Backed (inner.modify slot ({ · with inFlight := true })) state.disk state.logical
    refine backed.modify rfl (backed.fits slot) (backed.tagged slot) (fun blockId tag ready => ?_)
      (backed.clean slot) fun blockId tag leaves => absurd tag leaves
    exact backed.current slot blockId tag (ready.imp_right nofun)
  · cases requested
    exact fits
  · cases owned
    exact ⟨by rw [modify_same], fun other _ => unowned other⟩
  · have apart : held ≠ slot := fun same => unowned other (same ▸ owned)
    rw [modify_other apart]
    exact (refreshed.fields held).2.1.trans (durable.reserved other held owned)
  · change Settled (inner.modify slot ({ · with inFlight := true })) state.disk state.logical _
    exact ((durable.settled other).refreshed refreshed).modify (unowned other) fun _ ready =>
      nomatch ready

/-- The device has written what was stored last in a block. -/
theorem Durable.writeSectors {blockId : Nat} {data : Fin spb → Sector} (durable : Durable state)
    (fits : Fits spb blockId) (data_eq : data = state.logical blockId)
    (orderly : Orderly
      ({ state with disk := writeSectors state.disk blockId data }.enter task phase))
    (requested : ∀ block, phase.requested = some block → Fits spb block)
    (own : ∀ slot, phase.owned = some slot → (state.tasks task).owned = some slot)
    (settled : Settled state.inner (BlockCache.writeSectors state.disk blockId data) state.logical
      phase) :
    Durable ({ state with disk := BlockCache.writeSectors state.disk blockId data }.enter task
      phase) :=
  durable.move rfl orderly (durable.backed.writeSectors fits data_eq) requested
    (fun slot owned => durable.owns (own slot owned))
    (fun other _ slot => durable.reserved other slot) settled
    fun other _ => (durable.settled other).writeSectors durable.backed fits data_eq

/-- A hit copies the block out of its slot, or stores into it. -/
theorem Durable.copyHit {slot : Fin slots} {request : Request (Fin spb → Sector)}
    (durable : Durable state) (phase : state.tasks task = .hit request slot)
    (stores : StoresSettled state (.advance task)) (flush : FlushUndisturbed state (.advance task))
    (orderly : Orderly (state.copyHit task slot request)) :
    Durable (state.copyHit task slot request) := by
  cases request with
  | read blockId => exact durable.refresh (refreshed_modify state.inner slot) orderly
  | write blockId src =>
      have tag : (state.inner.entries slot).blockId = some blockId :=
        durable.held task _ slot phase
      have ready := stores blockId src slot phase
      have apart (other : Fin slots) (ne : other ≠ slot) :
          (state.inner.entries other).blockId ≠ some blockId :=
        fun other_tag => ne (durable.distinct other slot blockId other_tag tag)
      refine durable.store orderly ?_ (fun other _ owned => ?_)
        (flush blockId src slot (.inl phase)) apart
      · refine durable.backed.store rfl tag rfl (durable.backed.fits slot blockId tag) apart ?_
        exact fun oldBlock old_tag ne => absurd (Option.some.inj (old_tag.symm.trans tag)) ne
      · have flying := durable.reserved other slot owned
        rw [ready] at flying
        cases flying

/-- A victim becomes clean after its write-back. -/
theorem Durable.clear {slot : Fin slots} {request : Request (Fin spb → Sector)}
    (durable : Durable state) (phase : state.tasks task = .written request slot)
    (orderly : Orderly ((state.modify slot ({ · with dirty := false })).enter task
      (.retag request slot))) :
    Durable ((state.modify slot ({ · with dirty := false })).enter task (.retag request slot)) := by
  have owned : (state.tasks task).owned = some slot := by rw [phase]; rfl
  have flying := durable.reserved task slot owned
  have requested := durable.requestFits task
  have settled := durable.settled task
  rw [phase] at requested settled
  obtain ⟨oldBlock, old_tag, holds⟩ := settled
  refine durable.change rfl orderly owned ?_ requested (fun other other_owned => ?_) nofun ?_
  · refine durable.backed.modify rfl (durable.backed.fits slot) nofun
      (fun blockId tag ready => ?_) (fun blockId tag _ => ?_)
      fun blockId tag leaves => absurd tag leaves
    · exact durable.backed.current slot blockId tag (ready.imp_left nofun)
    · cases old_tag.symm.trans tag
      exact holds
  · cases other_owned
    exact ⟨rfl, flying⟩
  · rw [Settled, entries_modify_same]

/-- A clean victim is given to its new block. -/
theorem Durable.tag {slot : Fin slots} {request : Request (Fin spb → Sector)}
    (durable : Durable state) (phase : state.tasks task = .retag request slot)
    (flush : FlushUndisturbed state (.advance task))
    (orderly : Orderly (state.tag task slot request)) : Durable (state.tag task slot request) := by
  have owned : (state.tasks task).owned = some slot := by rw [phase]; rfl
  have absent := durable.absent task request.blockId (by rw [phase]; rfl)
  obtain ⟨flying, unshared⟩ := durable.owns owned
  have requested := durable.requestFits task
  have settled := durable.settled task
  rw [phase] at requested settled
  have clean : (state.inner.entries slot).dirty = false := settled
  have block_fits := requested _ rfl
  cases request with
  | read blockId =>
      refine durable.change rfl orderly owned ?_ nofun (fun other other_owned => ?_) ?_ ?_
      · refine durable.backed.modify rfl ?_ (fun dirty => ?_) (fun block tag ready => ?_)
          (fun block tag _ => ?_) fun block tag _ => durable.backed.clean slot block tag clean
        · rintro block ⟨⟩
          exact block_fits
        · nofun
        · rcases ready with dirty | ready
          · exact absurd (clean.symm.trans dirty) nofun
          · exact absurd (flying.symm.trans ready) nofun
        · cases tag
          exact durable.backed.absent blockId block_fits absent
      · cases other_owned
        exact ⟨rfl, flying⟩
      · exact fun _ => flying
      · rw [Settled, entries_modify_same]
        exact ⟨rfl, clean⟩
  | write blockId src =>
      refine durable.store orderly ?_ unshared (flush blockId src slot (.inr phase))
        fun other _ => absent other
      refine durable.backed.store rfl rfl rfl block_fits (fun other _ => absent other) ?_
      exact fun oldBlock old_tag _ => durable.backed.clean slot oldBlock old_tag clean

/-- The device has filled a slot. -/
theorem Durable.fill {slot : Fin slots} {blockId : Nat} (durable : Durable state)
    (phase : state.tasks task = .fetching blockId slot)
    (orderly : Orderly ((state.modify slot ({ · with
      data := readSectors state.disk blockId })).enter task (.fetched blockId slot))) :
    Durable ((state.modify slot ({ · with data := readSectors state.disk blockId })).enter task
      (.fetched blockId slot)) := by
  have owned : (state.tasks task).owned = some slot := by rw [phase]; rfl
  have flying := durable.reserved task slot owned
  have settled := durable.settled task
  rw [phase] at settled
  obtain ⟨tag, clean⟩ := settled
  have on_disk := durable.backed.clean slot blockId tag clean
  refine durable.change rfl orderly owned ?_ nofun (fun other other_owned => ?_)
    (fun _ => flying) ?_
  · refine durable.backed.modify rfl (durable.backed.fits slot) (durable.backed.tagged slot)
      (fun block block_tag _ => ?_) (durable.backed.clean slot)
      fun block tag leaves => absurd tag leaves
    cases tag.symm.trans block_tag
    exact on_disk
  · cases other_owned
    exact ⟨rfl, flying⟩
  · rw [Settled, entries_modify_same]
    exact ⟨tag, clean, on_disk⟩

/-- A filled slot is opened to all. -/
theorem Durable.deliver {slot : Fin slots} {blockId : Nat}
    {result : Except Unit (Option (Fin spb → Sector))} (durable : Durable state)
    (phase : state.tasks task = .fetched blockId slot)
    (orderly : Orderly ((state.modify slot ({ · with
      referenced := true, inFlight := false })).enter task (.returned result))) :
    Durable ((state.modify slot ({ · with referenced := true, inFlight := false })).enter task
      (.returned result)) := by
  have owned : (state.tasks task).owned = some slot := by rw [phase]; rfl
  have settled := durable.settled task
  rw [phase] at settled
  obtain ⟨tag, clean, data_eq⟩ := settled
  refine durable.change rfl orderly owned ?_ nofun nofun (fun dirty => ?_) trivial
  · refine durable.backed.modify rfl (durable.backed.fits slot) (durable.backed.tagged slot)
      (fun block block_tag _ => ?_) (durable.backed.clean slot)
      fun block tag leaves => absurd tag leaves
    cases tag.symm.trans block_tag
    exact data_eq
  · exact absurd (clean.symm.trans dirty) nofun

/-- The device has written the next block of a flush. -/
theorem Durable.flushNext {blockId : Nat} {data : Fin spb → Sector}
    {rest : List (Nat × (Fin spb → Sector))} (durable : Durable state)
    (phase : state.tasks task = .flushing ((blockId, data) :: rest))
    (orderly : Orderly ({ state with disk := BlockCache.writeSectors state.disk blockId data }.enter
      task (.flushing rest))) :
    Durable ({ state with disk := BlockCache.writeSectors state.disk blockId data }.enter task
      (.flushing rest)) := by
  have settled := durable.settled task
  rw [phase] at settled
  obtain ⟨block_fits, data_eq⟩ := settled.1 _ List.mem_cons_self
  refine durable.writeSectors block_fits data_eq orderly nofun nofun ⟨?_, ?_⟩
  · exact fun entry mem => settled.1 entry (List.mem_cons_of_mem _ mem)
  · intro slot block tag dirty ready
    rcases settled.2 slot block tag dirty ready with holds | ⟨entry, mem, block_eq⟩
    · exact .inl (read_kept block_fits (durable.backed.fits slot block tag) data_eq holds)
    · rcases List.mem_cons.mp mem with rfl | mem
      · refine .inl ?_
        rw [← block_eq, read_written]
        exact data_eq
      · exact .inr ⟨entry, mem, block_eq⟩

variable [NeZero slots]

/-- Every move that meets the conditions keeps the cache durable. -/
theorem Durable.step {event : Event τ (Fin spb → Sector)} (durable : Durable state)
    (alone : MissesAlone state event) (unwatched : TagsUnwatched state event)
    (fits : CallFits spb event) (stores : StoresSettled state event)
    (flush : FlushUndisturbed state event) (step_eq : step state event = .ok after) :
    Durable after := by
  have orderly : Orderly after := durable.toOrderly.step alone unwatched step_eq
  have moves := moves_of_step step_eq
  generalize event.task = task at moves
  have requested := durable.requestFits task
  have settled := durable.settled task
  cases moves with
  | called request free =>
      refine durable.enter orderly (fun blockId requested => ?_) nofun trivial
      cases requested
      exact fits
  | flushCalled free => exact durable.enter orderly nofun nofun trivial
  | missed request phase absent =>
      rw [phase] at requested
      exact durable.enter orderly requested nofun trivial
  | waited request phase slot flying =>
      rw [phase] at requested
      exact durable.enter orderly requested nofun trivial
  | found request phase slot tagged ready =>
      rw [phase] at requested
      exact durable.enter orderly requested nofun trivial
  | copied request slot phase => exact durable.copyHit phase stores flush orderly
  | exhausted request phase inner refreshed flying => exact durable.refresh refreshed orderly
  | reserved request phase inner refreshed slot free =>
      rw [phase] at requested
      exact durable.reserve refreshed (requested _ rfl) free orderly
  | dirtyVictim request slot phase oldBlock dirty tagged =>
      rw [phase] at requested
      refine durable.enter orderly requested (by rw [phase]; exact fun _ => id) ⟨tagged, ?_⟩
      exact durable.backed.current slot oldBlock tagged (.inl dirty)
  | cleanVictim request slot phase clean =>
      rw [phase] at requested
      refine durable.enter orderly requested (by rw [phase]; exact fun _ => id) ?_
      rcases clean with clean | vacant
      · exact clean
      · exact Bool.eq_false_iff.mpr fun dirty => durable.backed.tagged slot dirty vacant
  | cleared request slot phase => exact durable.clear phase orderly
  | tagged request slot phase => exact durable.tag phase flush orderly
  | delivered blockId slot phase => exact durable.deliver phase orderly
  | collected phase =>
      exact durable.enter orderly nofun nofun (settled_dirtyEntries durable.backed)
  | cleaned phase =>
      rw [phase] at settled
      refine durable.move rfl orderly (durable.backed.clearDirty settled) nofun nofun
        (fun other _ slot owned => ?_) trivial fun other _ => (durable.settled other).clearDirty
      exact (clearDirty_fields state.inner slot).2.1.trans (durable.reserved other slot owned)
  | wroteBack request slot oldBlock oldData phase =>
      rw [phase] at requested settled
      obtain ⟨tag, data_eq⟩ := settled
      refine durable.writeSectors (durable.backed.fits slot oldBlock tag) data_eq orderly requested
        (by rw [phase]; exact fun _ => id) ⟨oldBlock, tag, ?_⟩
      rw [read_written, data_eq]
  | fetched blockId slot phase => exact durable.fill phase orderly
  | flushed blockId data rest phase => exact durable.flushNext phase orderly
  | failed waiting => exact durable.enter orderly nofun nofun trivial

omit [NeZero slots] in
/-- A change of one slot that keeps dirty slots dirty. -/
theorem dirty_modify {inner : BlockCacheInner slots (Fin spb → Sector)} {slot other : Fin slots}
    {change : CacheEntry (Fin spb → Sector) → CacheEntry (Fin spb → Sector)}
    (dirty : (inner.entries other).dirty = true)
    (keeps : (inner.entries slot).dirty = true → (change (inner.entries slot)).dirty = true) :
    ((inner.modify slot change).entries other).dirty = true := by
  by_cases same : other = slot
  · subst same
    rw [entries_modify_same]
    exact keeps dirty
  · rw [entries_modify_other same]
    exact dirty

/-- A dirty slot becomes clean only when the device has its data. -/
theorem Durable.written {event : Event τ (Fin spb → Sector)} (durable : Durable state)
    (step_eq : BlockCache.step state event = .ok after) {slot : Fin slots}
    (dirty : (state.inner.entries slot).dirty = true)
    (cleared : (after.inner.entries slot).dirty = false) :
    ∃ blockId, state.tagOf slot = some blockId ∧
      readSectors state.disk blockId = (state.inner.entries slot).data := by
  -- Only the end of a write-back and the end of a flush clear the flag.
  have still (kept : (after.inner.entries slot).dirty = true) : False := by
    rw [cleared] at kept
    cases kept
  have moves := moves_of_step step_eq
  generalize event.task = task at moves
  have settled := durable.settled task
  cases moves with
  | cleared request victim phase =>
      rw [phase] at settled
      obtain ⟨oldBlock, tag, holds⟩ := settled
      by_cases same : slot = victim
      · subst same
        refine ⟨oldBlock, tag, holds.trans ?_⟩
        exact (durable.backed.current slot oldBlock tag (.inl dirty)).symm
      · refine (still ?_).elim
        rw [enter_inner, modify_other same]
        exact dirty
  | cleaned phase =>
      rw [phase] at settled
      change (state.inner.clearDirty.entries slot).dirty = false at cleared
      rw [(clearDirty_fields state.inner slot).1, dirty, Bool.true_and] at cleared
      obtain ⟨blockId, tag⟩ := Option.ne_none_iff_exists'.mp (durable.backed.tagged slot dirty)
      refine ⟨blockId, tag, ?_⟩
      rw [durable.backed.current slot blockId tag (.inl dirty)]
      exact (settled.2 slot blockId tag dirty cleared).resolve_right (by simp)
  | copied request copied phase =>
      refine (still ?_).elim
      cases request with
      | read blockId =>
          rw [State.copyHit, enter_inner, modify_inner]
          exact dirty_modify dirty id
      | write blockId src =>
          rw [State.copyHit, enter_inner, store_inner, modify_inner]
          exact dirty_modify dirty fun _ => rfl
  | tagged request victim phase =>
      refine (still ?_).elim
      cases request with
      | read blockId =>
          rw [State.tag, enter_inner, modify_inner]
          exact dirty_modify dirty id
      | write blockId src =>
          rw [State.tag, enter_inner, store_inner, modify_inner]
          exact dirty_modify dirty fun _ => rfl
  | exhausted request phase inner refreshed flying =>
      exact (still ((refreshed.fields slot).1.trans dirty)).elim
  | reserved request phase inner refreshed victim free =>
      have refreshed_dirty : (inner.entries slot).dirty = true :=
        (refreshed.fields slot).1.trans dirty
      refine (still ?_).elim
      rw [enter_inner, modify_inner]
      exact dirty_modify refreshed_dirty id
  | delivered blockId victim phase =>
      refine (still ?_).elim
      rw [enter_inner, modify_inner]
      exact dirty_modify dirty id
  | fetched blockId victim phase =>
      refine (still ?_).elim
      rw [enter_inner, modify_inner]
      exact dirty_modify dirty id
  | called _ _ | flushCalled _ | missed _ _ _ | waited _ _ _ _ | found _ _ _ _ _
  | dirtyVictim _ _ _ _ _ _ | cleanVictim _ _ _ _ | collected _ | wroteBack _ _ _ _ _
  | flushed _ _ _ _ | failed _ => exact (still dirty).elim

/-- A cache whose runs meet every condition. -/
def durableCache : Machine (State slots spb Sector τ) (Event τ (Fin spb → Sector)) Stuck :=
  ⟨BlockCache.step, fun state event => MissesAlone state event ∧ TagsUnwatched state event ∧
    CallFits spb event ∧ StoresSettled state event ∧ FlushUndisturbed state event⟩

omit [DecidableEq τ] in
theorem durable_new (blank : Fin spb → Sector) (disk : Nat → Sector) :
    Durable (.new blank disk : State slots spb Sector τ) where
  distinct := nofun
  held := nofun
  absent := nofun
  single := nofun
  backed := ⟨nofun, nofun, nofun, nofun, fun _ _ _ => rfl⟩
  requestFits := nofun
  reserved := nofun
  unshared := nofun
  settled _ := trivial

/-- In every run of any number of tasks in which nothing is stored while a flush waits for the
device or into a slot in flight, and that is orderly, a slot becomes clean only when the device has
its data, and a block that is in no slot is on the device as it was stored last. -/
theorem flush_drops_nothing {blank : Fin spb → Sector} {disk : Nat → Sector}
    {events : List (Event τ (Fin spb → Sector))} {final : State slots spb Sector τ}
    (permits : durableCache.Permits (.new blank disk : State slots spb Sector τ) events)
    (run_eq : durableCache.run (.new blank disk) events = .ok final) :
    (∀ event next, BlockCache.step final event = .ok next → ∀ slot,
        (final.inner.entries slot).dirty = true → (next.inner.entries slot).dirty = false →
        ∃ blockId, final.tagOf slot = some blockId ∧
          readSectors final.disk blockId = (final.inner.entries slot).data) ∧
      ∀ blockId, Fits spb blockId → (∀ slot, final.tagOf slot ≠ some blockId) →
        readSectors final.disk blockId = final.logical blockId := by
  have keeps (state : State slots spb Sector τ) (event : Event τ (Fin spb → Sector))
      (next : State slots spb Sector τ) (durable : Durable state)
      (permitted : MissesAlone state event ∧ TagsUnwatched state event ∧ CallFits spb event ∧
        StoresSettled state event ∧ FlushUndisturbed state event)
      (step_eq : BlockCache.step state event = .ok next) : Durable next := by
    obtain ⟨alone, unwatched, fits, stores, flush⟩ := permitted
    exact durable.step alone unwatched fits stores flush step_eq
  have durable : Durable final :=
    Machine.run_keeps durableCache keeps (durable_new blank disk) permits run_eq
  exact ⟨fun event next step_eq slot => durable.written step_eq, durable.backed.absent⟩

/-- A task stores block 5 again while a flush waits for the device; the flush then marks the new
data clean, and the device has the old. -/
theorem flush_drops_store :
    ∃ final next : State 1 1 Nat Nat, durableCache.run (.new (fun _ => 0) id)
        [.call 0 (.request (.write 5 fun _ => 1)), .advance 0, .advance 0, .advance 0, .advance 0,
          .call 1 .flush, .advance 1,
          .call 0 (.request (.write 5 fun _ => 2)), .advance 0, .advance 0,
          .complete 1 true] = .ok final ∧
      BlockCache.step final (.advance 1) = .ok next ∧
      (final.inner.entries 0).dirty = true ∧ (next.inner.entries 0).dirty = false ∧
      final.tagOf 0 = some 5 ∧ ¬ ∃ blockId, final.tagOf 0 = some blockId ∧
        readSectors final.disk blockId = (final.inner.entries 0).data := by
  refine ⟨_, _, rfl, rfl, rfl, rfl, rfl, ?_⟩
  rintro ⟨blockId, tag, same⟩
  obtain rfl : 5 = blockId := Option.some.inj tag
  exact absurd (congrFun same 0) (by decide)

/-- One task stores block 5 and flushes it. -/
theorem flush_drops_nothing_one_store :
    ∃ final next : State 1 1 Nat Unit, durableCache.run (.new (fun _ => 0) id)
        [.call () (.request (.write 5 fun _ => 1)), .advance (), .advance (), .advance (),
          .advance (), .call () .flush, .advance (), .complete () true] = .ok final ∧
      BlockCache.step final (.advance ()) = .ok next ∧
      (final.inner.entries 0).dirty = true ∧ (next.inner.entries 0).dirty = false ∧
      ∃ blockId, final.tagOf 0 = some blockId ∧
        readSectors final.disk blockId = (final.inner.entries 0).data := by
  obtain ⟨final, next, run_eq, step_eq, dirty, cleared⟩ :
      ∃ final next : State 1 1 Nat Unit, durableCache.run (.new (fun _ => 0) id)
        [.call () (.request (.write 5 fun _ => 1)), .advance (), .advance (), .advance (),
          .advance (), .call () .flush, .advance (), .complete () true] = .ok final ∧
      BlockCache.step final (.advance ()) = .ok next ∧
      (final.inner.entries 0).dirty = true ∧ (next.inner.entries 0).dirty = false :=
    ⟨_, _, rfl, rfl, rfl, rfl⟩
  refine ⟨final, next, run_eq, step_eq, dirty, cleared, ?_⟩
  refine (flush_drops_nothing ?_ run_eq).1 _ next step_eq 0 dirty cleared
  have permitted (state : State 1 1 Nat Unit) (event : Event Unit (Fin 1 → Nat))
      (fits : CallFits 1 event) (stores : StoresSettled state event) :
      durableCache.permitted state event :=
    ⟨missesAlone_of_subsingleton state event, tagsUnwatched_of_subsingleton state event, fits,
      stores, flushUndisturbed_of_subsingleton state event⟩
  have fits : Fits 1 5 := by unfold Fits; decide
  refine Machine.permits_cons _ (permitted _ _ fits trivial) rfl ?_
  refine Machine.permits_cons _ (permitted _ _ trivial nofun) rfl ?_
  refine Machine.permits_cons _ (permitted _ _ trivial nofun) rfl ?_
  refine Machine.permits_cons _ (permitted _ _ trivial nofun) rfl ?_
  refine Machine.permits_cons _ (permitted _ _ trivial nofun) rfl ?_
  refine Machine.permits_cons _ (permitted _ _ trivial trivial) rfl ?_
  refine Machine.permits_cons _ (permitted _ _ trivial nofun) rfl ?_
  exact Machine.permits_cons _ (permitted _ _ trivial trivial) rfl trivial

end Steps

end BlockCache
end Vespertine
