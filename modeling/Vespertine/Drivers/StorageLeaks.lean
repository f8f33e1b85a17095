import Vespertine.Drivers.Mount
import Vespertine.Drivers.Transfers

/-!
# Frames and descriptors of failed requests

`transfer_sectors` gives nothing back when it runs out of descriptors, and its callers leave with
`?` while they hold pages of their own.
-/

namespace Vespertine.Storage

open Virtio (DeviceStatus Request Virtqueue)

variable {size slots : Nat}

/-- A descriptor on the free list. -/
def FreeDesc (vq : Virtqueue size Unit Unit) (idx : Nat) : Prop :=
  ∃ nodes, FreeList vq nodes ∧ idx ∈ nodes

/-- The same blocks are allocated, and the same descriptors are free. -/
structure SameResources (before after : World size slots) : Prop where
  held_eq : after.held = before.held
  descs_iff : ∀ idx, FreeDesc after.vq idx ↔ FreeDesc before.vq idx

/-- The functions that transfer blocks; a submitted transfer is polled until it is done. -/
inductive Operation
  | transfer (request : Request)
  | resolve (fs : Ext2FileSystem) (inode : DiskInode) (fileBlockIdx : Nat)
  | requestPage (fs : Ext2FileSystem) (inode : DiskInode) (vmo : Vmo) (offset : Nat)
  | parse
  | mount (partition : Device)

/-- A file block beyond the last tier, as `resolve_file_block` computes it. -/
def PastTiers (blockSize fileBlockIdx : Nat) : Prop :=
  let pointersPerBlock := blockSize / 4
  let double := pointersPerBlock * pointersPerBlock % wordSize
  let remainingIdx := wrappingAdd (fileBlockIdx - 12) pointersPerBlock
  12 ≤ fileBlockIdx ∧ pointersPerBlock ≤ fileBlockIdx - 12 ∧ double ≤ remainingIdx ∧
    double * pointersPerBlock % wordSize ≤ remainingIdx - double

/-- The header of a partition table is not accepted. -/
def GptHeader.Rejected (header : GptHeader) : Prop :=
  header.signature ≠ GPT_SIGNATURE ∨ header.numEntries > 128 ∨ header.entrySize ≠ 128

namespace Operation

variable [NeZero size] [NeZero slots]

/-- Run a function. -/
def run : Operation → Program size slots Unit
  | .transfer request => do
      let transfer ← transferSectors request
      await transfer
  | .resolve fs inode fileBlockIdx => do
      let _ ← resolveFileBlock fs inode fileBlockIdx
  | .requestPage fs inode vmo offset => do
      let _ ← Storage.requestPage fs inode vmo offset
  | .parse => do
      let _ ← parseTable
  | .mount partition => do
      let _ ← Storage.mount partition

/-- No page could be taken, or: three descriptors are free; the block is beyond the last tier; the
offset is beyond the object; the header has been read and is not accepted, or there are no frames
for the table behind it. -/
def Clean (world : World size slots) : Operation → Prop
  | .transfer _ => NoPage world ∨ world.vq.allocChain.1.isSome = true
  | .resolve fs _ fileBlockIdx => NoPage world ∨ PastTiers fs.blockSize fileBlockIdx
  | .requestPage _ _ vmo offset => NoPage world ∨ vmo.size ≤ offset
  | .parse => NoPage world ∨ Reads .disk 1 1 (takenPage world) ∧
      ((GptHeader.parse (sectorBytes world.disk 1 512)).Rejected ∨ NoBlock world)
  | .mount partition => NoPage world ∨ Reads partition 2 2 (takenPage world) ∧
      ((DiskSuperblock.parse (sectorBytes world.disk (partition.place 2) 1024)).magic ≠
        EXT2_MAGIC ∨ NoBlock world)

end Operation

theorem freeDesc_iff {vq : Virtqueue size Unit Unit} {nodes : List Nat} {idx : Nat}
    (list : FreeList vq nodes) : FreeDesc vq idx ↔ idx ∈ nodes := by
  refine ⟨?_, fun mem => ⟨nodes, list, mem⟩⟩
  rintro ⟨others, other_list, mem⟩
  rwa [list.unique other_list]

theorem Balanced.sameResources {before after : World size slots} {nodes : List Nat}
    (balanced : Balanced before after) (queue : FreeList before.vq nodes) :
    SameResources before after := by
  refine ⟨balanced.held_eq, fun idx => ?_⟩
  obtain ⟨others, list, perm⟩ := balanced.list nodes queue
  rw [freeDesc_iff list, freeDesc_iff queue, perm.mem_iff]

/-! ## Blocks -/

section Blocks

variable [NeZero size] [NeZero slots] {fs : Ext2FileSystem}

omit [NeZero size] [NeZero slots] in
theorem grows_of_held_eq {α : Type} {program : Program size slots α}
    (keeps : ∀ world, (finalState (program world)).held = world.held) : Along Grows program :=
  fun world => (keeps world).ge

omit [NeZero slots] in
theorem grows_stable : Stable (Grows : World size slots → World size slots → Prop) where
  keeps world _ _ := le_refl world.held
  submit _ _ _ _ _ := submit_grows

theorem readBlock_grows {blockId destPhys : Nat} :
    Along (Grows : World size slots → World size slots → Prop)
    (readBlock fs blockId destPhys) := by
  rw [readBlock]
  refine (grows_of_held_eq fun _ => rfl).bind fun _ => ?_
  split
  · exact grows_of_held_eq fun _ => rfl
  · exact grows_stable.cacheReadBlock

/-- A page is freed when the walk over the tables returns, and only then. -/
theorem followTables_held (fs : Ext2FileSystem) (pagePhys : Nat) (path : List Nat) :
    ∀ (blockId : Nat) (world : World size slots),
      match followTables fs pagePhys blockId path world with
      | .ok _ after => world.held.erase (pagePhys, 0) ≤ after.held
      | .error _ after => world.held ≤ after.held := by
  induction path with
  | nil => exact fun blockId world => le_refl (world.held.erase (pagePhys, 0))
  | cons index path ih =>
      intro blockId world
      rw [followTables]
      by_cases zero : blockId = 0
      · rw [if_pos zero]
        exact le_refl (world.held.erase (pagePhys, 0))
      · rw [if_neg zero]
        cases read_eq : readBlock fs blockId pagePhys world with
        | error failure after =>
            rw [run_bind_of_error read_eq]
            exact readBlock_grows.of_error read_eq
        | ok _ middle =>
            have grown : world.held ≤ middle.held := readBlock_grows.of_ok read_eq
            rw [run_bind_of_ok read_eq]
            let next := Bytes.toNat (middle.bytes.read (pagePhys + 4 * index) 4)
            have rest := ih next middle
            change match followTables fs pagePhys next path middle with
              | .ok _ after => world.held.erase (pagePhys, 0) ≤ after.held
              | .error _ after => world.held ≤ after.held
            cases follow_eq : followTables fs pagePhys next path middle with
            | ok _ after =>
                rw [follow_eq] at rest
                exact (Multiset.erase_le_erase _ grown).trans rest
            | error _ after =>
                rw [follow_eq] at rest
                exact grown.trans rest

theorem resolveTier_grows {indirectId : Nat} {path : List Nat} :
    Along (Grows : World size slots → World size slots → Prop)
      (resolveTier fs indirectId path) := by
  intro world
  rw [resolveTier]
  split
  · exact le_refl _
  rcases taking world (fun pagePhys => followTables fs pagePhys indirectId path) with
    ⟨-, run_eq⟩ | ⟨-, run_eq⟩ | ⟨page, -, -, run_eq⟩
  · rw [run_eq]
    exact le_refl _
  · rw [run_eq]
    exact le_refl _
  · rw [run_eq]
    have followed := followTables_held fs page path indirectId (withPage page world)
    cases follow_eq : followTables fs page indirectId path (withPage page world) with
    | ok _ after =>
        rw [follow_eq] at followed
        exact (Multiset.erase_cons_head (page, 0) world.held).ge.trans followed
    | error _ after =>
        rw [follow_eq] at followed
        exact (Multiset.le_cons_self world.held (page, 0)).trans followed

theorem resolveFileBlock_grows {inode : DiskInode} {fileBlockIdx : Nat} :
    Along (Grows : World size slots → World size slots → Prop)
      (resolveFileBlock fs inode fileBlockIdx) := by
  rw [resolveFileBlock]
  split
  · exact fun _ => le_refl _
  dsimp only
  split
  · exact resolveTier_grows
  split
  · exact resolveTier_grows
  split
  · exact resolveTier_grows
  · exact fun _ => le_refl _

theorem loadBlocks_grows {inode : DiskInode} {startFileBlock pagePhys : Nat} (blocks : List Nat) :
    Along (Grows : World size slots → World size slots → Prop)
      (loadBlocks fs inode startFileBlock pagePhys blocks) := by
  induction blocks with
  | nil => exact fun _ => le_refl _
  | cons i rest ih =>
      exact resolveFileBlock_grows.bind fun _ => readBlock_grows.bind fun _ => ih

theorem fillPage_grows {inode : DiskInode} {vmo : Vmo} {offset pagePhys : Nat} :
    Along (Grows : World size slots → World size slots → Prop)
      (fillPage fs inode vmo offset pagePhys) := by
  rw [fillPage]
  split
  · exact grows_of_held_eq fun _ => rfl
  · exact (loadBlocks_grows _).bind fun _ => grows_of_held_eq fun _ => rfl

end Blocks

/-! ## Failed requests -/

/-- A block of frames more is allocated than before. -/
def Leaks (before after : World size slots) : Prop :=
  ∃ block, block ::ₘ before.held ≤ after.held

theorem Leaks.not_same {before after : World size slots} (leaks : Leaks before after) :
    ¬ SameResources before after := by
  intro same
  obtain ⟨block, le⟩ := leaks
  rw [same.held_eq] at le
  exact (Multiset.lt_cons_self before.held block).not_ge le

theorem SameResources.refl (world : World size slots) : SameResources world world :=
  ⟨rfl, fun _ => Iff.rfl⟩

theorem takenPage_same (world : World size slots) : SameResources world (takenPage world) :=
  ⟨rfl, fun _ => Iff.rfl⟩

/-- A failure after a page has been taken, by a function that frees nothing when it fails. -/
theorem taking_err {α : Type} {world after : World size slots} {rest : Nat → Program size slots α}
    (grows : ∀ page, page ≠ 0 → rest page (withPage page world) = .error .err after →
      Grows (withPage page world) after)
    (run_eq : (alloc >>= fun page => if page = 0 then fail else rest page) world =
      .error .err after) :
    NoPage world ∧ after = takenPage world ∨ ¬ NoPage world ∧ Leaks world after := by
  rcases taking world rest with
    ⟨-, taking_eq⟩ | ⟨noPage, taking_eq⟩ | ⟨page, ne, head_eq, taking_eq⟩
  · rw [taking_eq] at run_eq
    cases run_eq
  · rw [taking_eq] at run_eq
    cases run_eq
    exact .inl ⟨noPage, rfl⟩
  · rw [taking_eq] at run_eq
    refine .inr ⟨?_, (page, 0), grows page ne run_eq⟩
    rw [NoPage, head_eq]
    exact fun zero => ne (Option.some.inj zero)

section Failures

variable [NeZero size] [NeZero slots] {fs : Ext2FileSystem} {inode : DiskInode}
  {world after : World size slots} {nodes : List Nat}

theorem resolveTier_err {indirectId : Nat} {path : List Nat}
    (run_eq : resolveTier fs indirectId path world = .error .err after) :
    NoPage world ∧ after = takenPage world ∨ ¬ NoPage world ∧ Leaks world after := by
  rw [resolveTier] at run_eq
  split at run_eq
  · cases run_eq
  refine taking_err (fun page _ follow_eq => ?_) run_eq
  have followed := followTables_held fs page path indirectId (withPage page world)
  rw [follow_eq] at followed
  exact followed

theorem resolveFileBlock_err {fileBlockIdx : Nat}
    (run_eq : resolveFileBlock fs inode fileBlockIdx world = .error .err after) :
    PastTiers fs.blockSize fileBlockIdx ∧ after = world ∨
      ¬ PastTiers fs.blockSize fileBlockIdx ∧
        (NoPage world ∧ after = takenPage world ∨ ¬ NoPage world ∧ Leaks world after) := by
  rw [resolveFileBlock] at run_eq
  split at run_eq
  · cases run_eq
  next direct =>
    dsimp only at run_eq
    split at run_eq
    next single =>
      exact .inr ⟨fun past => past.2.1.not_gt single, resolveTier_err run_eq⟩
    next single =>
      split at run_eq
      next double =>
        exact .inr ⟨fun past => past.2.2.1.not_gt double, resolveTier_err run_eq⟩
      next double =>
        split at run_eq
        next triple =>
          exact .inr ⟨fun past => past.2.2.2.not_gt triple, resolveTier_err run_eq⟩
        next triple =>
          cases run_eq
          exact .inl ⟨⟨not_lt.1 direct, not_lt.1 single, not_lt.1 double, not_lt.1 triple⟩, rfl⟩

theorem requestPage_err {vmo : Vmo} {offset : Nat}
    (run_eq : requestPage fs inode vmo offset world = .error .err after) :
    vmo.size ≤ offset ∧ after = world ∨
      ¬ vmo.size ≤ offset ∧
        (NoPage world ∧ after = takenPage world ∨ ¬ NoPage world ∧ Leaks world after) := by
  rw [requestPage] at run_eq
  split at run_eq
  next beyond =>
    cases run_eq
    exact .inl ⟨beyond, rfl⟩
  next inside =>
    refine .inr ⟨inside, ?_⟩
    cases frame_eq : vmo.frameAt offset with
    | some pfn =>
        rw [frame_eq] at run_eq
        cases run_eq
    | none =>
        rw [frame_eq] at run_eq
        exact taking_err (fun page _ fill_eq => fillPage_grows.of_error fill_eq) run_eq

omit [NeZero slots] in
/-- A function that takes a page, reads a header into it, and goes on. -/
theorem header_err {α : Type} {device : Device} {sector sectorsCount : Nat}
    {rest : Nat → Program size slots α}
    (run_eq : (alloc >>= fun page => if page = 0 then fail else
      device.readAll sector sectorsCount page >>= fun _ => rest page) world = .error .err after) :
    NoPage world ∧ after = takenPage world ∨
      ¬ NoPage world ∧ ¬ Reads device sector sectorsCount (takenPage world) ∧ Leaks world after ∨
      ¬ NoPage world ∧ Reads device sector sectorsCount (takenPage world) ∧
        ∃ page middle, Balanced (withPage page world) middle ∧
          (∀ i < sectorsCount * 512 % 2 ^ 32,
            middle.bytes (page + i) = world.disk (device.place sector * 512 + i)) ∧
          rest page middle = .error .err after := by
  rcases taking world fun page => device.readAll sector sectorsCount page >>= fun _ => rest page
    with ⟨-, taking_eq⟩ | ⟨noPage, taking_eq⟩ | ⟨page, ne, head_eq, taking_eq⟩
  · rw [taking_eq] at run_eq
    cases run_eq
  · rw [taking_eq] at run_eq
    cases run_eq
    exact .inl ⟨noPage, rfl⟩
  have page_some : ¬ NoPage world := by
    rw [NoPage, head_eq]
    exact fun zero => ne (Option.some.inj zero)
  rw [taking_eq] at run_eq
  rcases run_bind_error.1 run_eq with failed | ⟨_, middle, read_eq, rest_eq⟩
  · refine .inr (.inl ⟨page_some, fun reads => readAll_err failed ?_, (page, 0), ?_⟩)
    · exact ⟨reads.holds, reads.page, reads.chain, reads.status⟩
    · exact submit_grows.of_error failed
  · obtain ⟨reads, done⟩ := readAll_ok read_eq
    refine .inr (.inr ⟨page_some, ?_, page, middle, done.balanced, done.bytes_eq, rest_eq⟩)
    exact ⟨reads.holds, reads.page, reads.chain, reads.status⟩

omit [NeZero size] [NeZero slots] in
/-- A page that was taken has been freed. -/
theorem freed_same {page : Nat} {middle : World size slots}
    (same : SameResources (withPage page world) middle) :
    SameResources world { middle with held := middle.held.erase (page, 0) } := by
  refine ⟨?_, same.descs_iff⟩
  change middle.held.erase (page, 0) = world.held
  rw [same.held_eq]
  exact Multiset.erase_cons_head _ _

omit [NeZero slots] in
/-- A table read into a block of frames of its own. -/
theorem table_err {α : Type} {device : Device} {sector sectorsCount order page : Nat}
    {middle : World size slots} {finish : Nat → Program size slots α}
    (never : ∀ buf start last, finish buf start ≠ .error .err last)
    (queue : FreeList world.vq nodes) (balanced : Balanced (withPage page world) middle)
    (run_eq : (allocTable order page >>= fun buf =>
      device.readAll sector sectorsCount buf >>= fun _ => finish buf) middle =
        .error .err after) :
    NoBlock world ∧ SameResources world after ∨ ¬ NoBlock world ∧ Leaks world after := by
  have noBlock_iff : NoBlock middle ↔ NoBlock world := by
    rw [NoBlock, balanced.orders_eq]
    rfl
  have same : SameResources (withPage page world) middle := balanced.sameResources queue
  rcases allocTable_cases order page middle with
    ⟨-, table_eq⟩ | ⟨-, noBlock, orders, table_eq⟩ | ⟨-, block, addr, orders, table_eq⟩
  · rw [run_bind_of_error table_eq] at run_eq
    cases run_eq
  · refine .inl ⟨noBlock_iff.1 noBlock, ?_⟩
    rw [run_bind_of_error table_eq] at run_eq
    cases run_eq
    have taken : SameResources (withPage page world) { middle with orders } :=
      ⟨same.held_eq, same.descs_iff⟩
    exact freed_same taken
  · refine .inr ⟨fun noBlock => block (noBlock_iff.2 noBlock), (page, 0), ?_⟩
    rw [run_bind_of_ok table_eq] at run_eq
    rcases run_bind_error.1 run_eq with failed | ⟨_, last, _, finish_eq⟩
    · have grown : (addr, order) ::ₘ middle.held ≤ after.held := submit_grows.of_error failed
      refine le_trans ?_ ((Multiset.le_cons_self middle.held (addr, order)).trans grown)
      exact balanced.held_eq.ge
    · exact absurd finish_eq (never addr last after)

omit [NeZero slots] in
theorem parseTable_err (queue : FreeList world.vq nodes)
    (run_eq : parseTable world = .error .err after) :
    SameResources world after ↔ Operation.Clean world .parse := by
  rcases header_err run_eq with ⟨noPage, rfl⟩ | ⟨page_some, no_read, leaks⟩ |
    ⟨page_some, reads, page, middle, balanced, bytes_eq, parse_eq⟩
  · exact iff_of_true (takenPage_same world) (.inl noPage)
  · refine iff_of_false leaks.not_same ?_
    rintro (noPage | ⟨reads, -⟩)
    · exact page_some noPage
    · exact no_read reads
  · have raw_eq : middle.bytes.read page 512 = sectorBytes world.disk 1 512 :=
      read_sectorBytes bytes_eq
    have load_eq : loadBytes page 512 middle = .ok (middle.bytes.read page 512) middle := rfl
    rw [run_bind_of_ok load_eq, raw_eq] at parse_eq
    generalize header_eq : GptHeader.parse (sectorBytes world.disk 1 512) = header at parse_eq
    have same : SameResources (withPage page world) middle := balanced.sameResources queue
    have clean_iff : Operation.Clean world .parse ↔ header.Rejected ∨ NoBlock world := by
      rw [← header_eq]
      exact ⟨fun clean => (clean.resolve_left page_some).2, fun bad => .inr ⟨reads, bad⟩⟩
    rw [clean_iff]
    rw [parseWith] at parse_eq
    split at parse_eq
    next signature =>
      cases parse_eq
      exact iff_of_true (freed_same same) (.inl (.inl signature))
    next signature =>
      dsimp only at parse_eq
      split at parse_eq
      next sizes =>
        cases parse_eq
        exact iff_of_true (freed_same same) (.inl (.inr sizes))
      next sizes =>
        have accepted : ¬ header.Rejected := not_or.2 ⟨signature, sizes⟩
        rcases table_err (fun _ _ _ => by rintro ⟨⟩) queue balanced parse_eq with
          ⟨noBlock, same⟩ | ⟨block, leaks⟩
        · exact iff_of_true same (.inr noBlock)
        · exact iff_of_false leaks.not_same (not_or.2 ⟨accepted, block⟩)

theorem mount_err {partition : Device} (queue : FreeList world.vq nodes)
    (run_eq : mount partition world = .error .err after) :
    SameResources world after ↔ Operation.Clean world (.mount partition) := by
  rcases header_err run_eq with ⟨noPage, rfl⟩ | ⟨page_some, no_read, leaks⟩ |
    ⟨page_some, reads, page, middle, balanced, bytes_eq, mount_eq⟩
  · exact iff_of_true (takenPage_same world) (.inl noPage)
  · refine iff_of_false leaks.not_same ?_
    rintro (noPage | ⟨reads, -⟩)
    · exact page_some noPage
    · exact no_read reads
  · have raw_eq : middle.bytes.read page 1024 =
        sectorBytes world.disk (partition.place 2) 1024 := read_sectorBytes bytes_eq
    have load_eq : loadBytes page 1024 middle = .ok (middle.bytes.read page 1024) middle := rfl
    rw [run_bind_of_ok load_eq, raw_eq] at mount_eq
    generalize sb_eq : DiskSuperblock.parse (sectorBytes world.disk (partition.place 2) 1024) = sb
      at mount_eq
    have same : SameResources (withPage page world) middle := balanced.sameResources queue
    have clean_iff : Operation.Clean world (.mount partition) ↔
        sb.magic ≠ EXT2_MAGIC ∨ NoBlock world := by
      rw [← sb_eq]
      exact ⟨fun clean => (clean.resolve_left page_some).2, fun bad => .inr ⟨reads, bad⟩⟩
    rw [clean_iff]
    split at mount_eq
    next bad_magic =>
      cases mount_eq
      exact iff_of_true (freed_same same) (.inl bad_magic)
    next magic =>
      have cache_eq : newCache middle = .ok () { middle with
          cache := ⟨fun _ => ⟨none, false, false, false, ()⟩, 0⟩ } := rfl
      rw [mountWith, run_bind_of_ok cache_eq] at mount_eq
      split at mount_eq
      · cases mount_eq
      have balanced : Balanced (withPage page world) { middle with
          cache := ⟨fun _ => ⟨none, false, false, false, ()⟩, 0⟩ } :=
        ⟨balanced.held_eq, balanced.list, balanced.orders_eq⟩
      rcases table_err (fun _ _ _ => by rintro ⟨⟩) queue balanced mount_eq with
        ⟨noBlock, same⟩ | ⟨block, leaks⟩
      · exact iff_of_true same (.inr noBlock)
      · exact iff_of_false leaks.not_same (not_or.2 ⟨magic, block⟩)

/-- A failed function leaves frames and descriptors as they were exactly if it has taken nothing, or
has left at one of the exits that give everything back: a transfer, when it has found its three
descriptors; the resolution of a block, beyond the last tier; a page of a file, beyond its end; the
partition table and the superblock, when the header has been read and is refused, or when there is
no block of frames for the table. -/
theorem failed_io_clean_iff (op : Operation) (queue : ∃ nodes, FreeList world.vq nodes)
    (failed : op.run world = .error .err after) :
    SameResources world after ↔ op.Clean world := by
  obtain ⟨nodes, queue⟩ := queue
  cases op with
  | transfer request =>
      change (transferSectors request >>= await) world = _ at failed
      have sent := sent request world
      rw [failed] at sent
      cases sent with
      | noPage noPage balanced => exact iff_of_true (balanced.sameResources queue) (.inl noPage)
      | leaked page_some no_chain held_eq =>
          refine iff_of_false (Leaks.not_same ⟨_, held_eq.ge⟩) ?_
          exact not_or.2 ⟨page_some, no_chain⟩
      | failed chain _ balanced => exact iff_of_true (balanced.sameResources queue) (.inr chain)
  | resolve fs inode fileBlockIdx =>
      have failed : resolveFileBlock fs inode fileBlockIdx world = .error .err after :=
        (run_bind_error.1 failed).resolve_right (by rintro ⟨_, _, _, ⟨⟩⟩)
      rcases resolveFileBlock_err failed with ⟨past, rfl⟩ |
        ⟨not_past, ⟨noPage, rfl⟩ | ⟨page_some, leaks⟩⟩
      · exact iff_of_true (.refl _) (.inr past)
      · exact iff_of_true (takenPage_same world) (.inl noPage)
      · exact iff_of_false leaks.not_same (not_or.2 ⟨page_some, not_past⟩)
  | requestPage fs inode vmo offset =>
      have failed : requestPage fs inode vmo offset world = .error .err after :=
        (run_bind_error.1 failed).resolve_right (by rintro ⟨_, _, _, ⟨⟩⟩)
      rcases requestPage_err failed with ⟨beyond, rfl⟩ |
        ⟨inside, ⟨noPage, rfl⟩ | ⟨page_some, leaks⟩⟩
      · exact iff_of_true (.refl _) (.inr beyond)
      · exact iff_of_true (takenPage_same world) (.inl noPage)
      · exact iff_of_false leaks.not_same (not_or.2 ⟨page_some, inside⟩)
  | parse =>
      exact parseTable_err queue
        ((run_bind_error.1 failed).resolve_right (by rintro ⟨_, _, _, ⟨⟩⟩))
  | mount partition =>
      exact mount_err queue
        ((run_bind_error.1 failed).resolve_right (by rintro ⟨_, _, _, ⟨⟩⟩))

end Failures

/-- The device reports an error. -/
theorem failed_io_clean_device :
    let start := restingWorld 0 [.ioErr]
    let op := Operation.transfer ⟨0, 1, 16384, false⟩
    (∃ nodes, FreeList start.vq nodes) ∧ op.Clean start ∧
      ∃ after, op.run start = .error .err after ∧ (SameResources start after ↔ op.Clean start) := by
  intro start op
  have queue : ∃ nodes, FreeList start.vq nodes :=
    ⟨[0, 1, 2, 3], rfl, by decide, rfl, by decide, rfl, by decide, rfl, by decide, rfl⟩
  have failed : op.run start = .error .err (finalState (op.run start)) := rfl
  exact ⟨queue, .inr rfl, _, failed, failed_io_clean_iff op queue failed⟩

/-- One descriptor is free while another transfer has the other three.  `transfer_sectors` returns
`Err(())` and keeps its page and that descriptor. -/
theorem shortage_loses_page :
    let start := restingWorld 3 []
    let op := Operation.transfer ⟨0, 1, 16384, false⟩
    (∃ nodes, FreeList start.vq nodes) ∧
      ∃ after, op.run start = .error .err after ∧ after.held = {(4096, 0)} ∧
        FreeDesc start.vq 3 ∧ ¬ FreeDesc after.vq 3 ∧ ¬ SameResources start after := by
  intro start op
  have list : FreeList start.vq [3] := ⟨rfl, by decide, rfl⟩
  have free : FreeDesc start.vq 3 := ⟨[3], list, List.mem_singleton_self 3⟩
  have lost : ¬ FreeDesc (finalState (op.run start)).vq 3 := by
    have empty : FreeList (finalState (op.run start)).vq [] := rfl
    rw [freeDesc_iff empty]
    exact List.not_mem_nil
  refine ⟨⟨[3], list⟩, finalState (op.run start), rfl, rfl, free, lost, fun same => ?_⟩
  exact lost ((same.descs_iff 3).2 free)

end Vespertine.Storage
