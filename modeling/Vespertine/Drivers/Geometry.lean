import Vespertine.Drivers.GroupTable

/-!
# The geometry of an accepted file system

`read_inode`, the walks over directories and `request_page` take for granted that a block fits into
a frame, that no inode crosses the end of a block and that there are inodes in a group.  `mount`
takes the sizes from the superblock and checks none of them.
-/

namespace Vespertine.Storage

open Virtio (DeviceStatus Request)

variable {size slots : Nat}

/-- The functions that read blocks of a file system. -/
inductive FileOperation
  | readInode (inodeNum : Nat)
  | lookup (inode : DiskInode) (name : List UInt8)
  | list (inode : DiskInode)
  | resolve (inode : DiskInode) (fileBlockIdx : Nat)
  | requestPage (inode : DiskInode) (vmo : Vmo) (offset : Nat)

/-- Run a function. -/
def FileOperation.run [NeZero size] [NeZero slots] (fs : Ext2FileSystem) :
    FileOperation → Program size slots Unit
  | .readInode inodeNum => do
      let _ ← Storage.readInode fs inodeNum
  | .lookup inode name => do
      let _ ← lookupInDir fs inode name
  | .list inode => do
      let _ ← listDir fs inode
  | .resolve inode fileBlockIdx => do
      let _ ← resolveFileBlock fs inode fileBlockIdx
  | .requestPage inode vmo offset => do
      let _ ← Storage.requestPage fs inode vmo offset

/-- The allocator hands out whole frames. -/
def Aligned (world : World size slots) : Prop := ∀ frame ∈ world.supply, NORMAL_PAGE_SIZE ∣ frame

/-- A block at this address ends within its frame. -/
def Lands (blockSize dest : Nat) : Prop := dest % NORMAL_PAGE_SIZE + blockSize ≤ NORMAL_PAGE_SIZE

/-- The arithmetic of `read_inode` for an inode of a group with this descriptor: nothing wraps
around, and the inode lies inside its block. -/
structure InodeInside (fs : Ext2FileSystem) (desc : DiskGroupDesc) (inodeNum : Nat) : Prop where
  product : fs.localInodeIdx inodeNum * fs.inodeSize < 2 ^ 32
  sum : desc.inodeTable + fs.byteOffset inodeNum / fs.blockSize < 2 ^ 32
  inside : fs.byteOffset inodeNum % fs.blockSize + INODE_SIZE ≤ fs.blockSize

/-- A file system is safe to use. -/
structure Safe (size slots : Nat) [NeZero size] [NeZero slots] (fs : Ext2FileSystem) : Prop where
  /-- Every buffer that `read_block` is called with has room for a block. -/
  dests : ∀ (op : FileOperation) (world : World size slots), Aligned world →
    ∃ more, (finalState (op.run fs world)).dests = world.dests ++ more ∧
      ∀ dest ∈ more, Lands fs.blockSize dest
  divisors : ∀ inodeNum < 2 ^ 32, inodeNum ≠ 0 → fs.inodesPerGroup ≠ 0 ∧ fs.blockSize ≠ 0
  inodes : ∀ inodeNum < 2 ^ 32, inodeNum ≠ 0 → ∀ desc, fs.bgdt[fs.bgIndex inodeNum]? = some desc →
    InodeInside fs desc inodeNum
  /-- Every byte of a page that `request_page` fills lies in a block that has been read. -/
  pages : ∀ (inode : DiskInode) (vmo : Vmo) (offset : Nat) (world last : World size slots)
    (page : Nat) (filled : Vmo), vmo.frameAt offset = none →
    requestPage fs inode vmo offset world = .ok (page, filled) last →
    ∃ more, last.dests = world.dests ++ more ∧ ∀ i < NORMAL_PAGE_SIZE,
      ∃ dest ∈ more, dest ≤ page + i ∧ page + i < dest + fs.blockSize

/-- The last index that an inode number of a group can have. -/
def Ext2FileSystem.lastIndex (fs : Ext2FileSystem) (group : Nat) : Nat :=
  min (fs.inodesPerGroup - 1) (2 ^ 32 - 2 - group * fs.inodesPerGroup)

/-- The sizes on the disk fit together. -/
structure Ext2FileSystem.Fits (fs : Ext2FileSystem) : Prop where
  blockSize_le : fs.blockSize ≤ NORMAL_PAGE_SIZE
  inodesPerGroup_pos : 0 < fs.inodesPerGroup
  product : fs.bgdt ≠ [] → (fs.inodesPerGroup - 1) * fs.inodeSize < 2 ^ 32
  /-- No inode of a group reaches over the end of its block. -/
  inside : fs.bgdt ≠ [] → ∀ index < fs.inodesPerGroup,
    index * fs.inodeSize % fs.blockSize + INODE_SIZE ≤ fs.blockSize
  /-- The blocks of an inode table have numbers. -/
  tables : ∀ group desc, fs.bgdt[group]? = some desc → group * fs.inodesPerGroup < 2 ^ 32 - 1 →
    desc.inodeTable + fs.lastIndex group * fs.inodeSize / fs.blockSize < 2 ^ 32

/-! ## Accepted superblocks -/

section Accepted

variable [NeZero size] [NeZero slots] {partition : Device} {fs : Ext2FileSystem}
  {world after : World size slots}

/-- A mounted file system has the sizes of a superblock. -/
theorem mounted_fileSystem (mounted : mount partition world = .ok fs after) :
    ∃ raw table, fs = (DiskSuperblock.parse raw).fileSystem partition table ∧
      (DiskSuperblock.parse raw).blockSize ≠ 0 := by
  rw [mount] at mounted
  obtain ⟨page, taken, -, mounted⟩ := run_bind_ok.1 mounted
  split at mounted
  · cases mounted
  obtain ⟨_, filled, -, mounted⟩ := run_bind_ok.1 mounted
  obtain ⟨raw, loaded, -, mounted⟩ := run_bind_ok.1 mounted
  split at mounted
  · cases mounted
  rw [mountWith] at mounted
  obtain ⟨_, cached, -, mounted⟩ := run_bind_ok.1 mounted
  split at mounted
  · cases mounted
  next nonzero =>
    obtain ⟨buf, allotted, -, mounted⟩ := run_bind_ok.1 mounted
    obtain ⟨_, read, -, mounted⟩ := run_bind_ok.1 mounted
    cases mounted
    exact ⟨raw, _, rfl, (not_or.1 nonzero).2⟩

/-- The block size of a mounted file system is a power of two. -/
theorem mounted_blockSize (mounted : mount partition world = .ok fs after) :
    ∃ shift < 22, fs.blockSize = 2 ^ (shift + 10) := by
  obtain ⟨raw, table, rfl, nonzero⟩ := mounted_fileSystem mounted
  generalize DiskSuperblock.parse raw = sb at nonzero ⊢
  change ∃ shift < 22, sb.blockSize = _
  have split_eq : 1024 <<< (sb.logBlockSize % 32) = 2 ^ (sb.logBlockSize % 32 + 10) := by
    rw [Nat.shiftLeft_eq, Nat.add_comm, pow_add]
    rfl
  rw [DiskSuperblock.blockSize, split_eq] at nonzero ⊢
  by_cases small : sb.logBlockSize % 32 < 22
  · refine ⟨_, small, Nat.mod_eq_of_lt (Nat.pow_lt_pow_right (by decide) (by omega))⟩
  · refine absurd (Nat.mod_eq_zero_of_dvd (pow_dvd_pow 2 ?_)) nonzero
    omega

theorem mounted_inodesPerGroup (mounted : mount partition world = .ok fs after) :
    fs.inodesPerGroup < 2 ^ 32 := by
  obtain ⟨raw, table, rfl, -⟩ := mounted_fileSystem mounted
  exact (DiskSuperblock.parse_lt raw).2.2

end Accepted

/-! ## Buffers -/

/-- No block has been read, and no frame has come to the supply. -/
structure Quiet (before after : World size slots) : Prop where
  dests_eq : after.dests = before.dests
  supply_subset : after.supply ⊆ before.supply

instance : IsTrans (World size slots) Quiet where
  trans _ _ _ first second := ⟨second.dests_eq.trans first.dests_eq,
    fun _ mem => first.supply_subset (second.supply_subset mem)⟩

/-- Blocks have been read into allowed buffers, provided that the frames of the supply are good. -/
def Writes (good allowed : Nat → Prop) (before after : World size slots) : Prop :=
  (∀ frame ∈ before.supply, good frame) → (∀ frame ∈ after.supply, good frame) ∧
    ∃ more, after.dests = before.dests ++ more ∧ ∀ dest ∈ more, allowed dest

instance (good allowed : Nat → Prop) : IsTrans (World size slots) (Writes good allowed) where
  trans first second third := by
    intro early late supply
    obtain ⟨supply, more, more_eq, more_allowed⟩ := early supply
    obtain ⟨supply, others, others_eq, others_allowed⟩ := late supply
    refine ⟨supply, more ++ others, ?_, fun dest mem => ?_⟩
    · rw [others_eq, more_eq, List.append_assoc]
    · exact (List.mem_append.1 mem).elim (more_allowed dest) (others_allowed dest)

theorem Quiet.writes {good allowed : Nat → Prop} {before after : World size slots}
    (quiet : Quiet before after) : Writes good allowed before after := by
  intro supply
  refine ⟨fun frame mem => supply frame (quiet.supply_subset mem), [], ?_, nofun⟩
  rw [quiet.dests_eq, List.append_nil]

theorem quiet_of_eq {α : Type} {program : Program size slots α}
    (dests_eq : ∀ world, (finalState (program world)).dests = world.dests)
    (supply_eq : ∀ world, (finalState (program world)).supply = world.supply) :
    Along Quiet program :=
  fun world => ⟨dests_eq world, fun _ mem => supply_eq world ▸ mem⟩

theorem alloc_quiet : Along (Quiet : World size slots → World size slots → Prop) alloc := by
  intro world
  rw [alloc]
  split
  · exact ⟨rfl, List.Subset.refl _⟩
  next frame supply supply_eq =>
    refine ⟨rfl, ?_⟩
    rw [supply_eq]
    exact List.subset_cons_self frame supply

section Transfers

variable [NeZero size]

theorem transferSectors_quiet {request : Request} :
    Along (Quiet : World size slots → World size slots → Prop) (transferSectors request) := by
  refine alloc_quiet.bind fun page => ?_
  split
  · exact quiet_of_eq (fun _ => rfl) fun _ => rfl
  refine (quiet_of_eq (fun _ => rfl) fun _ => rfl).bind fun _ world => ?_
  rw [buildChain]
  split <;> exact ⟨rfl, List.Subset.refl _⟩

omit [NeZero size] in
theorem await_quiet {transfer : Transfer} :
    Along (Quiet : World size slots → World size slots → Prop) (await transfer) := by
  intro world
  rw [await]
  split
  · exact ⟨rfl, List.Subset.refl _⟩
  next status statuses _ =>
    dsimp only
    split
    · obtain ⟨bytes, disk, perform_eq⟩ := perform_eq transfer.request { world with
          statuses
          vq := ((world.vq.freeDesc transfer.future.d0).freeDesc transfer.future.d1).freeDesc
            transfer.future.d2
          held := world.held.erase (transfer.future.pagePhys, 0) }
      rw [perform_eq]
      exact ⟨rfl, List.Subset.refl _⟩
    · exact ⟨rfl, List.Subset.refl _⟩

theorem quiet_stable : Stable (Quiet : World size slots → World size slots → Prop) where
  keeps _ _ _ := ⟨rfl, List.Subset.refl _⟩
  submit device sector sectorsCount bufPhys isWrite := by
    refine Along.bind ?_ fun _ => await_quiet
    cases device with
    | disk => exact transferSectors_quiet
    | partition startSector totalSectors =>
        rw [Device.submit]
        split
        · exact quiet_of_eq (fun _ => rfl) fun _ => rfl
        · exact transferSectors_quiet

end Transfers

section Blocks

variable [NeZero size] [NeZero slots] {fs : Ext2FileSystem} {good allowed : Nat → Prop}

/-- `read_block` is called with one buffer. -/
theorem readBlock_dests (fs : Ext2FileSystem) (blockId destPhys : Nat) (world : World size slots) :
    (finalState (readBlock fs blockId destPhys world)).dests = world.dests ++ [destPhys] ∧
      (finalState (readBlock fs blockId destPhys world)).supply ⊆ world.supply := by
  have logged : update (fun world : World size slots =>
      { world with dests := world.dests ++ [destPhys] }) world =
        .ok () { world with dests := world.dests ++ [destPhys] } := rfl
  rw [readBlock, run_bind_of_ok logged]
  split
  · exact ⟨rfl, List.Subset.refl _⟩
  · have along : Along Quiet (cacheReadBlock fs.partition fs.blockSize blockId destPhys :
        Program size slots Unit) := quiet_stable.cacheReadBlock
    have quiet := along { world with dests := world.dests ++ [destPhys] }
    exact ⟨quiet.dests_eq, quiet.supply_subset⟩

theorem readBlock_writes {blockId destPhys : Nat} (into : allowed destPhys) :
    Along (Writes good allowed : World size slots → World size slots → Prop)
      (readBlock fs blockId destPhys) := by
  intro world supply
  obtain ⟨dests_eq, subset⟩ := readBlock_dests fs blockId destPhys world
  refine ⟨fun frame mem => supply frame (subset mem), [destPhys], dests_eq, fun dest mem => ?_⟩
  rw [List.mem_singleton.1 mem]
  exact into

omit [NeZero size] [NeZero slots] in
theorem along_of_quiet {α : Type} {program : Program size slots α}
    (along : Along Quiet program) : Along (Writes good allowed) program :=
  fun world => (along world).writes

omit [NeZero size] [NeZero slots] in
theorem pure_writes {α : Type} {result : α} :
    Along (Writes good allowed) (pure result : Program size slots α) :=
  along_of_quiet (quiet_of_eq (fun _ => rfl) fun _ => rfl)

omit [NeZero size] [NeZero slots] in
/-- A page of the supply is good. -/
theorem taking_writes {α : Type} {rest : Nat → Program size slots α}
    (along : ∀ page, good page → Along (Writes good allowed) (rest page)) :
    Along (Writes good allowed) (alloc >>= fun page => if page = 0 then fail else rest page) := by
  intro world supply
  rcases taking world rest with
    ⟨-, run_eq⟩ | ⟨-, run_eq⟩ | ⟨page, -, head_eq, run_eq⟩
  · rw [run_eq]
    exact ⟨supply, [], (List.append_nil _).symm, nofun⟩
  · rw [run_eq]
    exact ⟨fun frame mem => supply frame (List.mem_of_mem_tail mem), [],
      (List.append_nil _).symm, nofun⟩
  · rw [run_eq]
    have good_page : good page := supply page (List.mem_of_mem_head? head_eq)
    exact along page good_page (withPage page world) fun frame mem =>
      supply frame (List.mem_of_mem_tail mem)

omit [NeZero size] [NeZero slots] in
theorem freeOnErr_writes {α : Type} {program : Program size slots α} {pagePhys : Nat}
    (along : Along (Writes good allowed) program) :
    Along (Writes good allowed) (freeOnErr pagePhys program) := by
  intro world
  have moved := along world
  rw [freeOnErr]
  split
  next run_eq =>
    rw [run_eq] at moved
    exact moved
  · exact moved

theorem followTables_writes {pagePhys : Nat} (into : allowed pagePhys) (path : List Nat) :
    ∀ blockId, Along (Writes good allowed : World size slots → World size slots → Prop)
      (followTables fs pagePhys blockId path) := by
  have freed {result : Nat} :
      Along (Writes good allowed : World size slots → World size slots → Prop) (do
        free pagePhys
        return result) :=
    along_of_quiet (quiet_of_eq (fun _ => rfl) fun _ => rfl)
  induction path with
  | nil => exact fun blockId => freed
  | cons index path ih =>
      intro blockId
      rw [followTables]
      split
      · exact freed
      · exact (readBlock_writes into).bind fun _ =>
          (along_of_quiet (quiet_of_eq (fun _ => rfl) fun _ => rfl)).bind ih

theorem resolveFileBlock_writes (fits : ∀ page, good page → allowed page) {inode : DiskInode}
    {fileBlockIdx : Nat} : Along (Writes good allowed : World size slots → World size slots → Prop)
      (resolveFileBlock fs inode fileBlockIdx) := by
  have tier {indirectId : Nat} {path : List Nat} :
      Along (Writes good allowed : World size slots → World size slots → Prop)
        (resolveTier fs indirectId path) := by
    rw [resolveTier]
    split
    · exact pure_writes
    · exact taking_writes fun page good_page => followTables_writes (fits page good_page) path _
  rw [resolveFileBlock]
  split
  · exact pure_writes
  dsimp only
  split
  · exact tier
  split
  · exact tier
  split
  · exact tier
  · exact along_of_quiet (quiet_of_eq (fun _ => rfl) fun _ => rfl)

theorem loadBlocks_writes (fits : ∀ page, good page → allowed page) {inode : DiskInode}
    {startFileBlock pagePhys : Nat} (blocks : List Nat)
    (into : ∀ i ∈ blocks, allowed (pagePhys + i * fs.blockSize)) :
    Along (Writes good allowed : World size slots → World size slots → Prop)
      (loadBlocks fs inode startFileBlock pagePhys blocks) := by
  induction blocks with
  | nil => exact pure_writes
  | cons i rest ih =>
      refine (resolveFileBlock_writes fits).bind fun _ => ?_
      refine (readBlock_writes (into i List.mem_cons_self)).bind fun _ => ?_
      exact ih fun later mem => into later (List.mem_cons_of_mem i mem)

theorem walkBlocks_writes {α : Type} {wanted : List DirEntry → Option α} {pagePhys : Nat}
    (into : allowed pagePhys) (blocks : List Nat) :
    ∀ seen, Along (Writes good allowed : World size slots → World size slots → Prop)
      (walkBlocks fs wanted pagePhys blocks seen) := by
  have freed {result : Option α × List DirEntry} :
      Along (Writes good allowed : World size slots → World size slots → Prop) (do
        free pagePhys
        return result) :=
    along_of_quiet (quiet_of_eq (fun _ => rfl) fun _ => rfl)
  induction blocks with
  | nil => exact fun seen => freed
  | cons blockId rest ih =>
      intro seen
      rw [walkBlocks]
      split
      · exact ih seen
      · refine (freeOnErr_writes (readBlock_writes into)).bind fun _ => ?_
        refine (along_of_quiet (quiet_of_eq (fun _ => rfl) fun _ => rfl)).bind fun entries => ?_
        split
        · exact freed
        · exact ih _

theorem walkDirectory_writes (fits : ∀ page, good page → allowed page) {α : Type}
    {wanted : List DirEntry → Option α} {inode : DiskInode} :
    Along (Writes good allowed : World size slots → World size slots → Prop)
      (walkDirectory fs wanted inode) :=
  taking_writes fun page good_page => walkBlocks_writes (fits page good_page) _ _

theorem readInode_writes (fits : ∀ page, good page → allowed page) {inodeNum : Nat} :
    Along (Writes good allowed : World size slots → World size slots → Prop)
      (readInode fs inodeNum) := by
  have faulted {α : Type} {fault : Fault} :
      Along (Writes good allowed : World size slots → World size slots → Prop)
        (fun world => .error fault world : Program size slots α) :=
    along_of_quiet (quiet_of_eq (fun _ => rfl) fun _ => rfl)
  rw [readInode]
  split
  · exact faulted
  split
  · exact faulted
  split
  · exact faulted
  rw [readInodeWith]
  split
  · exact faulted
  refine taking_writes fun page good_page => ?_
  exact (freeOnErr_writes (readBlock_writes (fits page good_page))).bind fun _ =>
    along_of_quiet (quiet_of_eq (fun _ => rfl) fun _ => rfl)

omit [NeZero size] [NeZero slots] in
theorem lands_page {blockSize : Nat} (small : blockSize ≤ NORMAL_PAGE_SIZE) (page : Nat)
    (aligned : NORMAL_PAGE_SIZE ∣ page) : Lands blockSize page := by
  rw [Lands, Nat.mod_eq_zero_of_dvd aligned, Nat.zero_add]
  exact small

/-- The blocks of a page lie in it one behind the other. -/
theorem lands_block {blockSize page i : Nat} (aligned : NORMAL_PAGE_SIZE ∣ page)
    (lt : i < NORMAL_PAGE_SIZE / blockSize) : Lands blockSize (page + i * blockSize) := by
  have room : (i + 1) * blockSize ≤ NORMAL_PAGE_SIZE :=
    (Nat.mul_le_mul_right blockSize lt).trans (Nat.div_mul_le_self _ _)
  rw [Nat.add_mul, Nat.one_mul] at room
  rcases Nat.eq_zero_or_pos blockSize with rfl | positive
  · rw [Nat.div_zero] at lt
    exact absurd lt (Nat.not_lt_zero i)
  · rw [Lands, Nat.add_mod, Nat.mod_eq_zero_of_dvd aligned, Nat.zero_add, Nat.mod_mod,
      Nat.mod_eq_of_lt (by omega)]
    exact room

theorem fillPage_writes {inode : DiskInode} {vmo : Vmo} {offset pagePhys : Nat}
    (small : fs.blockSize ≤ NORMAL_PAGE_SIZE) (aligned : NORMAL_PAGE_SIZE ∣ pagePhys) :
    Along (Writes (NORMAL_PAGE_SIZE ∣ ·) (Lands fs.blockSize) :
      World size slots → World size slots → Prop) (fillPage fs inode vmo offset pagePhys) := by
  have fits := lands_page small
  rw [fillPage]
  split
  · exact along_of_quiet (quiet_of_eq (fun _ => rfl) fun _ => rfl)
  · refine (loadBlocks_writes fits _ fun i mem => ?_).bind fun _ => pure_writes
    exact lands_block aligned (List.mem_range.1 mem)

/-- With blocks that fit into a frame, every buffer has room for one. -/
theorem run_writes (small : fs.blockSize ≤ NORMAL_PAGE_SIZE) (op : FileOperation) :
    Along (Writes (NORMAL_PAGE_SIZE ∣ ·) (Lands fs.blockSize) :
      World size slots → World size slots → Prop) (op.run fs) := by
  have fits := lands_page small
  cases op with
  | readInode inodeNum => exact (readInode_writes fits).bind fun _ => pure_writes
  | lookup inode name =>
      exact ((walkDirectory_writes fits).bind fun _ => pure_writes).bind fun _ => pure_writes
  | list inode =>
      exact ((walkDirectory_writes fits).bind fun _ => pure_writes).bind fun _ => pure_writes
  | resolve inode fileBlockIdx => exact (resolveFileBlock_writes fits).bind fun _ => pure_writes
  | requestPage inode vmo offset =>
      refine Along.bind ?_ fun _ => pure_writes
      rw [requestPage]
      split
      · exact along_of_quiet (quiet_of_eq (fun _ => rfl) fun _ => rfl)
      split
      · exact pure_writes
      · exact taking_writes fun page aligned => fillPage_writes small aligned

/-- A page is loaded block by block. -/
theorem loadBlocks_dests {inode : DiskInode} {startFileBlock pagePhys : Nat} (blocks : List Nat) :
    ∀ world last : World size slots,
      loadBlocks fs inode startFileBlock pagePhys blocks world = .ok () last →
      ∃ more, last.dests = world.dests ++ more ∧
        ∀ i ∈ blocks, pagePhys + i * fs.blockSize ∈ more := by
  induction blocks with
  | nil =>
      rintro world _ ⟨⟩
      exact ⟨[], (List.append_nil _).symm, nofun⟩
  | cons i rest ih =>
      intro world last run_eq
      rw [loadBlocks] at run_eq
      obtain ⟨diskBlockId, resolved, resolve_eq, run_eq⟩ := run_bind_ok.1 run_eq
      obtain ⟨_, read, read_eq, run_eq⟩ := run_bind_ok.1 run_eq
      have resolving : Along (Writes (fun _ => True) (fun _ => True))
          (resolveFileBlock fs inode (startFileBlock + i) : Program size slots Nat) :=
        resolveFileBlock_writes fun _ _ => trivial
      obtain ⟨-, tables, tables_eq, -⟩ := resolving.of_ok resolve_eq fun _ _ => trivial
      have dests_eq := (readBlock_dests fs diskBlockId (pagePhys + i * fs.blockSize) resolved).1
      rw [read_eq] at dests_eq
      change read.dests = _ at dests_eq
      obtain ⟨later, later_eq, mem_later⟩ := ih read last run_eq
      refine ⟨tables ++ (pagePhys + i * fs.blockSize) :: later, ?_, fun j mem => ?_⟩
      · rw [later_eq, dests_eq, tables_eq]
        simp only [List.append_assoc, List.cons_append, List.nil_append]
      · rcases List.mem_cons.1 mem with rfl | mem
        · exact List.mem_append_right _ List.mem_cons_self
        · exact List.mem_append_right _ (List.mem_cons_of_mem _ (mem_later j mem))

/-- Every byte of a page that has been filled lies in one of its blocks. -/
theorem requestPage_covers {shift : Nat} (shift_eq : fs.blockSize = 2 ^ (shift + 10))
    (small : fs.blockSize ≤ NORMAL_PAGE_SIZE) {inode : DiskInode} {vmo filled : Vmo}
    {offset page : Nat} {world last : World size slots} (missing : vmo.frameAt offset = none)
    (run_eq : requestPage fs inode vmo offset world = .ok (page, filled) last) :
    ∃ more, last.dests = world.dests ++ more ∧ ∀ i < NORMAL_PAGE_SIZE,
      ∃ dest ∈ more, dest ≤ page + i ∧ page + i < dest + fs.blockSize := by
  have positive : 0 < fs.blockSize := by
    rw [shift_eq]
    exact Nat.two_pow_pos _
  have divides : fs.blockSize ∣ NORMAL_PAGE_SIZE := by
    rw [shift_eq] at small ⊢
    have exponent_le : 2 ^ (shift + 10) ≤ 2 ^ 12 := small
    exact Nat.pow_dvd_pow 2 ((Nat.pow_le_pow_iff_right Nat.one_lt_two).1 exponent_le)
  rw [requestPage] at run_eq
  split at run_eq
  · cases run_eq
  rw [missing] at run_eq
  rcases taking world (fillPage fs inode vmo offset) with
    ⟨-, taken_eq⟩ | ⟨-, taken_eq⟩ | ⟨first, -, -, taken_eq⟩
  · cases taken_eq.symm.trans run_eq
  · cases taken_eq.symm.trans run_eq
  have fill_eq := taken_eq.symm.trans run_eq
  rw [fillPage, if_neg positive.ne'] at fill_eq
  obtain ⟨_, loaded, load_eq, return_eq⟩ := run_bind_ok.1 fill_eq
  cases return_eq
  obtain ⟨more, dests_eq, mem_more⟩ := loadBlocks_dests _ _ _ load_eq
  refine ⟨more, dests_eq, fun i lt => ?_⟩
  have index_lt : i / fs.blockSize < NORMAL_PAGE_SIZE / fs.blockSize :=
    Nat.div_lt_div_of_lt_of_dvd divides lt
  refine ⟨_, mem_more _ (List.mem_range.2 index_lt), ?_, ?_⟩
  · exact Nat.add_le_add_left (Nat.div_mul_le_self i _) page
  · have below := Nat.lt_div_mul_add positive (a := i)
    omega

end Blocks

/-! ## Inodes -/

section Inodes

variable {fs : Ext2FileSystem}

/-- The number of the inode with this index in a group. -/
theorem inode_of_index (group : Nat) {index : Nat} (lt : index < fs.inodesPerGroup) :
    fs.bgIndex (group * fs.inodesPerGroup + index + 1) = group ∧
      fs.localInodeIdx (group * fs.inodesPerGroup + index + 1) = index := by
  have positive : 0 < fs.inodesPerGroup := Nat.zero_lt_of_lt lt
  rw [Ext2FileSystem.bgIndex, Ext2FileSystem.localInodeIdx, Nat.add_sub_cancel, Nat.add_comm]
  constructor
  · rw [Nat.add_mul_div_right _ _ positive, Nat.div_eq_of_lt lt, Nat.zero_add]
  · rw [Nat.add_mul_mod_self_right, Nat.mod_eq_of_lt lt]

/-- An inode number leads to an index that is not beyond the last one of its group. -/
theorem index_of_inode {inodeNum : Nat} (lt : inodeNum < 2 ^ 32)
    (positive : 0 < fs.inodesPerGroup) :
    fs.bgIndex inodeNum * fs.inodesPerGroup < 2 ^ 32 - 1 ∧
      fs.localInodeIdx inodeNum ≤ fs.lastIndex (fs.bgIndex inodeNum) := by
  have split_eq := Nat.div_add_mod' (inodeNum - 1) fs.inodesPerGroup
  have mod_lt := Nat.mod_lt (inodeNum - 1) positive
  rw [Ext2FileSystem.lastIndex, Ext2FileSystem.bgIndex, Ext2FileSystem.localInodeIdx]
  omega

/-- The sizes of the disk fit together exactly if `read_inode` is right about every inode. -/
theorem inodes_inside_iff (ipg_lt : fs.inodesPerGroup < 2 ^ 32) (positive : 0 < fs.inodesPerGroup) :
    (∀ inodeNum < 2 ^ 32, inodeNum ≠ 0 → ∀ desc, fs.bgdt[fs.bgIndex inodeNum]? = some desc →
      InodeInside fs desc inodeNum) ↔
      (fs.bgdt ≠ [] → (fs.inodesPerGroup - 1) * fs.inodeSize < 2 ^ 32) ∧
      (fs.bgdt ≠ [] → ∀ index < fs.inodesPerGroup,
        index * fs.inodeSize % fs.blockSize + INODE_SIZE ≤ fs.blockSize) ∧
      ∀ group desc, fs.bgdt[group]? = some desc → group * fs.inodesPerGroup < 2 ^ 32 - 1 →
        desc.inodeTable + fs.lastIndex group * fs.inodeSize / fs.blockSize < 2 ^ 32 := by
  constructor
  · intro inodes
    have at_index {group index : Nat} {desc : DiskGroupDesc} (lt : index < fs.inodesPerGroup)
        (number_lt : group * fs.inodesPerGroup + index + 1 < 2 ^ 32)
        (desc_eq : fs.bgdt[group]? = some desc) : index * fs.inodeSize < 2 ^ 32 ∧
          desc.inodeTable + index * fs.inodeSize / fs.blockSize < 2 ^ 32 ∧
          index * fs.inodeSize % fs.blockSize + INODE_SIZE ≤ fs.blockSize := by
      obtain ⟨group_eq, index_eq⟩ := inode_of_index group lt
      obtain ⟨product, sum, inside⟩ := inodes _ number_lt (Nat.succ_ne_zero _) desc
        (by rw [group_eq]; exact desc_eq)
      rw [index_eq] at product
      rw [Ext2FileSystem.byteOffset, index_eq, Nat.mod_eq_of_lt product] at sum inside
      exact ⟨product, sum, inside⟩
    have first (some_group : fs.bgdt ≠ []) : ∃ desc, fs.bgdt[0]? = some desc := by
      cases bgdt_eq : fs.bgdt with
      | nil => exact absurd bgdt_eq some_group
      | cons desc rest => exact ⟨desc, rfl⟩
    refine ⟨fun some_group => ?_, fun some_group index lt => ?_, fun group desc desc_eq below => ?_⟩
    · obtain ⟨desc, desc_eq⟩ := first some_group
      exact (at_index (by omega) (by omega) desc_eq).1
    · obtain ⟨desc, desc_eq⟩ := first some_group
      exact (at_index lt (by omega) desc_eq).2.2
    · have last_lt : fs.lastIndex group < fs.inodesPerGroup := by
        rw [Ext2FileSystem.lastIndex]
        omega
      have last_le : fs.lastIndex group ≤ 2 ^ 32 - 2 - group * fs.inodesPerGroup :=
        Nat.min_le_right _ _
      exact (at_index last_lt (by omega) desc_eq).2.1
  · rintro ⟨product, inside, tables⟩ inodeNum lt - desc desc_eq
    have some_group : fs.bgdt ≠ [] := by
      rintro none_eq
      rw [none_eq] at desc_eq
      cases desc_eq
    obtain ⟨below, index_le⟩ := index_of_inode lt positive
    have index_lt : fs.localInodeIdx inodeNum < fs.inodesPerGroup := Nat.mod_lt _ positive
    have product_lt : fs.localInodeIdx inodeNum * fs.inodeSize < 2 ^ 32 :=
      (Nat.mul_le_mul_right _ (by omega)).trans_lt (product some_group)
    have offset_eq : fs.byteOffset inodeNum = fs.localInodeIdx inodeNum * fs.inodeSize :=
      Nat.mod_eq_of_lt product_lt
    refine ⟨product_lt, ?_, ?_⟩
    · rw [offset_eq]
      refine lt_of_le_of_lt ?_ (tables _ desc desc_eq below)
      exact Nat.add_le_add_left (Nat.div_le_div_right (Nat.mul_le_mul_right _ index_le)) _
    · rw [offset_eq]
      exact inside some_group _ index_lt

end Inodes

section Accepted

variable [NeZero size] [NeZero slots] {partition : Device} {fs : Ext2FileSystem}
  {world after : World size slots}

/-- An inode with a table of block pointers, which is in block 1. -/
def indirectInode : DiskInode := ⟨List.replicate 88 0 ++ [1]⟩

/-- The table of block pointers is read into the page that has been taken for it. -/
theorem table_dest (large : 4 ≤ fs.blockSize) {start : World size slots} {page : Nat}
    (nonzero : page ≠ 0) (supply_eq : start.supply = [page]) :
    page ∈ (finalState ((FileOperation.resolve indirectInode 12).run fs start)).dests := by
  have pointer_eq : indirectInode.pointer 12 = 1 := by decide
  have tier_eq : (resolveFileBlock fs indirectInode 12 : Program size slots Nat) =
      resolveTier fs 1 [0] := by
    rw [resolveFileBlock, if_neg (by decide), pointer_eq]
    exact if_pos (Nat.div_pos large (by decide))
  have taken_eq :
      resolveTier fs 1 [0] start = followTables fs page 1 [0] (withPage page start) := by
    rw [resolveTier, if_neg Nat.one_ne_zero]
    rcases taking start (fun page => followTables fs page 1 [0]) with
      ⟨empty, -⟩ | ⟨noPage, -⟩ | ⟨first, -, head_eq, run_eq⟩
    · rw [supply_eq] at empty
      cases empty
    · rw [NoPage, supply_eq] at noPage
      exact absurd (Option.some.inj noPage) nonzero
    · rw [supply_eq] at head_eq
      cases head_eq
      exact run_eq
  -- What comes after the first read only adds to the buffers.
  have later {α β : Type} {first : Program size slots α} {rest : α → Program size slots β}
      {world : World size slots} (mem : page ∈ (finalState (first world)).dests)
      (adds : ∀ value, Along (Writes (fun _ => True) (fun _ => True)) (rest value)) :
      page ∈ (finalState ((first >>= rest) world)).dests := by
    cases first_eq : first world with
    | error fault last =>
        rw [run_bind_of_error first_eq]
        rw [first_eq] at mem
        exact mem
    | ok value middle =>
        rw [run_bind_of_ok first_eq]
        rw [first_eq] at mem
        obtain ⟨-, more, dests_eq, -⟩ := adds value middle fun _ _ => trivial
        rw [dests_eq]
        exact List.mem_append_left _ mem
  refine later ?_ fun _ => pure_writes
  rw [tier_eq, taken_eq, followTables, if_neg Nat.one_ne_zero]
  refine later ?_ fun _ => ?_
  · rw [(readBlock_dests fs 1 page (withPage page start)).1]
    exact List.mem_append_right _ (List.mem_singleton_self page)
  · exact (along_of_quiet (quiet_of_eq (fun _ => rfl) fun _ => rfl)).bind
      (followTables_writes trivial [])

/-- A block that does not fit into a frame is read into one all the same. -/
theorem blockSize_le_of_dests (large : 4 ≤ fs.blockSize)
    (dests : ∀ (op : FileOperation) (start : World size slots), Aligned start →
      ∃ more, (finalState (op.run fs start)).dests = start.dests ++ more ∧
        ∀ dest ∈ more, Lands fs.blockSize dest) (world : World size slots) :
    fs.blockSize ≤ NORMAL_PAGE_SIZE := by
  let start : World size slots := { world with supply := [NORMAL_PAGE_SIZE], dests := [] }
  have aligned : Aligned start := fun frame mem => (List.mem_singleton.1 mem) ▸ dvd_rfl
  obtain ⟨more, dests_eq, lands⟩ := dests (.resolve indirectInode 12) start aligned
  have mem := table_dest large (by decide) (rfl : start.supply = [NORMAL_PAGE_SIZE])
  rw [dests_eq] at mem
  have room := lands _ mem
  rwa [Lands, Nat.mod_self, Nat.zero_add] at room

/-- An accepted file system is safe to use exactly if its sizes fit together. -/
theorem accepted_safe_iff (mounted : mount partition world = .ok fs after) :
    Safe size slots fs ↔ fs.Fits := by
  obtain ⟨shift, shift_lt, shift_eq⟩ := mounted_blockSize mounted
  have ipg_lt := mounted_inodesPerGroup mounted
  have large : 1024 ≤ fs.blockSize := by
    rw [shift_eq]
    exact Nat.pow_le_pow_right Nat.two_pos (Nat.le_add_left 10 shift)
  constructor
  · rintro ⟨dests, divisors, inodes, -⟩
    have positive : 0 < fs.inodesPerGroup :=
      Nat.pos_of_ne_zero (divisors 1 (by decide) Nat.one_ne_zero).1
    obtain ⟨product, inside, tables⟩ := (inodes_inside_iff ipg_lt positive).1 inodes
    have small : fs.blockSize ≤ NORMAL_PAGE_SIZE :=
      blockSize_le_of_dests (by omega) dests world
    exact ⟨small, positive, product, inside, tables⟩
  · rintro ⟨small, positive, product, inside, tables⟩
    refine ⟨fun op start aligned => ?_, fun _ _ _ => ⟨positive.ne', by omega⟩, ?_, ?_⟩
    · exact (run_writes small op start aligned).2
    · exact (inodes_inside_iff ipg_lt positive).2 ⟨product, inside, tables⟩
    · intro inode vmo offset start last page filled missing run_eq
      exact requestPage_covers shift_eq small missing run_eq

end Accepted

/-- The file system of the small disk. -/
def smallFileSystem : Ext2FileSystem :=
  smallSuperblock.fileSystem (.partition 64 8192) (List.replicate GROUP_DESC_SIZE 0)

theorem smallWorld_mounted :
    ∃ after, mount (.partition 64 8192) smallWorld = .ok smallFileSystem after := by
  have arrives : TableArrives (.partition 64 8192) smallSuperblock smallWorld :=
    ⟨nofun, by decide, ⟨12288, by decide, rfl⟩, rfl, rfl⟩
  have ends := mounting (smallWorld_superblock (show 4 ≤ 8192 by decide)) smallWorld_queue
    (by decide)
  generalize mount (.partition 64 8192) smallWorld = result at ends
  cases ends with
  | tooLarge order_lt => exact absurd order_lt (by decide)
  | failed _ missing => exact absurd arrives missing
  | mounted page buf _ _ _ table_eq =>
      obtain rfl := table_eq (by decide)
      have zeros : sectorBytes smallWorld.disk ((Device.partition 64 8192).place
          smallSuperblock.bgdtStartSector) (smallSuperblock.numGroups * GROUP_DESC_SIZE) =
            List.replicate GROUP_DESC_SIZE 0 := by decide
      rw [zeros]
      exact ⟨_, rfl⟩

theorem smallFileSystem_fits : smallFileSystem.Fits := by
  have size_eq : smallFileSystem.blockSize = 1024 := by decide
  have inode_eq : smallFileSystem.inodeSize = 128 := by decide
  have bgdt_eq : smallFileSystem.bgdt = [⟨List.replicate GROUP_DESC_SIZE 0⟩] := by decide
  refine ⟨by decide, by decide, fun _ => by decide, fun _ index _ => ?_, ?_⟩
  · rw [size_eq, inode_eq, INODE_SIZE]
    omega
  · intro group desc desc_eq _
    rw [bgdt_eq] at desc_eq
    cases group with
    | zero =>
        obtain rfl := Option.some.inj desc_eq
        decide
    | succ group => cases desc_eq

/-- Kilobyte blocks and inodes of 128 bytes are safe. -/
theorem small_file_system_safe :
    (∃ after, mount (.partition 64 8192) smallWorld = .ok smallFileSystem after) ∧
      Safe 4 1 smallFileSystem := by
  obtain ⟨after, mounted⟩ := smallWorld_mounted
  exact ⟨⟨after, mounted⟩, (accepted_safe_iff mounted).2 smallFileSystem_fits⟩

/-- The small disk with a superblock that asks for blocks of 8192 bytes. -/
def largeBlocks : World 4 1 := { smallWorld with disk := Function.update smallDisk 33816 3 }

/-- Its superblock. -/
def largeSuperblock : DiskSuperblock := { smallSuperblock with logBlockSize := 3 }

theorem largeBlocks_superblock :
    Superblock (.partition 64 8192) largeBlocks largeSuperblock := by
  refine ⟨⟨4096, by decide, rfl⟩, ⟨show 4 ≤ 8192 by decide, ⟨8192, by decide, rfl⟩, rfl, rfl⟩, ?_,
    rfl⟩
  rw [parse_sectorBytes]
  decide

/-- `mount` accepts blocks of 8192 bytes, and a block of pointers is read into a page of 4096. -/
theorem large_blocks_overrun :
    ∃ fs after, mount (.partition 64 8192) largeBlocks = .ok fs after ∧ fs.blockSize = 8192 ∧
      (∃ start : World 4 1, Aligned start ∧ ∃ dest ∈ (finalState
        ((FileOperation.resolve indirectInode 12).run fs start)).dests, ¬ Lands fs.blockSize dest) ∧
      ¬ Safe 4 1 fs := by
  have arrives : TableArrives (.partition 64 8192) largeSuperblock largeBlocks :=
    ⟨nofun, by decide, ⟨12288, by decide, rfl⟩, rfl, rfl⟩
  have ends := mounting largeBlocks_superblock smallWorld_queue (by decide)
  generalize mount (.partition 64 8192) largeBlocks = result at ends
  cases ends with
  | tooLarge order_lt => exact absurd order_lt (by decide)
  | failed _ missing => exact absurd arrives missing
  | @mounted table after page buf _ _ _ _ =>
      generalize fs_eq : largeSuperblock.fileSystem (.partition 64 8192) table = fs
      have size_eq : fs.blockSize = 8192 := by
        rw [← fs_eq]
        exact (by decide : largeSuperblock.blockSize = 8192)
      have large : 4 ≤ fs.blockSize := by
        rw [size_eq]
        decide
      refine ⟨fs, after, rfl, size_eq, ?_, fun safe => ?_⟩
      · refine ⟨restingWorld 0 [], fun frame mem => ?_, 4096, ?_, ?_⟩
        · rw [List.mem_singleton.1 mem]
          exact dvd_rfl
        · exact table_dest large (by decide) rfl
        · rw [Lands, size_eq]
          decide
      · have small := blockSize_le_of_dests large safe.dests largeBlocks
        rw [size_eq] at small
        exact absurd small (by decide)

end Vespertine.Storage
