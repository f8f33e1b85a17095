import Vespertine.Drivers.Mount
import Vespertine.Drivers.Transfers

/-!
# The block group table

`mount` computes from five fields of the superblock how many blocks the table of the group
descriptors takes.  To round up, it multiplies by the block size where it should add it, and asks
for one block less than the table has bytes.
-/

namespace Vespertine.Storage

open Virtio (DeviceStatus Request)

variable {size slots : Nat}

namespace DiskSuperblock

variable (sb : DiskSuperblock)

/-- The number of groups. -/
def groups : Nat := (sb.blocksCount + sb.blocksPerGroup - 1) / sb.blocksPerGroup

/-- The number of blocks that the table takes. -/
def tableBlocks : Nat := (GROUP_DESC_SIZE * sb.groups + sb.blockSize - 1) / sb.blockSize

/-- The block after the one with the superblock. -/
def tableStart : Nat := 1024 / sb.blockSize + 1

/-- No shift and no 32-bit product of `mount` overflows, and no division is by zero. -/
structure Exact : Prop where
  shift : 1024 * 2 ^ sb.logBlockSize < 2 ^ 32
  blocksPerGroup_ne : sb.blocksPerGroup ≠ 0
  blockSize_ne : sb.blockSize ≠ 0
  product : sb.numGroups * GROUP_DESC_SIZE % 2 ^ 32 * sb.blockSize < 2 ^ 32
  sectors : sb.bgdtBlocks * (sb.blockSize / 512) < 2 ^ 32

end DiskSuperblock

/-- The superblock that a mount reads and accepts. -/
structure Superblock (partition : Device) (world : World size slots) (sb : DiskSuperblock) :
    Prop where
  page : ∃ page, page ≠ 0 ∧ world.supply.head? = some page
  reads : Reads partition 2 2 (takenPage world)
  sb_eq : sb = DiskSuperblock.parse (sectorBytes world.disk (partition.place 2) 1024)
  magic : sb.magic = EXT2_MAGIC

/-- The table has been read: after the request for the superblock there is one for exactly the
blocks of the table, and there is a descriptor for every group. -/
structure TableRead (partition : Device) (sb : DiskSuperblock) (world after : World size slots)
    (fs : Ext2FileSystem) : Prop where
  requests_eq : ∃ page table, after.requests = world.requests ++
    [⟨partition.place 2, 2, page, false⟩,
      ⟨partition.place (sb.tableStart * (sb.blockSize / 512)),
        sb.tableBlocks * (sb.blockSize / 512), table, false⟩]
  bgdt_eq : ∀ i < sb.groups, fs.bgdt[i]? = some ⟨(List.range GROUP_DESC_SIZE).map fun j =>
    world.disk (partition.place (sb.tableStart * (sb.blockSize / 512)) * 512 +
      (i * GROUP_DESC_SIZE + j))⟩

/-- A mount returns `Err(())` or has read the table.  A call that waits for the device, or finds no
memory, does not return at all. -/
def Settles (partition : Device) (sb : DiskSuperblock) (world : World size slots) :
    EStateM.Result Fault (World size slots) Ext2FileSystem → Prop
  | .ok fs after => TableRead partition sb world after fs
  | .error .err _ => True
  | .error (.panic cause) _ => cause = .outOfMemory ∨ cause = .diverges
  | .error .divideByZero _ => False

/-- The world after the superblock, as far as another read depends on it. -/
def afterSuperblock (world : World size slots) : World size slots :=
  { world with supply := world.supply.tail.tail, statuses := world.statuses.tail }

/-- There is a block of frames for the table, and the read of it succeeds. -/
def TableArrives (partition : Device) (sb : DiskSuperblock) (world : World size slots) : Prop :=
  ¬ NoBlock world ∧
    Reads partition sb.bgdtStartSector sb.bgdtSectors (afterSuperblock world)

/-! ## Sizes -/

section Sizes

variable {sb : DiskSuperblock}

theorem blockSize_eq (small : sb.logBlockSize < 22) :
    sb.blockSize = 2 ^ (sb.logBlockSize + 10) := by
  have lt : (2 : Nat) ^ (sb.logBlockSize + 10) < 2 ^ 32 :=
    Nat.pow_lt_pow_right (by decide) (by omega)
  have shift_eq : sb.logBlockSize % 32 = sb.logBlockSize := Nat.mod_eq_of_lt (by omega)
  have split_eq : 1024 <<< sb.logBlockSize = 2 ^ (sb.logBlockSize + 10) := by
    rw [Nat.shiftLeft_eq, Nat.add_comm, pow_add]
    rfl
  rw [DiskSuperblock.blockSize, shift_eq, split_eq, Nat.mod_eq_of_lt lt]

theorem shift_iff : 1024 * 2 ^ sb.logBlockSize < 2 ^ 32 ↔ sb.logBlockSize < 22 := by
  have product_eq : 1024 * 2 ^ sb.logBlockSize = 2 ^ (sb.logBlockSize + 10) := by
    rw [Nat.add_comm, pow_add]
    rfl
  rw [product_eq, Nat.pow_lt_pow_iff_right (by decide)]
  omega

/-- A block has a kilobyte at least, and less than half of what 32 bits can count. -/
theorem blockSize_bounds (small : sb.logBlockSize < 22) :
    1024 ≤ sb.blockSize ∧ sb.blockSize ≤ 2 ^ 31 := by
  rw [blockSize_eq small]
  exact ⟨Nat.pow_le_pow_right Nat.two_pos (Nat.le_add_left 10 _),
    Nat.pow_le_pow_right Nat.two_pos (by omega)⟩

/-- The groups are counted right, unless the sum wraps around; then there are none. -/
theorem numGroups_cases (blocks_lt : sb.blocksCount < 2 ^ 32)
    (group_lt : sb.blocksPerGroup < 2 ^ 32) (nonzero : sb.blocksPerGroup ≠ 0) :
    sb.numGroups = sb.groups ∨ sb.numGroups = 0 ∧ 0 < sb.groups := by
  have positive : 0 < sb.blocksPerGroup := Nat.pos_of_ne_zero nonzero
  rw [DiskSuperblock.numGroups, DiskSuperblock.groups]
  by_cases wraps : sb.blocksCount + sb.blocksPerGroup ≤ 2 ^ 32
  · have sum_eq : ((sb.blocksCount + sb.blocksPerGroup) % 2 ^ 32 + (2 ^ 32 - 1)) % 2 ^ 32 =
        sb.blocksCount + sb.blocksPerGroup - 1 := by omega
    exact .inl (by rw [sum_eq])
  · have sum_lt : ((sb.blocksCount + sb.blocksPerGroup) % 2 ^ 32 + (2 ^ 32 - 1)) % 2 ^ 32 <
        sb.blocksPerGroup := by omega
    exact .inr ⟨Nat.div_eq_of_lt sum_lt, Nat.div_pos (by omega) positive⟩

theorem exact_iff : sb.Exact ↔ sb.logBlockSize < 22 ∧ sb.blocksPerGroup ≠ 0 ∧
    sb.numGroups * GROUP_DESC_SIZE % 2 ^ 32 * sb.blockSize < 2 ^ 32 := by
  constructor
  · rintro ⟨shift, group_ne, -, product, -⟩
    exact ⟨shift_iff.1 shift, group_ne, product⟩
  · rintro ⟨small, group_ne, product⟩
    have large := (blockSize_bounds small).1
    refine ⟨shift_iff.2 small, group_ne, by omega, product, ?_⟩
    have sectors_le : sb.bgdtBlocks * (sb.blockSize / 512) ≤
        (sb.numGroups * GROUP_DESC_SIZE % 2 ^ 32 * sb.blockSize % 2 ^ 32 + (2 ^ 32 - 1)) % 2 ^ 32 :=
      (Nat.mul_le_mul_left _ (Nat.div_le_self _ 512)).trans (Nat.div_mul_le_self _ _)
    exact sectors_le.trans_lt (Nat.mod_lt _ (by decide))

/-- What the computation with the wrong operator comes to. -/
theorem bgdtBlocks_cases (positive : 0 < sb.blockSize)
    (product : sb.numGroups * GROUP_DESC_SIZE % 2 ^ 32 * sb.blockSize < 2 ^ 32) :
    sb.numGroups * GROUP_DESC_SIZE % 2 ^ 32 = 0 ∧ sb.bgdtBlocks = (2 ^ 32 - 1) / sb.blockSize ∨
      0 < sb.numGroups * GROUP_DESC_SIZE % 2 ^ 32 ∧
        sb.bgdtBlocks = sb.numGroups * GROUP_DESC_SIZE % 2 ^ 32 - 1 := by
  rw [DiskSuperblock.bgdtBlocks]
  generalize sb.numGroups * GROUP_DESC_SIZE % 2 ^ 32 = bytes at product ⊢
  rw [Nat.mod_eq_of_lt product]
  rcases Nat.eq_zero_or_pos bytes with rfl | some_bytes
  · exact .inl ⟨rfl, by rw [Nat.zero_mul, Nat.zero_add, Nat.mod_eq_of_lt (by decide)]⟩
  · refine .inr ⟨some_bytes, ?_⟩
    have nonzero : 0 < bytes * sb.blockSize := Nat.mul_pos some_bytes positive
    have minus_eq : (bytes * sb.blockSize + (2 ^ 32 - 1)) % 2 ^ 32 = bytes * sb.blockSize - 1 := by
      omega
    have bytes_eq : bytes - 1 + 1 = bytes := Nat.sub_add_cancel some_bytes
    have split_eq : bytes * sb.blockSize - 1 = sb.blockSize - 1 + (bytes - 1) * sb.blockSize := by
      have := Nat.succ_mul (bytes - 1) sb.blockSize
      rw [Nat.succ_eq_add_one, bytes_eq] at this
      omega
    rw [minus_eq, split_eq, Nat.add_mul_div_right _ _ positive,
      Nat.div_eq_of_lt (Nat.sub_lt positive Nat.one_pos), Nat.zero_add]

/-- The blocks of the table hold all descriptors, with less than one block to spare. -/
theorem tableBlocks_bounds (positive : 0 < sb.blockSize) :
    GROUP_DESC_SIZE * sb.groups ≤ sb.tableBlocks * sb.blockSize ∧
      sb.tableBlocks * sb.blockSize < GROUP_DESC_SIZE * sb.groups + sb.blockSize := by
  have div_add := Nat.div_add_mod (GROUP_DESC_SIZE * sb.groups + sb.blockSize - 1) sb.blockSize
  have mod_lt := Nat.mod_lt (GROUP_DESC_SIZE * sb.groups + sb.blockSize - 1) positive
  rw [DiskSuperblock.tableBlocks, Nat.mul_comm _ sb.blockSize]
  omega

/-- The number of blocks that `mount` asks for is never the number that the table takes. -/
theorem bgdtBlocks_ne (small : sb.logBlockSize < 22)
    (product : sb.numGroups * GROUP_DESC_SIZE % 2 ^ 32 * sb.blockSize < 2 ^ 32)
    (groups_eq : sb.numGroups = sb.groups) : sb.bgdtBlocks ≠ sb.tableBlocks := by
  obtain ⟨large, bounded⟩ := blockSize_bounds small
  have positive : 0 < sb.blockSize := by omega
  obtain ⟨above, below⟩ := tableBlocks_bounds positive
  intro blocks_eq
  rw [← blocks_eq, Nat.mul_comm GROUP_DESC_SIZE, ← groups_eq] at above below
  rcases bgdtBlocks_cases positive product with ⟨none_eq, asked_eq⟩ | ⟨some_bytes, asked_eq⟩
  · -- without groups, one is subtracted from zero
    have asked_pos : 0 < sb.bgdtBlocks := by
      rw [asked_eq]
      exact Nat.div_pos (by omega) positive
    have asked_le : sb.bgdtBlocks * sb.blockSize ≤ 2 ^ 32 - 1 := by
      rw [asked_eq]
      exact Nat.div_mul_le_self _ _
    have one_block : sb.blockSize ≤ sb.bgdtBlocks * sb.blockSize :=
      Nat.le_mul_of_pos_left _ asked_pos
    omega
  · have bytes_eq : sb.numGroups * GROUP_DESC_SIZE % 2 ^ 32 - 1 + 1 =
        sb.numGroups * GROUP_DESC_SIZE % 2 ^ 32 := Nat.sub_add_cancel some_bytes
    rw [← asked_eq] at bytes_eq
    rw [← bytes_eq, Nat.succ_mul] at product
    have no_wrap : sb.numGroups * GROUP_DESC_SIZE = sb.bgdtBlocks + 1 := by omega
    rw [no_wrap] at below
    have many : 31 ≤ sb.bgdtBlocks := by
      rw [GROUP_DESC_SIZE] at no_wrap
      omega
    have less : (sb.bgdtBlocks - 1) * 1024 ≤ (sb.bgdtBlocks - 1) * sb.blockSize :=
      Nat.mul_le_mul_left _ large
    have blocks_split : sb.bgdtBlocks * sb.blockSize =
        (sb.bgdtBlocks - 1) * sb.blockSize + sb.blockSize := by
      rw [← Nat.succ_mul, Nat.succ_eq_add_one, Nat.sub_add_cancel (by omega)]
    omega

end Sizes

/-! ## Runs -/

section Runs

variable [NeZero size] [NeZero slots] {partition : Device} {sb : DiskSuperblock}
  {world : World size slots}

/-- After an accepted superblock, a mount goes on with it. -/
theorem mount_eq (accepted : Superblock partition world sb) :
    ∃ page middle, ReadDone partition 2 2 page (withPage page world) middle ∧
      mount partition world = mountWith partition sb page middle := by
  obtain ⟨⟨page, page_ne, head_eq⟩, reads, sb_eq, magic⟩ := accepted
  have page_reads : Reads partition 2 2 (withPage page world) :=
    ⟨reads.holds, reads.page, reads.chain, reads.status⟩
  obtain ⟨middle, read_eq⟩ := page_reads.readAll page
  obtain ⟨-, done⟩ := readAll_ok read_eq
  refine ⟨page, middle, done, ?_⟩
  have raw_eq : middle.bytes.read page 1024 = sectorBytes world.disk (partition.place 2) 1024 :=
    read_sectorBytes done.bytes_eq
  have load_eq : loadBytes page 1024 middle = .ok (middle.bytes.read page 1024) middle := rfl
  rcases taking world fun page => do
      partition.readAll 2 2 page
      let raw ← loadBytes page 1024
      let sb := DiskSuperblock.parse raw
      if sb.magic ≠ EXT2_MAGIC then
        failFreeing page
      else
        mountWith partition sb page with
    ⟨empty, -⟩ | ⟨noPage, -⟩ | ⟨first, -, first_eq, mount_eq⟩
  · rw [empty] at head_eq
    cases head_eq
  · rw [NoPage, head_eq] at noPage
    exact absurd (Option.some.inj noPage) page_ne
  · rw [head_eq] at first_eq
    cases first_eq
    change mount partition world = _ at mount_eq
    rw [mount_eq, run_bind_of_ok read_eq, run_bind_of_ok load_eq, raw_eq]
    rw [← sb_eq, if_neg (not_not_intro magic)]

/-- How a mount with an accepted superblock can go. -/
inductive Mounting (partition : Device) (sb : DiskSuperblock) (world : World size slots) :
    EStateM.Result Fault (World size slots) Ext2FileSystem → Prop
  /-- There is no list of free blocks for the order of the table. -/
  | tooLarge {after : World size slots} (order_lt : ORDER_MAX < sb.bgdtAllocOrder) :
      Mounting partition sb world (.error (.panic .indexOutOfBounds) after)
  | failed {fault : Fault} {after : World size slots} (order_le : sb.bgdtAllocOrder ≤ ORDER_MAX)
      (missing : ¬ TableArrives partition sb world)
      (fault_eq : fault = .err ∨ fault = .panic .outOfMemory ∨ fault = .panic .diverges) :
      Mounting partition sb world (.error fault after)
  | mounted {table : List UInt8} {after : World size slots} (page buf : Nat)
      (order_le : sb.bgdtAllocOrder ≤ ORDER_MAX) (arrives : TableArrives partition sb world)
      (requests_eq : after.requests = world.requests ++ [⟨partition.place 2, 2, page, false⟩,
        ⟨partition.place sb.bgdtStartSector, sb.bgdtSectors, buf, false⟩])
      (table_eq : sb.numGroups * GROUP_DESC_SIZE ≤ sb.bgdtSectors * 512 % 2 ^ 32 →
        table = sectorBytes world.disk (partition.place sb.bgdtStartSector)
          (sb.numGroups * GROUP_DESC_SIZE)) :
      Mounting partition sb world (.ok (sb.fileSystem partition table) after)

theorem mounting (accepted : Superblock partition world sb)
    (queue : ∃ nodes, FreeList world.vq nodes)
    (nonzero : ¬ (sb.blocksPerGroup = 0 ∨ sb.blockSize = 0)) :
    Mounting partition sb world (mount partition world) := by
  obtain ⟨nodes, queue⟩ := queue
  obtain ⟨page, middle, done, mount_eq⟩ := mount_eq accepted
  obtain ⟨others, list, perm⟩ := done.balanced.list nodes queue
  let cached : World size slots :=
    { middle with cache := ⟨fun _ => ⟨none, false, false, false, ()⟩, 0⟩ }
  have cache_eq : newCache middle = .ok () cached := rfl
  rw [mount_eq, mountWith, run_bind_of_ok cache_eq, if_neg nonzero]
  have noBlock_iff : NoBlock cached ↔ NoBlock world := by
    rw [NoBlock, NoBlock, done.balanced.orders_eq]
    rfl
  rcases allocTable_cases sb.bgdtAllocOrder page cached with
    ⟨order_lt, table_eq⟩ | ⟨order_le, noBlock, orders, table_eq⟩ |
      ⟨order_le, block, buf, orders, table_eq⟩
  · rw [run_bind_of_error table_eq]
    exact .tooLarge order_lt
  · rw [run_bind_of_error table_eq]
    exact .failed order_le (fun arrives => arrives.1 (noBlock_iff.1 noBlock)) (.inl rfl)
  rw [run_bind_of_ok table_eq]
  -- The read of the table finds what the one of the superblock has left.
  have reads_iff : Reads partition sb.bgdtStartSector sb.bgdtSectors
      { cached with orders, held := (buf, sb.bgdtAllocOrder) ::ₘ cached.held } ↔
        Reads partition sb.bgdtStartSector sb.bgdtSectors (afterSuperblock world) := by
    refine reads_congr done.supply_eq done.statuses_eq ?_
    change middle.vq.allocChain.1.isSome = true ↔ world.vq.allocChain.1.isSome = true
    rw [allocChain_isSome_iff list, allocChain_isSome_iff queue, perm.length_eq]
  have requests_eq : middle.requests =
      world.requests ++ [⟨partition.place 2, 2, page, false⟩] := done.requests_eq
  cases read_eq : partition.readAll sb.bgdtStartSector sb.bgdtSectors buf
      { cached with orders, held := (buf, sb.bgdtAllocOrder) ::ₘ cached.held } with
  | ok _ after =>
      obtain ⟨reads, table_done⟩ := readAll_ok read_eq
      rw [run_bind_of_ok read_eq]
      refine .mounted page buf order_le ⟨?_, reads_iff.1 reads⟩ ?_ fun enough => ?_
      · exact fun noBlock => block (noBlock_iff.2 noBlock)
      · change after.requests = _
        rw [table_done.requests_eq]
        change middle.requests ++ _ = _
        rw [requests_eq, List.append_assoc]
        rfl
      · refine read_sectorBytes fun i lt => ?_
        rw [table_done.bytes_eq i (lt.trans_le enough)]
        exact congrFun done.disk_eq _
  | error fault after =>
      rw [run_bind_of_error read_eq]
      refine .failed order_le (fun arrives => ?_) ?_
      · obtain ⟨last, ok_eq⟩ := (reads_iff.2 arrives.2).readAll buf
        rw [read_eq] at ok_eq
        cases ok_eq
      · cases fault with
        | err => exact .inl rfl
        | panic cause => exact .inr ((readAll_panic read_eq).imp (congrArg _) (congrArg _))
        | divideByZero => exact (readAll_divide read_eq).elim

omit [NeZero size] [NeZero slots] in
/-- The table that a mount has read is not the one it needs. -/
theorem mounted_wrong {table : List UInt8} {after : World size slots} {page buf : Nat}
    (accepted : Superblock partition world sb) (exact : sb.Exact)
    (requests_eq : after.requests = world.requests ++ [⟨partition.place 2, 2, page, false⟩,
      ⟨partition.place sb.bgdtStartSector, sb.bgdtSectors, buf, false⟩]) :
    ¬ TableRead partition sb world after (sb.fileSystem partition table) := by
  rintro ⟨⟨page, other, read_eq⟩, bgdt_eq⟩
  obtain ⟨small, group_ne, product⟩ := exact_iff.1 exact
  obtain ⟨blocks_lt, group_lt, -⟩ := DiskSuperblock.parse_lt
    (sectorBytes world.disk (partition.place 2) 1024)
  rw [← accepted.sb_eq] at blocks_lt group_lt
  rcases numGroups_cases blocks_lt group_lt group_ne with groups_eq | ⟨none_eq, some_groups⟩
  · rw [requests_eq] at read_eq
    simp only [List.append_cancel_left_eq, List.cons.injEq, Request.mk.injEq] at read_eq
    obtain ⟨-, ⟨-, sectors_eq, -⟩, -⟩ := read_eq
    rw [DiskSuperblock.bgdtSectors, Nat.mod_eq_of_lt exact.sectors] at sectors_eq
    have large := (blockSize_bounds small).1
    have sectors_pos : 0 < sb.blockSize / 512 := Nat.div_pos (by omega) (by decide)
    exact bgdtBlocks_ne small product groups_eq (Nat.eq_of_mul_eq_mul_right sectors_pos sectors_eq)
  · have first_eq := bgdt_eq 0 some_groups
    rw [DiskSuperblock.fileSystem, none_eq] at first_eq
    cases first_eq

/-- `mount` meets its purpose exactly where the computation goes through and yet the table is never
read: there is a list of free blocks for its order, but no block of frames, or the read fails. -/
theorem table_read_iff (accepted : Superblock partition world sb)
    (queue : ∃ nodes, FreeList world.vq nodes) :
    sb.Exact ∧ Settles partition sb world (mount partition world) ↔
      (sb.logBlockSize < 22 ∧ sb.blocksPerGroup ≠ 0 ∧
        sb.numGroups * GROUP_DESC_SIZE % 2 ^ 32 * sb.blockSize < 2 ^ 32) ∧
      sb.bgdtAllocOrder ≤ ORDER_MAX ∧ ¬ TableArrives partition sb world := by
  rw [← exact_iff]
  refine and_congr_right fun exact => ?_
  have ends := mounting accepted queue (not_or.2 ⟨exact.blocksPerGroup_ne, exact.blockSize_ne⟩)
  generalize mount partition world = result at ends
  cases ends with
  | tooLarge order_lt =>
      refine iff_of_false ?_ fun fits => fits.1.not_gt order_lt
      rintro (⟨⟨⟩⟩ | ⟨⟨⟩⟩)
  | failed order_le missing fault_eq =>
      refine iff_of_true ?_ ⟨order_le, missing⟩
      rcases fault_eq with rfl | rfl | rfl
      · trivial
      · exact .inl rfl
      · exact .inr rfl
  | mounted page buf order_le arrives requests_eq _ =>
      exact iff_of_false (mounted_wrong accepted exact requests_eq) fun fits => fits.2 arrives

end Runs

/-- The fields of a superblock on a disk. -/
theorem parse_sectorBytes (disk : Nat → UInt8) (sector : Nat) :
    let number (offset width : Nat) := Bytes.toNat
      ((List.range width).map fun i => disk (sector * 512 + (offset + i)))
    DiskSuperblock.parse (sectorBytes disk sector 1024) = ⟨number 4 4, number 24 4, number 32 4,
      number 40 4, number 56 2, number 76 4, number 88 2⟩ := by
  have read (offset width : Nat) (inside : offset + width ≤ 1024) :=
    @field_sectorBytes disk sector 1024 offset width inside
  rw [DiskSuperblock.parse, read 4 4 (by decide), read 24 4 (by decide), read 32 4 (by decide),
    read 40 4 (by decide), read 56 2 (by decide), read 76 4 (by decide), read 88 2 (by decide)]

/-- A partition from sector 64 on with the superblock of 8192 blocks in one group. -/
def smallDisk (place : Nat) : UInt8 :=
  if place = 33797 ∨ place = 33825 then 0x20
  else if place = 33833 then 0x08
  else if place = 33848 then 0x53
  else if place = 33849 then 0xEF
  else 0

/-- The superblock of the small disk. -/
def smallSuperblock : DiskSuperblock := ⟨8192, 0, 8192, 2048, EXT2_MAGIC, 0, 0⟩

/-- The small disk, with frames for everything and a device that reports success. -/
def smallWorld : World 4 1 :=
  { restingWorld 0 [.ok, .ok] with
    disk := smallDisk, supply := [4096, 8192, 12288], orders := [some 65536] }

theorem parse_smallDisk :
    smallSuperblock = DiskSuperblock.parse (sectorBytes smallDisk 66 1024) := by
  rw [parse_sectorBytes]
  decide

theorem smallWorld_superblock {totalSectors : Nat} (large : 4 ≤ totalSectors) :
    Superblock (.partition 64 totalSectors) smallWorld smallSuperblock :=
  ⟨⟨4096, by decide, rfl⟩, ⟨large, ⟨8192, by decide, rfl⟩, rfl, rfl⟩, parse_smallDisk, rfl⟩

theorem smallWorld_queue : ∃ nodes, FreeList smallWorld.vq nodes :=
  ⟨[0, 1, 2, 3], rfl, by decide, rfl, by decide, rfl, by decide, rfl, by decide, rfl⟩

/-- A partition too short for what is asked of it refuses the read. -/
theorem table_read_refused :
    let partition := Device.partition 64 50
    smallSuperblock.Exact ∧
      Settles partition smallSuperblock smallWorld (mount partition smallWorld) := by
  intro partition
  refine (table_read_iff (smallWorld_superblock (by decide)) smallWorld_queue).2
    ⟨by decide, by decide, fun arrives => ?_⟩
  exact absurd arrives.2.holds (by decide)

/-- One group of a kilobyte's blocks: 32 bytes are needed and 31 blocks are read. -/
theorem small_disk_reads_31_blocks :
    let partition := Device.partition 64 8192
    Superblock partition smallWorld smallSuperblock ∧ smallSuperblock.tableBlocks = 1 ∧
      (∃ fs after page buf, mount partition smallWorld = .ok fs after ∧
        after.requests = [⟨66, 2, page, false⟩, ⟨68, 62, buf, false⟩]) ∧
      ¬ Settles partition smallSuperblock smallWorld (mount partition smallWorld) := by
  intro partition
  have accepted : Superblock partition smallWorld smallSuperblock :=
    smallWorld_superblock (by decide)
  have exact : smallSuperblock.Exact := exact_iff.2 (by decide)
  have arrives : TableArrives partition smallSuperblock smallWorld :=
    ⟨nofun, by decide, ⟨12288, by decide, rfl⟩, rfl, rfl⟩
  have ends := mounting accepted smallWorld_queue (by decide)
  refine ⟨accepted, by decide, ?_⟩
  generalize mount partition smallWorld = result at ends
  cases ends with
  | tooLarge order_lt => exact absurd order_lt (by decide)
  | failed _ missing => exact absurd arrives missing
  | mounted page buf _ _ requests_eq _ =>
      exact ⟨⟨_, _, page, buf, rfl, requests_eq⟩, mounted_wrong accepted exact requests_eq⟩

end Vespertine.Storage
