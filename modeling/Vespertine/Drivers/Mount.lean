import Vespertine.Drivers.Storage

/-!
# The partition table and the superblock

`GptTable::parse` and `Ext2FileSystem::mount` read a header into a page, compute from its fields how
long the table behind it is, and read the table into a block of frames.
-/

namespace Vespertine.Storage

variable {size slots : Nat}

/-- A field of `width` bytes is a number of `width` bytes. -/
theorem field_lt (raw : List UInt8) (offset width : Nat) :
    field raw offset width < 256 ^ width := by
  have length_le : ((raw.drop offset).take width).length ≤ width := List.length_take_le _ _
  exact (Bytes.toNat_lt _).trans_le (Nat.pow_le_pow_right (by decide) length_le)

/-- `calculate_order`. -/
def calculateOrder (bytes : Nat) : Nat := order 64 0
where
  order : Nat → Nat → Nat
    | 0, order => order
    | fuel + 1, candidate =>
        if (1 <<< candidate) * 4096 < bytes then order fuel (candidate + 1) else candidate

/-- `GptPartition`; its device is the disk. -/
structure GptPartition where
  startSector : Nat
  totalSectors : Nat
deriving DecidableEq

/-- A partition as a device. -/
def GptPartition.device (partition : GptPartition) : Device :=
  .partition partition.startSector partition.totalSectors

/-- `GptHeader`, as far as it is used. -/
structure GptHeader where
  signature : Nat
  entryTableLba : Nat
  numEntries : Nat
  entrySize : Nat
deriving DecidableEq

/-- The fields of a header. -/
def GptHeader.parse (raw : List UInt8) : GptHeader where
  signature := field raw 0 8
  entryTableLba := field raw 72 8
  numEntries := field raw 80 4
  entrySize := field raw 84 4

/-- `"EFI PART"`. -/
def GPT_SIGNATURE : Nat := 0x5452415020494645

/-- The partition of a table entry, unless it is empty. -/
def GptPartition.parse (raw : List UInt8) : Option GptPartition :=
  if field raw 0 4 = 0 ∧ field raw 4 2 = 0 then
    none
  else
    let startingLba := field raw 32 8
    let endingLba := field raw 40 8
    some ⟨startingLba, wrappingAdd (wrappingSub endingLba startingLba) 1⟩

/-- `DiskSuperblock`, as far as it is used. -/
structure DiskSuperblock where
  blocksCount : Nat
  logBlockSize : Nat
  blocksPerGroup : Nat
  inodesPerGroup : Nat
  magic : Nat
  revLevel : Nat
  inodeSize : Nat
deriving DecidableEq

/-- The fields of a superblock. -/
def DiskSuperblock.parse (raw : List UInt8) : DiskSuperblock where
  blocksCount := field raw 4 4
  logBlockSize := field raw 24 4
  blocksPerGroup := field raw 32 4
  inodesPerGroup := field raw 40 4
  magic := field raw 56 2
  revLevel := field raw 76 4
  inodeSize := field raw 88 2

/-- Each field has a width. -/
theorem DiskSuperblock.parse_lt (raw : List UInt8) :
    (parse raw).blocksCount < 2 ^ 32 ∧ (parse raw).blocksPerGroup < 2 ^ 32 ∧
      (parse raw).inodesPerGroup < 2 ^ 32 :=
  ⟨field_lt raw 4 4, field_lt raw 32 4, field_lt raw 40 4⟩

namespace DiskSuperblock

variable (sb : DiskSuperblock)

/-- `block_size`; a shift takes its amount modulo the width. -/
def blockSize : Nat := (1024 <<< (sb.logBlockSize % 32)) % 2 ^ 32

/-- `num_groups`. -/
def numGroups : Nat :=
  ((sb.blocksCount + sb.blocksPerGroup) % 2 ^ 32 + (2 ^ 32 - 1)) % 2 ^ 32 / sb.blocksPerGroup

/-- `bgdt_blocks`. -/
def bgdtBlocks : Nat :=
  let bgdtBytes := sb.numGroups * GROUP_DESC_SIZE
  (bgdtBytes % 2 ^ 32 * sb.blockSize % 2 ^ 32 + (2 ^ 32 - 1)) % 2 ^ 32 / sb.blockSize

/-- `bgdt_sectors`. -/
def bgdtSectors : Nat := sb.bgdtBlocks * (sb.blockSize / 512) % 2 ^ 32

/-- `bgdt_start_sector`. -/
def bgdtStartSector : Nat := (if sb.blockSize = 1024 then 2 else 1) * (sb.blockSize / 512)

/-- `bgdt_alloc_order`. -/
def bgdtAllocOrder : Nat := calculateOrder (sb.bgdtSectors * 512 + 4095)

end DiskSuperblock

/-- `EXT2_SUPER_MAGIC`. -/
def EXT2_MAGIC : Nat := 0xEF53

section Programs

variable [NeZero size]

/-- Free a page and return `Err(())`. -/
def failFreeing {α : Type} (pagePhys : Nat) : Program size slots α := do
  free pagePhys
  fail

/-- `ALLOCATOR.alloc_order` for a table; without a block, free a page and return `Err(())`. -/
def allocTable (order pagePhys : Nat) : Program size slots Nat := do
  let answer ← allocOrder order
  match answer with
  | some addr => return addr
  | none => failFreeing pagePhys

/-- There is no block of frames for a table. -/
def NoBlock (world : World size slots) : Prop := world.orders.headD none = none

omit [NeZero size] in
/-- What `ALLOCATOR.alloc_order` has to offer for a table. -/
theorem allocTable_cases (order page : Nat) (middle : World size slots) :
    ORDER_MAX < order ∧
        allocTable order page middle = .error (.panic .indexOutOfBounds) middle ∨
      order ≤ ORDER_MAX ∧ NoBlock middle ∧
        (∃ orders, allocTable order page middle =
          .error .err { middle with orders, held := middle.held.erase (page, 0) }) ∨
      order ≤ ORDER_MAX ∧ ¬ NoBlock middle ∧ ∃ addr orders, allocTable order page middle =
        .ok addr { middle with orders, held := (addr, order) ::ₘ middle.held } := by
  by_cases large : order > ORDER_MAX
  · refine .inl ⟨large, run_bind_of_error ?_ _⟩
    rw [allocOrder, if_pos large]
  have small : order ≤ ORDER_MAX := not_lt.1 large
  right
  cases orders_eq : middle.orders with
  | nil =>
      refine .inl ⟨small, by rw [NoBlock, orders_eq, List.headD_nil], middle.orders, ?_⟩
      have order_eq : allocOrder order middle = .ok none middle := by
        rw [allocOrder, if_neg large, orders_eq]
      exact run_bind_of_ok order_eq _
  | cons answer orders =>
      cases answer with
      | none =>
          refine .inl ⟨small, by rw [NoBlock, orders_eq, List.headD_cons], orders, ?_⟩
          have order_eq : allocOrder order middle = .ok none { middle with orders } := by
            rw [allocOrder, if_neg large, orders_eq]
          exact run_bind_of_ok order_eq _
      | some addr =>
          refine .inr ⟨small, by rw [NoBlock, orders_eq]; exact nofun, addr, orders, ?_⟩
          have order_eq : allocOrder order middle = .ok (some addr)
              { middle with orders, held := (addr, order) ::ₘ middle.held } := by
            rw [allocOrder, if_neg large, orders_eq]
          exact run_bind_of_ok order_eq _

/-- `GptTable::parse` with the header that has been read. -/
def parseWith (headerPage : Nat) (header : GptHeader) : Program size slots (List GptPartition) :=
  if header.signature ≠ GPT_SIGNATURE then
    failFreeing headerPage
  else
    let totalTableBytes := header.numEntries * header.entrySize
    let tableSectors := (totalTableBytes + 511) / 512
    if header.numEntries > 128 ∨ header.entrySize ≠ 128 then
      failFreeing headerPage
    else do
      let tableOrder := calculateOrder (totalTableBytes + 4095)
      let tableBuf ← allocTable tableOrder headerPage
      Device.disk.readAll header.entryTableLba tableSectors tableBuf
      let table ← loadBytes tableBuf totalTableBytes
      free headerPage
      freeOrder tableBuf tableOrder
      return (List.range header.numEntries).filterMap fun i =>
        GptPartition.parse (table.drop (i * header.entrySize))

/-- `GptTable::parse`. -/
def parseTable : Program size slots (List GptPartition) := do
  let headerPage ← alloc
  if headerPage = 0 then
    fail
  else do
    Device.disk.readAll 1 1 headerPage
    let raw ← loadBytes headerPage 512
    parseWith headerPage (GptHeader.parse raw)

/-- `BlockCache::new`. -/
def newCache [NeZero slots] : Program size slots Unit :=
  update fun world => { world with cache := ⟨fun _ => ⟨none, false, false, false, ()⟩, 0⟩ }

/-- The file system of a superblock and of the bytes of its table. -/
def DiskSuperblock.fileSystem (sb : DiskSuperblock) (partition : Device) (table : List UInt8) :
    Ext2FileSystem where
  partition
  blockSize := sb.blockSize
  sectorsPerBlock := sb.blockSize / 512
  inodesPerGroup := sb.inodesPerGroup
  blocksPerGroup := sb.blocksPerGroup
  inodeSize := if sb.revLevel ≥ 1 then sb.inodeSize else 128
  bgdt := (List.range sb.numGroups).map fun i =>
    ⟨(table.drop (i * GROUP_DESC_SIZE)).take GROUP_DESC_SIZE⟩

/-- `Ext2FileSystem::mount` after the table has been read. -/
def finishMount (partition : Device) (sb : DiskSuperblock) (pagePhys bgdtBuf : Nat) :
    Program size slots Ext2FileSystem := do
  let table ← loadBytes bgdtBuf (sb.numGroups * GROUP_DESC_SIZE)
  free pagePhys
  freeOrder bgdtBuf sb.bgdtAllocOrder
  return sb.fileSystem partition table

/-- `Ext2FileSystem::mount` after the superblock has been accepted. -/
def mountWith [NeZero slots] (partition : Device) (sb : DiskSuperblock) (pagePhys : Nat) :
    Program size slots Ext2FileSystem := do
  newCache
  if sb.blocksPerGroup = 0 ∨ sb.blockSize = 0 then
    divideByZero
  else do
    let bgdtBuf ← allocTable sb.bgdtAllocOrder pagePhys
    partition.readAll sb.bgdtStartSector sb.bgdtSectors bgdtBuf
    finishMount partition sb pagePhys bgdtBuf

/-- `Ext2FileSystem::mount`. -/
def mount [NeZero slots] (partition : Device) : Program size slots Ext2FileSystem := do
  let pagePhys ← alloc
  if pagePhys = 0 then
    fail
  else do
    partition.readAll 2 2 pagePhys
    let raw ← loadBytes pagePhys 1024
    let sb := DiskSuperblock.parse raw
    if sb.magic ≠ EXT2_MAGIC then
      failFreeing pagePhys
    else
      mountWith partition sb pagePhys

end Programs

end Vespertine.Storage
