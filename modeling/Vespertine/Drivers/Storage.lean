import Mathlib.Data.Multiset.AddSub
import Vespertine.Drivers.BlockCache
import Vespertine.Drivers.Virtqueue
import Vespertine.Library.ByteMemory
import Vespertine.Library.Effects
import Vespertine.Memory.Pmm
import Vespertine.Memory.Vmo

/-!
# The way from a file to the disk

`FileVmo::request_page` fills a page from blocks that `Ext2FileSystem` resolves and reads through
the block cache; the cache, `mount` and the partition table use `read_sectors` and `write_sectors`
of a partition or of the disk, and these end in `transfer_sectors` of the driver.

The functions are run by one thread while the others rest.  The page allocator answers with given
frames, and the device with given status bytes; a future is polled until the device has written its
status.  A failed request transfers nothing.  Numbers wrap around at their widths.
-/

namespace Vespertine.Storage

open Virtio (BlockTransferFuture DeviceStatus Request Virtqueue)
open BlockCache (BlockCacheInner CacheEntry startSector)

/-- What the functions work on.  The buffers of the cache lie in memory as well. -/
structure World (size slots : Nat) where
  bytes : Memory
  disk : Nat → UInt8
  /-- Frames that `ALLOCATOR.alloc` returns next; zero stands for none. -/
  supply : List Nat
  /-- What `ALLOCATOR.alloc_order` returns next. -/
  orders : List (Option Nat)
  /-- Address and order of the blocks that are allocated and not freed. -/
  held : Multiset (Nat × Nat)
  vq : Virtqueue size Unit Unit
  /-- The status bytes that the device writes next. -/
  statuses : List DeviceStatus
  cache : BlockCacheInner slots Unit
  /-- Where the data of a cache entry lies. -/
  entryPhys : Fin slots → Nat
  /-- Where the copy of a victim's data lies. -/
  clonePhys : Nat
  /-- The requests that the device has received. -/
  requests : List Request
  /-- The buffers that `Ext2FileSystem::read_block` has been called with. -/
  dests : List Nat

/-- How a function does not return a value. -/
inductive Fault
  /-- `Err(())`. -/
  | err
  | panic (cause : Panic)
  | divideByZero

/-- Programs on the world. -/
abbrev Program (size slots : Nat) := EStateM Fault (World size slots)

variable {size slots : Nat}

/-- `ALLOCATOR.alloc(BlockSize::Normal)`. -/
def alloc : Program size slots Nat := fun world =>
  match world.supply with
  | [] => .error (.panic .outOfMemory) world
  | frame :: supply =>
      .ok frame { world with
        supply, held := if frame = 0 then world.held else (frame, 0) ::ₘ world.held }

/-- `ALLOCATOR.free(addr, BlockSize::Normal)`. -/
def free (addr : Nat) : Program size slots Unit := fun world =>
  .ok () { world with held := world.held.erase (addr, 0) }

/-- `ALLOCATOR.alloc_order`. -/
def allocOrder (order : Nat) : Program size slots (Option Nat) := fun world =>
  if order > ORDER_MAX then
    .error (.panic .indexOutOfBounds) world
  else
    match world.orders with
    | some addr :: orders =>
        .ok (some addr) { world with orders, held := (addr, order) ::ₘ world.held }
    | none :: orders => .ok none { world with orders }
    | [] => .ok none world

/-- `ALLOCATOR.free_order`. -/
def freeOrder (addr order : Nat) : Program size slots Unit := fun world =>
  .ok () { world with held := world.held.erase (addr, order) }

/-- A number in memory, the lowest byte first. -/
def load (addr width : Nat) : Program size slots Nat := fun world =>
  .ok (Bytes.toNat (world.bytes.read addr width)) world

/-- Change the world. -/
def update (change : World size slots → World size slots) : Program size slots Unit := fun world =>
  .ok () (change world)

/-- `?` with a failure. -/
def fail {α : Type} : Program size slots α := fun world => .error .err world

/-- A division by zero. -/
def divideByZero {α : Type} : Program size slots α := fun world => .error .divideByZero world

section Transfers

variable [NeZero size]

/-- The header and the status byte of a request, in a page of zeros. -/
def headerPage (bytes : Memory) (request : Request) (page : Nat) : Memory :=
  let reqType := if request.isWrite then Virtio.VIRTIO_BLK_T_OUT else Virtio.VIRTIO_BLK_T_IN
  let header := Bytes.ofNat 4 reqType ++ Bytes.ofNat 4 0 ++ Bytes.ofNat 8 request.sector
  let zeros : Memory := fun addr =>
    if page ≤ addr ∧ addr < page + NORMAL_PAGE_SIZE then 0 else bytes addr
  Function.update (zeros.write page header) (page + 512) 0xFF

/-- Write a chain to the available ring. -/
def post (vq : Virtqueue size Unit Unit) (head : Nat) : Virtqueue size Unit Unit :=
  { vq with
    availRing := Function.update vq.availRing (Fin.ofNat size vq.availIdx) ⟨head, some ()⟩
    availIdx := Virtio.wrappingNext vq.availIdx }

/-- A future, with the request that the device works on. -/
structure Transfer where
  future : BlockTransferFuture
  request : Request

/-- The part of `transfer_sectors` that holds the lock of the queue. -/
def buildChain (request : Request) (pagePhys : Nat) : Program size slots Transfer := fun world =>
  match world.vq.allocChain with
  | (none, vq) => .error .err { world with vq }
  | (some (d0, d1, d2), vq) =>
      let vq := post (vq.writeChain request pagePhys d0 d1 d2) d0
      .ok ⟨⟨d0, d1, d2, pagePhys, vq.lastSeenUsed⟩, request⟩
        { world with vq, requests := world.requests ++ [request] }

/-- `transfer_sectors`. -/
def transferSectors (request : Request) : Program size slots Transfer := do
  let pagePhys ← alloc
  if pagePhys = 0 then
    fail
  else
    update fun world => { world with bytes := headerPage world.bytes request pagePhys }
    buildChain request pagePhys

/-- What the device does to memory and disk. -/
def perform (request : Request) (world : World size slots) : World size slots :=
  let count := request.sectorsCount * 512 % 2 ^ 32
  if request.isWrite then
    { world with disk := fun place =>
        if request.sector * 512 ≤ place ∧ place < request.sector * 512 + count then
          world.bytes (request.bufPhys + (place - request.sector * 512))
        else
          world.disk place }
  else
    { world with bytes := fun addr =>
        if request.bufPhys ≤ addr ∧ addr < request.bufPhys + count then
          world.disk (request.sector * 512 + (addr - request.bufPhys))
        else
          world.bytes addr }

/-- `BlockTransferFuture::poll`, until the device has written the status byte. -/
def await (transfer : Transfer) : Program size slots Unit := fun world =>
  match world.statuses with
  | [] => .error (.panic .diverges) world
  | status :: statuses =>
      let future := transfer.future
      let after := { world with
        statuses
        vq := ((world.vq.freeDesc future.d0).freeDesc future.d1).freeDesc future.d2
        held := world.held.erase (future.pagePhys, 0) }
      if status = .ok then .ok () (perform transfer.request after) else .error .err after

/-- The implementations of `AsyncBlockDevice`: the disk, and `GptPartition`. -/
inductive Device
  | disk
  | partition (startSector totalSectors : Nat)

/-- The body of `read_sectors` and `write_sectors`. -/
def Device.submit (device : Device) (sector sectorsCount bufPhys : Nat) (isWrite : Bool) :
    Program size slots Transfer :=
  match device with
  | .disk => transferSectors ⟨sector, sectorsCount, bufPhys, isWrite⟩
  | .partition startSector totalSectors =>
      if wrappingAdd sector sectorsCount > totalSectors then
        fail
      else
        transferSectors ⟨wrappingAdd startSector sector, sectorsCount, bufPhys, isWrite⟩

/-- `read_sectors`. -/
def Device.readSectors (device : Device) (sector sectorsCount bufPhys : Nat) :
    Program size slots Transfer :=
  device.submit sector sectorsCount bufPhys false

/-- `write_sectors`. -/
def Device.writeSectors (device : Device) (sector sectorsCount bufPhys : Nat) :
    Program size slots Transfer :=
  device.submit sector sectorsCount bufPhys true

/-- `read_sectors`, with the future polled to its end. -/
def Device.readAll (device : Device) (sector sectorsCount bufPhys : Nat) :
    Program size slots Unit := do
  let transfer ← device.readSectors sector sectorsCount bufPhys
  await transfer

/-- `write_sectors`, with the future polled to its end. -/
def Device.writeAll (device : Device) (sector sectorsCount bufPhys : Nat) :
    Program size slots Unit := do
  let transfer ← device.writeSectors sector sectorsCount bufPhys
  await transfer

end Transfers

/-- `DiskGroupDesc`, as it lies on disk. -/
structure DiskGroupDesc where
  raw : List UInt8
deriving DecidableEq

/-- `size_of::<DiskGroupDesc>()`. -/
def GROUP_DESC_SIZE : Nat := 32

/-- A field of a structure on disk. -/
def field (raw : List UInt8) (offset width : Nat) : Nat :=
  Bytes.toNat ((raw.drop offset).take width)

/-- The first block of the inode table of a group. -/
def DiskGroupDesc.inodeTable (desc : DiskGroupDesc) : Nat := field desc.raw 8 4

/-- `DiskInode`, as it lies on disk. -/
structure DiskInode where
  raw : List UInt8
deriving DecidableEq

/-- `size_of::<DiskInode>()`. -/
def INODE_SIZE : Nat := 128

/-- The block pointers of an inode: twelve direct ones, then the indirect ones. -/
def DiskInode.pointer (inode : DiskInode) (index : Nat) : Nat := field inode.raw (40 + 4 * index) 4

/-- `Ext2FileSystem`. -/
structure Ext2FileSystem where
  partition : Device
  blockSize : Nat
  sectorsPerBlock : Nat
  inodesPerGroup : Nat
  blocksPerGroup : Nat
  inodeSize : Nat
  bgdt : List DiskGroupDesc

section Cache

variable [NeZero size] [NeZero slots]

/-- Change an entry of the cache. -/
def modifyEntry (slot : Fin slots) (change : CacheEntry Unit → CacheEntry Unit) :
    Program size slots Unit :=
  update fun world => { world with cache := world.cache.modify slot change }

/-- `copy_nonoverlapping`. -/
def copyBytes (source target count : Nat) : Program size slots Unit :=
  update fun world => { world with bytes := world.bytes.copy source target count }

/-- Choose a slot for a block that is not in the cache, and reserve it. -/
def reserveSlot : Program size slots (Fin slots) := fun world =>
  match world.cache.selectSlot with
  | none => .error (.panic .diverges) world
  | some (.error (), cache) => .error .err { world with cache }
  | some (.ok slot, cache) =>
      .ok slot { world with cache := cache.modify slot ({ · with inFlight := true }) }

/-- Write the old block of a dirty victim back. -/
def writeBack (device : Device) (blockSize : Nat) (slot : Fin slots) :
    Program size slots Unit := fun world =>
  let entry := world.cache.entries slot
  match entry.dirty, entry.blockId with
  | true, some oldBlock =>
      (do
        copyBytes (world.entryPhys slot) world.clonePhys blockSize
        let spb := blockSize / 512
        device.writeAll (startSector spb oldBlock) spb world.clonePhys
        modifyEntry slot ({ · with dirty := false })) world
  | _, _ => .ok () world

/-- Fetch a block into its slot. -/
def fetchBlock (device : Device) (blockSize blockId : Nat) (slot : Fin slots) :
    Program size slots Unit := fun world =>
  (do
    modifyEntry slot ({ · with blockId := some blockId })
    let spb := blockSize / 512
    device.readAll (startSector spb blockId) spb (world.entryPhys slot)
    modifyEntry slot ({ · with referenced := true, inFlight := false })) world

/-- `BlockCache::read_block`; a block that another call has in flight is waited for in vain. -/
def cacheReadBlock (device : Device) (blockSize blockId destPhys : Nat) :
    Program size slots Unit := fun world =>
  match world.cache.findBlock blockId with
  | some slot =>
      if (world.cache.entries slot).inFlight then
        .error (.panic .diverges) world
      else
        (do
          modifyEntry slot ({ · with referenced := true })
          copyBytes (world.entryPhys slot) destPhys blockSize) world
  | none =>
      (do
        let slot ← reserveSlot
        writeBack device blockSize slot
        fetchBlock device blockSize blockId slot
        copyBytes (world.entryPhys slot) destPhys blockSize) world

end Cache

section Files

variable [NeZero size] [NeZero slots] (fs : Ext2FileSystem)

/-- Fill a range with zeros. -/
def zeroBytes (addr count : Nat) : Program size slots Unit :=
  update fun world => { world with bytes := world.bytes.write addr (List.replicate count 0) }

/-- `Ext2FileSystem::read_block`. -/
def readBlock (blockId destPhys : Nat) : Program size slots Unit := do
  update fun world => { world with dests := world.dests ++ [destPhys] }
  if blockId = 0 then
    zeroBytes destPhys fs.blockSize
  else
    cacheReadBlock fs.partition fs.blockSize blockId destPhys

/-- Follow pointers from table to table until one is zero, and free the page of the tables. -/
def followTables (pagePhys : Nat) : Nat → List Nat → Program size slots Nat
  | blockId, [] => do
      free pagePhys
      return blockId
  | blockId, index :: path =>
      if blockId = 0 then do
        free pagePhys
        return 0
      else do
        readBlock fs blockId pagePhys
        let next ← load (pagePhys + 4 * index) 4
        followTables pagePhys next path

/-- One tier of indirect blocks. -/
def resolveTier (indirectId : Nat) (path : List Nat) : Program size slots Nat :=
  if indirectId = 0 then
    return 0
  else do
    let pagePhys ← alloc
    if pagePhys = 0 then
      fail
    else
      followTables fs pagePhys indirectId path

/-- `Ext2FileSystem::resolve_file_block`. -/
def resolveFileBlock (inode : DiskInode) (fileBlockIdx : Nat) : Program size slots Nat :=
  let pointersPerBlock := fs.blockSize / 4
  if fileBlockIdx < 12 then
    return inode.pointer fileBlockIdx
  else
    let remainingIdx := fileBlockIdx - 12
    if remainingIdx < pointersPerBlock then
      resolveTier fs (inode.pointer 12) [remainingIdx]
    else
      let remainingIdx := wrappingAdd remainingIdx pointersPerBlock
      let blocksPerDouble := pointersPerBlock * pointersPerBlock % wordSize
      if remainingIdx < blocksPerDouble then
        resolveTier fs (inode.pointer 13)
          [remainingIdx / pointersPerBlock, remainingIdx % pointersPerBlock]
      else
        let remainingIdx := remainingIdx - blocksPerDouble
        let blocksPerTriple := blocksPerDouble * pointersPerBlock % wordSize
        if remainingIdx < blocksPerTriple then
          resolveTier fs (inode.pointer 14)
            [remainingIdx / blocksPerDouble, remainingIdx % blocksPerDouble / pointersPerBlock,
              remainingIdx % blocksPerDouble % pointersPerBlock]
        else
          fail

/-- Fill a page block by block. -/
def loadBlocks (inode : DiskInode) (startFileBlock pagePhys : Nat) :
    List Nat → Program size slots Unit
  | [] => return ()
  | i :: rest => do
      let diskBlockId ← resolveFileBlock fs inode (startFileBlock + i)
      readBlock fs diskBlockId (pagePhys + i * fs.blockSize)
      loadBlocks inode startFileBlock pagePhys rest

/-- Read the blocks of a page that has been taken, and keep the page. -/
def fillPage (inode : DiskInode) (vmo : Vmo) (offset pagePhys : Nat) :
    Program size slots (Nat × Vmo) :=
  if fs.blockSize = 0 then
    divideByZero
  else do
    let blocksPerPage := NORMAL_PAGE_SIZE / fs.blockSize
    loadBlocks fs inode (offset / fs.blockSize) pagePhys (List.range blocksPerPage)
    return (pagePhys, { vmo with pages := vmo.pages.insert offset pagePhys })

/-- `FileVmo::request_page` of an object with the given pages. -/
def requestPage (inode : DiskInode) (vmo : Vmo) (offset : Nat) : Program size slots (Nat × Vmo) :=
  if offset ≥ vmo.size then
    fail
  else
    match vmo.frameAt offset with
    | some pfn => return (pfn, vmo)
    | none => do
        let pagePhys ← alloc
        if pagePhys = 0 then
          fail
        else
          fillPage fs inode vmo offset pagePhys

/-- Bytes of memory. -/
def loadBytes (addr count : Nat) : Program size slots (List UInt8) := fun world =>
  .ok (world.bytes.read addr count) world

/-- Free a page when a program returns `Err(())`, and return it. -/
def freeOnErr {α : Type} (pagePhys : Nat) (program : Program size slots α) :
    Program size slots α := fun world =>
  match program world with
  | .error .err world => .error .err { world with held := world.held.erase (pagePhys, 0) }
  | other => other

/-- `bg_index` of `read_inode`. -/
def Ext2FileSystem.bgIndex (inodeNum : Nat) : Nat := (inodeNum - 1) / fs.inodesPerGroup

/-- `local_inode_idx` of `read_inode`. -/
def Ext2FileSystem.localInodeIdx (inodeNum : Nat) : Nat := (inodeNum - 1) % fs.inodesPerGroup

/-- `byte_offset` of `read_inode`. -/
def Ext2FileSystem.byteOffset (inodeNum : Nat) : Nat :=
  fs.localInodeIdx inodeNum * fs.inodeSize % 2 ^ 32

/-- `Ext2FileSystem::read_inode` with the descriptor of the group. -/
def readInodeWith (desc : DiskGroupDesc) (inodeNum : Nat) : Program size slots DiskInode :=
  if fs.blockSize = 0 then
    divideByZero
  else do
    let byteOffset := fs.byteOffset inodeNum
    let targetLogicalBlock := (desc.inodeTable + byteOffset / fs.blockSize) % 2 ^ 32
    let blockInternalOffset := byteOffset % fs.blockSize
    let pagePhys ← alloc
    if pagePhys = 0 then
      fail
    else do
      freeOnErr pagePhys (readBlock fs targetLogicalBlock pagePhys)
      let raw ← loadBytes (pagePhys + blockInternalOffset) INODE_SIZE
      free pagePhys
      return ⟨raw⟩

/-- `Ext2FileSystem::read_inode`. -/
def readInode (inodeNum : Nat) : Program size slots DiskInode :=
  if inodeNum = 0 then
    fail
  else if fs.inodesPerGroup = 0 then
    divideByZero
  else
    match fs.bgdt[fs.bgIndex inodeNum]? with
    | none => fail
    | some desc => readInodeWith fs desc inodeNum

/-- An entry of a directory; its name is not checked to be UTF-8. -/
structure DirEntry where
  inodeId : Nat
  fileType : Nat
  name : List UInt8
deriving DecidableEq

/-- The entries of a block of a directory, from an offset on. -/
def scanEntries (bytes : Memory) (pagePhys blockSize : Nat) :
    (fuel offset : Nat) → List DirEntry
  | 0, _ => []
  | fuel + 1, offset =>
      if offset < blockSize then
        let entry := bytes.read (pagePhys + offset) 8
        let recLen := field entry 4 2
        let nameLen := field entry 6 1
        if recLen = 0 then
          []
        else
          let rest := scanEntries bytes pagePhys blockSize fuel (offset + recLen)
          if field entry 0 4 ≠ 0 ∧ nameLen > 0 ∧ offset + 8 + nameLen ≤ blockSize then
            ⟨field entry 0 4, field entry 7 1, bytes.read (pagePhys + offset + 8) nameLen⟩ :: rest
          else
            rest
      else
        []

/-- The loops of `lookup_in_dir` and of `DirectoryOp::List` over the direct blocks of a directory;
they go on while `wanted` has found nothing among the entries of a block. -/
def walkBlocks {α : Type} (wanted : List DirEntry → Option α) (pagePhys : Nat) :
    List Nat → List DirEntry → Program size slots (Option α × List DirEntry)
  | [], seen => do
      free pagePhys
      return (none, seen)
  | blockId :: rest, seen =>
      if blockId = 0 then
        walkBlocks wanted pagePhys rest seen
      else do
        freeOnErr pagePhys (readBlock fs blockId pagePhys)
        let entries ← fun world =>
          .ok (scanEntries world.bytes pagePhys fs.blockSize fs.blockSize 0) world
        match wanted entries with
        | some found => do
            free pagePhys
            return (some found, seen ++ entries)
        | none => walkBlocks wanted pagePhys rest (seen ++ entries)

/-- The direct blocks of a directory, read one after another into one page. -/
def walkDirectory {α : Type} (wanted : List DirEntry → Option α) (inode : DiskInode) :
    Program size slots (Option α × List DirEntry) := do
  let pagePhys ← alloc
  if pagePhys = 0 then
    fail
  else
    walkBlocks fs wanted pagePhys ((List.range 12).map inode.pointer) []

/-- `Ext2FileSystem::lookup_in_dir`. -/
def lookupInDir (inode : DiskInode) (name : List UInt8) : Program size slots (Option Nat) := do
  let (found, _) ← walkDirectory fs
    (fun entries => (entries.find? (·.name = name)).map (·.inodeId)) inode
  return found

/-- What `DirectoryOp::List` collects, with the dotted entries left out. -/
def listDir (inode : DiskInode) : Program size slots (List DirEntry) := do
  let (_, entries) ← walkDirectory fs (fun _ => (none : Option Unit)) inode
  return entries.filter fun entry => entry.name ≠ [46] ∧ entry.name ≠ [46, 46]

end Files

end Vespertine.Storage
