import Mathlib.Data.List.TakeDrop
import Mathlib.Tactic.Ring
import Vespertine.Library.ByteMemory
import Vespertine.Memory.Vmo

/-!
# Reads of a file

A file of the ramdisk is a range of bytes, and a request for `len` bytes at `offset` copies from
there.  A file of an ext2 volume is read through the pages of its memory object, which are filled
from disk block by block; it keeps a position of its own and takes no notice of the offset of a
request.

The blocks of a file are given as `resolve_file_block` and `read_block` deliver them.  All copies to
the caller's buffer succeed, so that a result stands for what arrives there.
-/

namespace Vespertine
namespace FileReads

/-- `FileOp::Read`. -/
structure Request where
  offset : Nat
  len : Nat
deriving DecidableEq

/-- A file of the ramdisk. -/
structure FileObj where
  bytes : List UInt8

/-- `read_file`. -/
def FileObj.readFile (file : FileObj) (offset reqLen : Nat) : Except InvocationError (List UInt8) :=
  let size := file.bytes.length
  if offset ≥ size then
    .ok []
  else
    let bytesAvailable := size - offset
    let readLen := min bytesAvailable reqLen
    if readLen = 0 then .ok [] else .ok ((file.bytes.drop offset).take readLen)

/-- Physical memory, and the frames that the page allocator returns next. -/
structure Ram where
  bytes : Memory
  supply : List Nat

/-- The blocks of a file. -/
abbrev Blocks := Nat → Except Unit (Nat → UInt8)

/-- Write a block to memory. -/
def writeBlock (bytes : Memory) (dest blockSize : Nat) (block : Nat → UInt8) : Memory :=
  fun addr =>
    if dest ≤ addr ∧ addr < dest + blockSize then block (addr - dest) else bytes addr

/-- Fill a page block by block, until one cannot be read. -/
def loadBlocks (disk : Blocks) (blockSize startFileBlock pagePhys : Nat) :
    List Nat → Memory → Except Unit Unit × Memory
  | [], bytes => (.ok (), bytes)
  | i :: rest, bytes =>
      match disk (startFileBlock + i) with
      | .error () => (.error (), bytes)
      | .ok block =>
          loadBlocks disk blockSize startFileBlock pagePhys rest
            (writeBlock bytes (pagePhys + i * blockSize) blockSize block)

/-- `FileVmo::request_page`, with what it does to memory. -/
def requestPage (disk : Blocks) (file : FileVmo) (ram : Ram) (offset : Nat) :
    Kernel (Except Unit Nat × FileVmo × Ram) :=
  if offset ≥ file.anonymousVmo.size then
    .ok (.error (), file, ram)
  else
    match file.anonymousVmo.frameAt offset with
    | some pfn => .ok (.ok pfn, file, ram)
    | none => do
        let (pagePhys, supply) ← allocFrame ram.supply
        if pagePhys = 0 then
          return (.error (), file, { ram with supply })
        else
          let blocksPerPage := NORMAL_PAGE_SIZE / file.blockSize
          let startFileBlock := offset / file.blockSize
          match loadBlocks disk file.blockSize startFileBlock pagePhys (List.range blocksPerPage)
              ram.bytes with
          | (.error (), bytes) => return (.error (), file, { bytes, supply })
          | (.ok (), bytes) =>
              let pages := file.anonymousVmo.pages.insert offset pagePhys
              let anonymousVmo := { file.anonymousVmo with pages }
              return (.ok pagePhys, { file with anonymousVmo }, { bytes, supply })

/-- The loop of `read_bytes_async` over the pages of the file. -/
def readLoop (disk : Blocks) (offset readLen : Nat) :
    (fuel : Nat) → (copied : List UInt8) → FileVmo → Ram →
      Kernel (Except InvocationError (List UInt8) × FileVmo × Ram)
  | 0, copied, file, ram =>
      if copied.length < readLen then .error .diverges else .ok (.ok copied, file, ram)
  | fuel + 1, copied, file, ram =>
      if copied.length < readLen then do
        let currentFileOffset := offset + copied.length
        let pageOffset := currentFileOffset / 4096 * 4096
        let blockInternalOffset := currentFileOffset % 4096
        let (answer, file, ram) ← requestPage disk file ram pageOffset
        match answer with
        | .error () => return (.error .InvalidPointer, file, ram)
        | .ok physAddr =>
            let chunkSize := min (4096 - blockInternalOffset) (readLen - copied.length)
            readLoop disk offset readLen fuel
              (copied ++ ram.bytes.read (physAddr + blockInternalOffset) chunkSize) file ram
      else
        .ok (.ok copied, file, ram)

/-- An open file of an ext2 volume. -/
structure Ext2File where
  /-- The size in the inode. -/
  size : Nat
  fileVmo : FileVmo
  /-- The position behind what has been read. -/
  offset : Nat

namespace Ext2File

/-- `read_bytes_async`. -/
def readBytesAsync (disk : Blocks) (file : Ext2File) (ram : Ram) (offset reqLen : Nat) :
    Kernel (Except InvocationError (List UInt8) × FileVmo × Ram) :=
  if offset ≥ file.size then
    .ok (.ok [], file.fileVmo, ram)
  else
    let bytesAvailable := file.size - offset
    let readLen := min bytesAvailable reqLen
    if readLen = 0 then
      .ok (.ok [], file.fileVmo, ram)
    else
      readLoop disk offset readLen readLen [] file.fileVmo ram

/-- `FileOp::Read`: the offset of the request is not used. -/
def read (disk : Blocks) (file : Ext2File) (ram : Ram) (request : Request) :
    Kernel (Except InvocationError (List UInt8) × Ext2File × Ram) := do
  let currentOffset := file.offset
  let (result, fileVmo, ram) ← file.readBytesAsync disk ram currentOffset request.len
  match result with
  | .error problem => return (.error problem, { file with fileVmo }, ram)
  | .ok bytes =>
      return (.ok bytes, { file with fileVmo, offset := file.offset + bytes.length }, ram)

/-- The file when it has been looked up. -/
def opened (size blockSize : Nat) : Ext2File := ⟨size, ⟨.new size, blockSize⟩, 0⟩

/-- Requests to the file, which share the memory. -/
def invoke (disk : Blocks) (state : Ext2File × Ram) (request : Request) :
    Kernel (Except InvocationError (List UInt8) × Ext2File × Ram) :=
  state.1.read disk state.2 request

end Ext2File

/-- Requests to a file of the ramdisk. -/
def FileObj.invoke (file : FileObj) (request : Request) :
    Kernel (Except InvocationError (List UInt8) × FileObj) :=
  .ok (file.readFile request.offset request.len, file)

section Handle

variable {σ : Type} (invoke : σ → Request → Kernel (Except InvocationError (List UInt8) × σ))

/-- The results of a sequence of requests on one handle. -/
def serve : σ → List Request → Kernel (List (Except InvocationError (List UInt8)))
  | _, [] => .ok []
  | state, request :: requests => do
      let (result, state) ← invoke state request
      let results ← serve state requests
      return result :: results

/-- What a program does with an open `File`. -/
inductive Call
  | seek (pos : Nat)
  | read (len : Nat)
deriving DecidableEq

/-- The results of the reads of a program, with the cursor of its `File`. -/
def runFile : (cursor : Nat) → σ → List Call →
    Kernel (List (Except InvocationError (List UInt8)))
  | _, _, [] => .ok []
  | _, state, .seek pos :: calls => runFile pos state calls
  | cursor, state, .read len :: calls => do
      let offset := cursor
      let (result, state) ← invoke state ⟨offset, len⟩
      let cursor := match result with
        | .ok bytes => offset + bytes.length
        | .error _ => offset
      let results ← runFile cursor state calls
      return result :: results

end Handle

/-! ## What requests should return -/

/-- The bytes of the file that a request asks for. -/
def wanted (contents : List UInt8) (request : Request) : Except InvocationError (List UInt8) :=
  .ok ((contents.drop request.offset).take request.len)

/-- The requests of a program that gets the bytes it asks for. -/
def requestsOf (size : Nat) : (cursor : Nat) → List Call → List Request
  | _, [] => []
  | _, .seek pos :: calls => requestsOf size pos calls
  | cursor, .read len :: calls =>
      ⟨cursor, len⟩ :: requestsOf size (cursor + min len (size - cursor)) calls

/-- The disk delivers every block of the pages of a file. -/
def Stored (contents : List UInt8) (blockSize : Nat) (disk : Blocks) : Prop :=
  ∀ index, index * blockSize < pageCount contents.length * NORMAL_PAGE_SIZE →
    ∃ block, disk index = .ok block ∧
      ∀ i < blockSize, ∀ inside : index * blockSize + i < contents.length,
        block i = contents[index * blockSize + i]

/-- There are frames for all pages of a file of the given size. -/
structure Ram.Room (ram : Ram) (size : Nat) : Prop where
  nodup : ram.supply.Nodup
  aligned : ∀ frame ∈ ram.supply, NORMAL_PAGE_SIZE ∣ frame
  nonzero : ∀ frame ∈ ram.supply, frame ≠ 0
  enough : pageCount size ≤ ram.supply.length

/-! ## Reading a file of the ramdisk -/

theorem FileObj.readFile_eq (file : FileObj) (request : Request) :
    file.readFile request.offset request.len = wanted file.bytes request := by
  rw [readFile, wanted]
  split
  next beyond => rw [List.drop_of_length_le beyond, List.take_nil]
  next inside =>
    dsimp only
    split
    next nothing =>
      have len_zero : request.len = 0 := by omega
      rw [len_zero, List.take_zero]
    next =>
      congr 1
      rw [List.take_eq_take_iff, List.length_drop]
      omega

theorem serve_fileObj (file : FileObj) (requests : List Request) :
    serve FileObj.invoke file requests = .ok (requests.map (wanted file.bytes)) := by
  induction requests with
  | nil => rfl
  | cons request requests ih =>
      simp only [serve, FileObj.invoke, FileObj.readFile_eq, bind, Except.bind]
      rw [ih]
      rfl

/-! ## Filling a page -/

/-- A page is filled if every block of it can be read. -/
theorem loadBlocks_fst (disk : Blocks) (blockSize start pagePhys : Nat) (blocks : List Nat)
    (bytes : Memory) :
    (loadBlocks disk blockSize start pagePhys blocks bytes).1 =
      if blocks.all fun i => (disk (start + i)).isOk then .ok () else .error () := by
  induction blocks generalizing bytes with
  | nil => rfl
  | cons i rest ih =>
      rw [loadBlocks, List.all_cons]
      cases disk (start + i) with
      | error problem => rfl
      | ok block => exact ih _

/-- A request succeeds and takes a frame whatever the blocks hold. -/
theorem requestPage_forget (disk : Blocks) (file : FileVmo) (ram : Ram) (offset : Nat) :
    (requestPage disk file ram offset).map
        (fun answer => (answer.1, answer.2.1, answer.2.2.supply)) =
      file.requestPage (fun index => (disk index).isOk) offset ram.supply := by
  rw [requestPage, FileVmo.requestPage]
  split
  next => rfl
  next =>
    cases file.anonymousVmo.frameAt offset with
    | some frame => rfl
    | none =>
        cases ram.supply with
        | nil => rfl
        | cons frame rest =>
            simp only [allocFrame, bind, Except.bind]
            split
            next => rfl
            next =>
              have filled_eq : (loadBlocks disk file.blockSize (offset / file.blockSize) frame
                  (List.range (NORMAL_PAGE_SIZE / file.blockSize)) ram.bytes).1 =
                  if file.loadPage (fun index => (disk index).isOk) offset then .ok ()
                    else .error () :=
                loadBlocks_fst disk file.blockSize (offset / file.blockSize) frame _ ram.bytes
              split
              next load_eq =>
                rw [load_eq] at filled_eq
                split at filled_eq
                next => cases filled_eq
                next unread => exact (if_neg unread).symm
              next load_eq =>
                rw [load_eq] at filled_eq
                split at filled_eq
                next read => exact (if_pos read).symm
                next => cases filled_eq

/-- What a page of the file shows of its contents. -/
def Shows (contents : List UInt8) (bytes : Memory) (offset frame : Nat) : Prop :=
  ∀ i < NORMAL_PAGE_SIZE, ∀ inside : offset + i < contents.length,
    bytes (frame + i) = contents[offset + i]

section Filling

variable {contents : List UInt8} {disk : Blocks} {blockSize start frame : Nat}
  {bytes : Memory}

theorem writeBlock_outside {block : Nat → UInt8} {addr : Nat}
    (outside : addr < frame ∨ frame + blockSize ≤ addr) :
    writeBlock bytes frame blockSize block addr = bytes addr :=
  if_neg (by omega)

/-- Filling a page succeeds, changes that page only and puts the blocks there. -/
theorem loadBlocks_stored (first count : Nat)
    (stored : ∀ i < first + count, ∃ block, disk (start + i) = .ok block ∧
      ∀ j < blockSize, ∀ inside : (start + i) * blockSize + j < contents.length,
        block j = contents[(start + i) * blockSize + j])
    (before : ∀ i < first * blockSize, ∀ inside : start * blockSize + i < contents.length,
      bytes (frame + i) = contents[start * blockSize + i]) :
    ∃ after, loadBlocks disk blockSize start frame (List.range' first count) bytes =
        (.ok (), after) ∧
      (∀ i < (first + count) * blockSize, ∀ inside : start * blockSize + i < contents.length,
        after (frame + i) = contents[start * blockSize + i]) ∧
      ∀ addr, addr < frame ∨ frame + (first + count) * blockSize ≤ addr →
        after addr = bytes addr := by
  induction count generalizing first bytes with
  | zero => exact ⟨bytes, rfl, before, fun _ _ => rfl⟩
  | succ count ih =>
      obtain ⟨block, disk_eq, block_eq⟩ := stored first (by omega)
      have shift : first + (count + 1) = first + 1 + count := by omega
      rw [shift] at stored ⊢
      have extended : ∀ i < (first + 1) * blockSize,
          ∀ inside : start * blockSize + i < contents.length,
          writeBlock bytes (frame + first * blockSize) blockSize block (frame + i) =
            contents[start * blockSize + i] := by
        intro i below inside
        by_cases old : i < first * blockSize
        · rw [writeBlock_outside (by omega)]
          exact before i old inside
        · obtain ⟨j, rfl⟩ := Nat.exists_eq_add_of_le (Nat.le_of_not_lt old)
          rw [Nat.add_mul] at below
          rw [writeBlock, if_pos (by omega)]
          have index_eq : start * blockSize + (first * blockSize + j) =
              (start + first) * blockSize + j := by ring
          have sub_eq : frame + (first * blockSize + j) - (frame + first * blockSize) = j := by
            omega
          rw [sub_eq, block_eq j (by omega) (by omega)]
          simp only [index_eq]
      obtain ⟨after, load_eq, filled, kept⟩ := ih (first + 1) stored extended
      refine ⟨after, ?_, filled, fun addr outside => ?_⟩
      · rw [List.range'_succ, loadBlocks, disk_eq]
        exact load_eq
      · rw [kept addr outside]
        apply writeBlock_outside
        have le : (first + 1) * blockSize ≤ (first + 1 + count) * blockSize :=
          Nat.mul_le_mul_right blockSize (by omega)
        rw [Nat.add_mul first 1] at le
        omega

/-- A page does not change with another page. -/
theorem Shows.kept {after : Memory} {offset other : Nat}
    (shows_before : Shows contents bytes offset other) (ne : other ≠ frame)
    (other_aligned : NORMAL_PAGE_SIZE ∣ other) (aligned : NORMAL_PAGE_SIZE ∣ frame)
    (kept : ∀ addr, addr < frame ∨ frame + NORMAL_PAGE_SIZE ≤ addr → after addr = bytes addr) :
    Shows contents after offset other := by
  intro i below inside
  rw [kept (other + i), shows_before i below inside]
  obtain ⟨k, rfl⟩ := other_aligned
  obtain ⟨l, rfl⟩ := aligned
  have apart : k ≠ l := fun same => ne (by rw [same])
  unfold NORMAL_PAGE_SIZE at *
  omega

end Filling

/-! ## The pages of an open file -/

/-- How the bytes come into a page: the blocks of the file fill it, or no block fits it and they
are in memory already. -/
def Delivers (contents : List UInt8) (blockSize : Nat) (disk : Blocks) (ram : Ram) : Prop :=
  (blockSize ∣ NORMAL_PAGE_SIZE ∧ Stored contents blockSize disk) ∨
    (NORMAL_PAGE_SIZE < blockSize ∧
      ∀ frame ∈ ram.supply, ∀ offset, Shows contents ram.bytes offset frame)

/-- Offsets of the pages that have no frame. -/
def missing (contents : List UInt8) (file : FileVmo) : List Nat :=
  (Vmo.pageOffsets contents.length).filter fun offset => (file.anonymousVmo.frameAt offset).isNone

/-- The pages that have a frame show the contents, and there are frames for the others. -/
structure Loaded (contents : List UInt8) (disk : Blocks) (file : FileVmo) (ram : Ram) : Prop where
  size_eq : file.anonymousVmo.size = contents.length
  shown : ∀ offset frame, file.anonymousVmo.frameAt offset = some frame →
    NORMAL_PAGE_SIZE ∣ frame ∧ frame ∉ ram.supply ∧ Shows contents ram.bytes offset frame
  nodup : ram.supply.Nodup
  aligned : ∀ frame ∈ ram.supply, NORMAL_PAGE_SIZE ∣ frame
  nonzero : ∀ frame ∈ ram.supply, frame ≠ 0
  enough : (missing contents file).length ≤ ram.supply.length
  delivers : Delivers contents file.blockSize disk ram

section Loading

variable {contents : List UInt8} {disk : Blocks} {file : FileVmo} {ram : Ram} {offset frame : Nat}

theorem mem_pageOffsets {size : Nat} (aligned : NORMAL_PAGE_SIZE ∣ offset)
    (inside : offset < size) :
    offset ∈ Vmo.pageOffsets size := by
  obtain ⟨page, rfl⟩ := aligned
  refine List.mem_map.mpr ⟨page, List.mem_range.mpr ?_, Nat.mul_comm page _⟩
  unfold pageCount NORMAL_PAGE_SIZE at *
  omega

theorem Loaded.opened {size blockSize : Nat} (size_eq : contents.length = size)
    (room : ram.Room size) (delivers : Delivers contents blockSize disk ram) :
    Loaded contents disk (Ext2File.opened size blockSize).fileVmo ram where
  size_eq := size_eq.symm
  shown := fun offset frame found => by
    rw [Ext2File.opened, Vmo.frameAt_new] at found
    cases found
  nodup := room.nodup
  aligned := room.aligned
  nonzero := room.nonzero
  enough := by
    apply Nat.le_trans (List.length_filter_le _ _)
    rw [Vmo.pageOffsets, List.length_map, List.length_range, size_eq]
    exact room.enough
  delivers := delivers

/-- Entering a frame leaves one page less without. -/
theorem length_missing_insert (absent : file.anonymousVmo.frameAt offset = none)
    (mem : offset ∈ Vmo.pageOffsets contents.length) (nonzero : frame ≠ 0) :
    (missing contents { file with anonymousVmo :=
      { file.anonymousVmo with pages := file.anonymousVmo.pages.insert offset frame } }).length <
      (missing contents file).length := by
  have narrowed : missing contents { file with anonymousVmo :=
      { file.anonymousVmo with pages := file.anonymousVmo.pages.insert offset frame } } =
      (missing contents file).filter (fun other => !decide (other = offset)) := by
    rw [missing, missing, List.filter_filter]
    apply List.filter_congr
    intro other _
    by_cases same : other = offset
    · rw [same, Vmo.frameAt_insert_same nonzero]
      simp
    · rw [Vmo.frameAt_insert_other same]
      simp [same]
  rw [narrowed, List.length_filter_lt_length_iff_exists]
  exact ⟨offset, List.mem_filter.mpr ⟨mem, by rw [absent]; rfl⟩, by simp⟩

/-- A frame that is filled and entered. -/
theorem Loaded.entered {rest : List Nat} {after : Memory}
    (loaded : Loaded contents disk file ram) (taken : ram.supply = frame :: rest)
    (absent : file.anonymousVmo.frameAt offset = none)
    (mem : offset ∈ Vmo.pageOffsets contents.length)
    (kept : ∀ addr, addr < frame ∨ frame + NORMAL_PAGE_SIZE ≤ addr → after addr = ram.bytes addr)
    (filled : Shows contents after offset frame) :
    Loaded contents disk { file with anonymousVmo :=
      { file.anonymousVmo with pages := file.anonymousVmo.pages.insert offset frame } }
      ⟨after, rest⟩ := by
  have fresh : frame ∉ rest ∧ rest.Nodup := by
    rw [← List.nodup_cons, ← taken]
    exact loaded.nodup
  have frame_mem : frame ∈ ram.supply := taken ▸ List.mem_cons_self
  have rest_mem : ∀ other ∈ rest, other ∈ ram.supply :=
    fun other later => taken ▸ List.mem_cons_of_mem frame later
  have frame_aligned := loaded.aligned frame frame_mem
  constructor
  · exact loaded.size_eq
  · intro other frame' found
    by_cases same : other = offset
    · rw [same, Vmo.frameAt_insert_same (loaded.nonzero frame frame_mem)] at found
      cases found
      exact ⟨frame_aligned, fresh.1, same ▸ filled⟩
    · rw [Vmo.frameAt_insert_other same] at found
      obtain ⟨aligned, apart, shows_other⟩ := loaded.shown other frame' found
      have ne : frame' ≠ frame := fun eq => apart (eq ▸ frame_mem)
      exact ⟨aligned, fun later => apart (rest_mem frame' later),
        shows_other.kept ne aligned frame_aligned kept⟩
  · exact fresh.2
  · exact fun other later => loaded.aligned other (rest_mem other later)
  · exact fun other later => loaded.nonzero other (rest_mem other later)
  · have length_eq : ram.supply.length = rest.length + 1 := by rw [taken, List.length_cons]
    have fewer := length_missing_insert absent mem (loaded.nonzero frame frame_mem)
    have enough := loaded.enough
    rw [length_eq] at enough
    exact Nat.le_of_lt_succ (Nat.lt_of_lt_of_le fewer enough)
  · cases loaded.delivers with
    | inl blocks => exact .inl blocks
    | inr memory =>
        refine .inr ⟨memory.1, fun other later place => ?_⟩
        have ne : other ≠ frame := fun eq => fresh.1 (eq ▸ later)
        exact (memory.2 other (rest_mem other later) place).kept ne
          (loaded.aligned other (rest_mem other later)) frame_aligned kept

/-- A frame is filled with the page at an offset. -/
theorem loadBlocks_delivers {rest : List Nat} (loaded : Loaded contents disk file ram)
    (taken : ram.supply = frame :: rest) (aligned : NORMAL_PAGE_SIZE ∣ offset)
    (inside : offset < contents.length) :
    ∃ after, loadBlocks disk file.blockSize (offset / file.blockSize) frame
        (List.range (NORMAL_PAGE_SIZE / file.blockSize)) ram.bytes = (.ok (), after) ∧
      (∀ addr, addr < frame ∨ frame + NORMAL_PAGE_SIZE ≤ addr → after addr = ram.bytes addr) ∧
      Shows contents after offset frame := by
  cases loaded.delivers with
  | inl blocks =>
      obtain ⟨divides, stored⟩ := blocks
      have start_eq : offset / file.blockSize * file.blockSize = offset :=
        Nat.div_mul_cancel (divides.trans aligned)
      have count_eq : NORMAL_PAGE_SIZE / file.blockSize * file.blockSize = NORMAL_PAGE_SIZE :=
        Nat.div_mul_cancel divides
      have available : ∀ i < 0 + NORMAL_PAGE_SIZE / file.blockSize,
          ∃ block, disk (offset / file.blockSize + i) = .ok block ∧
            ∀ j < file.blockSize,
              ∀ within : (offset / file.blockSize + i) * file.blockSize + j < contents.length,
                block j = contents[(offset / file.blockSize + i) * file.blockSize + j] := by
        intro i below
        apply stored
        have page_end :
            offset + NORMAL_PAGE_SIZE ≤ pageCount contents.length * NORMAL_PAGE_SIZE := by
          obtain ⟨page, rfl⟩ := aligned
          unfold pageCount NORMAL_PAGE_SIZE at *
          omega
        rw [Nat.zero_add] at below
        have block_end : (i + 1) * file.blockSize ≤ NORMAL_PAGE_SIZE :=
          count_eq ▸ Nat.mul_le_mul_right file.blockSize below
        have positive : 0 < file.blockSize := Nat.pos_of_dvd_of_pos divides (by decide)
        rw [Nat.add_mul, start_eq]
        rw [Nat.add_mul, Nat.one_mul] at block_end
        omega
      obtain ⟨after, load_eq, filled, kept⟩ :=
        @loadBlocks_stored _ _ _ _ frame ram.bytes 0 _ available (fun i below => by omega)
      rw [Nat.zero_add, count_eq] at filled kept
      rw [start_eq] at filled
      exact ⟨after, List.range_eq_range' ▸ load_eq, kept, filled⟩
  | inr memory =>
      obtain ⟨too_long, shown⟩ := memory
      rw [Nat.div_eq_of_lt too_long]
      exact ⟨ram.bytes, rfl, fun _ _ => rfl, shown frame (taken ▸ List.mem_cons_self) offset⟩

/-- Every page of the file is there when it is requested. -/
theorem Loaded.requestPage (loaded : Loaded contents disk file ram)
    (aligned : NORMAL_PAGE_SIZE ∣ offset) (inside : offset < contents.length) :
    ∃ frame file' ram', requestPage disk file ram offset = .ok (.ok frame, file', ram') ∧
      Loaded contents disk file' ram' ∧ Shows contents ram'.bytes offset frame := by
  have within : ¬offset ≥ file.anonymousVmo.size := by
    rw [loaded.size_eq]
    omega
  rw [FileReads.requestPage, if_neg within]
  cases found : file.anonymousVmo.frameAt offset with
  | some frame => exact ⟨frame, file, ram, rfl, loaded, (loaded.shown offset frame found).2.2⟩
  | none =>
      have mem := mem_pageOffsets aligned inside
      cases taken : ram.supply with
      | nil =>
          have missed : offset ∈ missing contents file :=
            List.mem_filter.mpr ⟨mem, by rw [found]; rfl⟩
          have enough := loaded.enough
          rw [taken] at enough
          have none_missing := List.eq_nil_of_length_eq_zero (Nat.le_zero.mp enough)
          rw [none_missing] at missed
          cases missed
      | cons frame rest =>
          obtain ⟨after, load_eq, kept, filled⟩ := loadBlocks_delivers loaded taken aligned inside
          have nonzero := loaded.nonzero frame (taken ▸ List.mem_cons_self)
          refine ⟨frame, _, _, ?_, loaded.entered taken found mem kept filled, filled⟩
          simp only [allocFrame, bind, Except.bind, if_neg nonzero, load_eq]
          rfl

end Loading

/-! ## Reading a file of the volume -/

section Reading

variable {contents : List UInt8} {disk : Blocks}

theorem Shows.read {bytes : Memory} {page frame within count : Nat}
    (shown : Shows contents bytes page frame) (in_page : within + count ≤ NORMAL_PAGE_SIZE)
    (in_file : page + within + count ≤ contents.length) :
    bytes.read (frame + within) count = (contents.drop (page + within)).take count := by
  apply List.ext_getElem
  · rw [Memory.length_read, List.length_take, List.length_drop]
    omega
  · intro i below _
    rw [Memory.length_read] at below
    simp only [Memory.getElem_read, List.getElem_take, List.getElem_drop, Nat.add_assoc]
    exact shown (within + i) (by omega) (by omega)

/-- The bytes behind those copied. -/
theorem copied_append (offset copied count : Nat) :
    (contents.drop offset).take copied ++ (contents.drop (offset + copied)).take count =
      (contents.drop offset).take (copied + count) := by
  rw [List.take_add, List.drop_drop]

/-- The loop copies what the file holds from the offset on. -/
theorem readLoop_loaded {offset readLen fuel copied : Nat} {file : FileVmo} {ram : Ram}
    (loaded : Loaded contents disk file ram) (in_file : offset + readLen ≤ contents.length)
    (copied_le : copied ≤ readLen) (fuel_enough : readLen - copied ≤ fuel) :
    ∃ file' ram', readLoop disk offset readLen fuel ((contents.drop offset).take copied) file ram =
        .ok (.ok ((contents.drop offset).take readLen), file', ram') ∧
      Loaded contents disk file' ram' := by
  have length_eq : ∀ count ≤ readLen, ((contents.drop offset).take count).length = count := by
    intro count le
    rw [List.length_take, List.length_drop]
    omega
  induction fuel generalizing copied file ram with
  | zero =>
      obtain rfl : copied = readLen := by omega
      refine ⟨file, ram, ?_, loaded⟩
      rw [readLoop, length_eq copied le_rfl, if_neg (Nat.lt_irrefl copied)]
  | succ fuel ih =>
      rw [readLoop, length_eq copied copied_le]
      split
      next unfinished =>
        obtain ⟨frame, file', ram', request_eq, loaded', shown⟩ :=
          @Loaded.requestPage _ _ _ _ ((offset + copied) / 4096 * 4096) loaded
            (Nat.dvd_mul_left 4096 _) (by omega)
        have position_eq : (offset + copied) / 4096 * 4096 + (offset + copied) % 4096 =
            offset + copied := Nat.div_add_mod' (offset + copied) 4096
        have in_page : (offset + copied) % 4096 < 4096 := Nat.mod_lt _ (by decide)
        have chunk_eq := @Shows.read _ _ _ _ ((offset + copied) % 4096)
          (min (4096 - (offset + copied) % 4096) (readLen - copied)) shown
          (by unfold NORMAL_PAGE_SIZE; omega) (by omega)
        simp only [request_eq, bind, Except.bind, chunk_eq, position_eq, copied_append]
        exact ih loaded' (by omega) (by omega)
      next finished =>
        obtain rfl : copied = readLen := by omega
        exact ⟨file, ram, rfl, loaded⟩

/-- A read returns the bytes at the position of the file. -/
theorem Ext2File.read_loaded {file : Ext2File} {ram : Ram} (request : Request)
    (size_eq : file.size = contents.length) (loaded : Loaded contents disk file.fileVmo ram) :
    ∃ fileVmo ram', file.read disk ram request =
        .ok (.ok ((contents.drop file.offset).take request.len),
          ⟨file.size, fileVmo, file.offset + min request.len (file.size - file.offset)⟩, ram') ∧
      Loaded contents disk fileVmo ram' := by
  have moved : ((contents.drop file.offset).take request.len).length =
      min request.len (file.size - file.offset) := by
    rw [List.length_take, List.length_drop, size_eq]
  suffices bytes_read : ∃ fileVmo ram', file.readBytesAsync disk ram file.offset request.len =
      .ok (.ok ((contents.drop file.offset).take request.len), fileVmo, ram') ∧
      Loaded contents disk fileVmo ram' by
    obtain ⟨fileVmo, ram', bytes_eq, loaded'⟩ := bytes_read
    refine ⟨fileVmo, ram', ?_, loaded'⟩
    simp only [Ext2File.read, bytes_eq, bind, Except.bind, moved]
    rfl
  rw [Ext2File.readBytesAsync]
  split
  next beyond =>
    rw [List.drop_of_length_le (size_eq ▸ beyond), List.take_nil]
    exact ⟨_, _, rfl, loaded⟩
  next inside =>
    dsimp only
    split
    next nothing =>
      have len_zero : request.len = 0 := by omega
      rw [len_zero, List.take_zero]
      exact ⟨_, _, rfl, loaded⟩
    next =>
      have loop_eq := @readLoop_loaded _ _ file.offset
        (min (file.size - file.offset) request.len) _ 0 _ _ loaded (by omega) (Nat.zero_le _) le_rfl
      rw [List.take_zero] at loop_eq
      have take_eq : (contents.drop file.offset).take (min (file.size - file.offset) request.len) =
          (contents.drop file.offset).take request.len := by
        rw [List.take_eq_take_iff, List.length_drop]
        omega
      rwa [take_eq] at loop_eq

/-- A request that reads nothing leaves the file as it is. -/
theorem Ext2File.read_nothing {file : Ext2File} (ram : Ram) {request : Request}
    (nothing : request.len = 0 ∨ file.size ≤ file.offset) :
    file.read disk ram request = .ok (.ok [], file, ram) := by
  have bytes_eq : file.readBytesAsync disk ram file.offset request.len =
      .ok (.ok [], file.fileVmo, ram) := by
    rw [Ext2File.readBytesAsync]
    split
    next => rfl
    next inside => exact if_pos (by omega)
  simp only [Ext2File.read, bytes_eq, bind, Except.bind]
  rfl

/-- What a file with a position returns. -/
def served (contents : List UInt8) :
    (position : Nat) → List Request → List (Except InvocationError (List UInt8))
  | _, [] => []
  | position, request :: requests =>
      .ok ((contents.drop position).take request.len) ::
        served contents (position + min request.len (contents.length - position)) requests

/-- An ext2 file returns the bytes at its position, whatever offsets are requested. -/
theorem serve_loaded {file : Ext2File} {ram : Ram} (requests : List Request)
    (size_eq : file.size = contents.length) (loaded : Loaded contents disk file.fileVmo ram) :
    serve (Ext2File.invoke disk) (file, ram) requests =
      .ok (served contents file.offset requests) := by
  induction requests generalizing file ram with
  | nil => rfl
  | cons request requests ih =>
      obtain ⟨fileVmo, ram', read_eq, loaded'⟩ := file.read_loaded request size_eq loaded
      have rest_eq :=
        @ih ⟨file.size, fileVmo, file.offset + min request.len (file.size - file.offset)⟩ ram'
          size_eq loaded'
      rw [size_eq] at rest_eq read_eq
      simp only [serve, Ext2File.invoke, read_eq, bind, Except.bind, rest_eq, served]
      rfl

end Reading

/-! ## Programs and memories -/

section Programs

variable {contents : List UInt8} {size blockSize : Nat}

/-- The results of a sequence are the first and those of the rest. -/
theorem cons_eq_ok {α : Type} {first head : α} {rest : Kernel (List α)} {tail : List α} :
    (do let results ← rest; return first :: results) = Except.ok (head :: tail) ↔
      first = head ∧ rest = .ok tail := by
  cases rest with
  | error problem => simp [bind, Except.bind]
  | ok results => simp [bind, Except.bind, pure, Except.pure]

/-- A program reads what its requests return. -/
theorem runFile_eq_iff {σ : Type}
    (invoke : σ → Request → Kernel (Except InvocationError (List UInt8) × σ)) (state : σ)
    (cursor : Nat) (calls : List Call) :
    runFile invoke cursor state calls =
        .ok ((requestsOf contents.length cursor calls).map (wanted contents)) ↔
      serve invoke state (requestsOf contents.length cursor calls) =
        .ok ((requestsOf contents.length cursor calls).map (wanted contents)) := by
  induction calls generalizing state cursor with
  | nil => rfl
  | cons call calls ih =>
      cases call with
      | seek pos => exact ih state pos
      | read len =>
          rw [runFile, requestsOf, serve, List.map_cons]
          cases invoke_eq : invoke state ⟨cursor, len⟩ with
          | error problem => simp [bind, Except.bind]
          | ok answer =>
              obtain ⟨result, state'⟩ := answer
              refine cons_eq_ok.trans (Iff.trans ?_ cons_eq_ok.symm)
              apply and_congr_right
              rintro rfl
              have moved : ((contents.drop cursor).take len).length =
                  min len (contents.length - cursor) := by
                rw [List.length_take, List.length_drop]
              simp only [wanted, moved]
              exact ih state' (cursor + min len (contents.length - cursor))

/-- The answers of an open file of the volume. -/
theorem serve_opened {disk : Blocks} {ram : Ram} (requests : List Request)
    (size_eq : contents.length = size) (room : ram.Room size)
    (delivers : Delivers contents blockSize disk ram) :
    serve (Ext2File.invoke disk) (.opened size blockSize, ram) requests =
      .ok (served contents 0 requests) :=
  serve_loaded requests size_eq.symm (Loaded.opened size_eq room delivers)

end Programs

/-- Memory with frames for a file. -/
def ramOf (size : Nat) (byte : UInt8) : Ram :=
  ⟨fun _ => byte, (List.range' 1 (pageCount size)).map (· * NORMAL_PAGE_SIZE)⟩

theorem ramOf_room (size : Nat) (byte : UInt8) : (ramOf size byte).Room size where
  nodup := by
    apply List.Nodup.map _ (List.nodup_range' _)
    exact fun page other same => Nat.mul_right_cancel (by decide) same
  aligned := by
    intro frame mem
    obtain ⟨page, -, rfl⟩ := List.mem_map.mp mem
    exact Nat.dvd_mul_left _ page
  nonzero := by
    intro frame mem
    obtain ⟨page, page_mem, rfl⟩ := List.mem_map.mp mem
    have positive := (List.mem_range'_1.mp page_mem).1
    exact Nat.mul_ne_zero (by omega) (by decide)
  enough := by simp [ramOf]

end FileReads
end Vespertine
