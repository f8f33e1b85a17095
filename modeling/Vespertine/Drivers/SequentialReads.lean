import Vespertine.Drivers.Ext2
import Vespertine.Drivers.FileReads

/-!
# Sequential reads of a volume

A file on an ext2 volume whose device delivers every block: its bytes are those of the disk blocks
that `resolve_file_block` gives, and zeros in a hole.  Reads go through the page map of the file,
which is filled from several blocks a page when a page is first requested.

Memory can run short in two ways.  An allocated frame can be zero, which fails the request, and
`resolve_file_block` fails when it gets no page for its tables.  Both leave the position of the file
where it was, and a later read continues there.
-/

namespace Vespertine
namespace SequentialReads

open Ext2 FileReads

/-- A volume on a device that delivers every block. -/
structure Volume where
  blockSize : Nat
  /-- The bytes of a disk block. -/
  disk : UInt32 → Nat → UInt8

namespace Volume

variable (volume : Volume)

/-- A pointer in a table of indirect blocks. -/
def pointerAt (blockId : UInt32) (index : Nat) : UInt32 :=
  UInt32.ofNat (Bytes.toNat (Memory.read (volume.disk blockId) (4 * index) 4))

/-- The file system, as `resolve_file_block` sees it. -/
def fs : Ext2FileSystem := .faultFree volume.blockSize volume.pointerAt

/-- `read_block`: block zero is all zeros. -/
def readBlock (blockId : UInt32) (i : Nat) : UInt8 :=
  if blockId = 0 then 0 else volume.disk blockId i

/-- Resolve and read a block of the file; `pages` says whether `resolve_file_block` gets a page for
the tables of that block. -/
def blocks (inode : DiskBlockPointers) (pages : Nat → Bool) : Blocks := fun fileBlockIdx =>
  match volume.fs.resolveFileBlock (pages fileBlockIdx) inode fileBlockIdx with
  | .error _ => .error ()
  | .ok diskBlockId => .ok (volume.readBlock diskBlockId)

/-- A byte of the file. -/
def fileByte (inode : DiskBlockPointers) (j : Nat) : Except ResolveError UInt8 := do
  let diskBlockId ← volume.fs.resolveFileBlock true inode (j / volume.blockSize)
  return if diskBlockId = 0 then 0 else volume.disk diskBlockId (j % volume.blockSize)

end Volume

/-- A read of an open file. -/
structure ReadCall extends Request where
  /-- Whether a page for the tables of a block can be allocated. -/
  pages : Nat → Bool

section Runs

variable (volume : Volume) (inode : DiskBlockPointers)

/-- `FileOp::Read`. -/
def read (state : Ext2File × Ram) (call : ReadCall) :
    Kernel (Except InvocationError (List UInt8) × Ext2File × Ram) :=
  state.1.read (volume.blocks inode call.pages) state.2 call.toRequest

/-- The results of a sequence of reads, and the file and the memory behind them. -/
def readAll : Ext2File × Ram → List ReadCall →
    Kernel (List (Except InvocationError (List UInt8)) × Ext2File × Ram)
  | state, [] => .ok ([], state)
  | state, call :: calls => do
      let (result, state) ← read volume inode state call
      let (results, state) ← readAll state calls
      return (result :: results, state)

end Runs

/-- The bytes that the successful reads return. -/
def received : List (Except InvocationError (List UInt8)) → List UInt8
  | [] => []
  | .ok bytes :: results => bytes ++ received results
  | .error _ :: results => received results

/-- The lengths of the successful reads, added up. -/
def requested : List ReadCall → List (Except InvocationError (List UInt8)) → Nat
  | call :: calls, .ok _ :: results => call.len + requested calls results
  | _ :: calls, .error _ :: results => requested calls results
  | _, _ => 0

/-! ## Filling a page when memory is short -/

/-- The blocks that the disk delivers are those of the file. -/
def Faithful (contents : List UInt8) (blockSize : Nat) (disk : Blocks) : Prop :=
  ∀ index block, disk index = .ok block → ∀ i < blockSize,
    ∀ inside : index * blockSize + i < contents.length,
      block i = contents[index * blockSize + i]

section Filling

variable {contents : List UInt8} {disk : Blocks} {blockSize start frame : Nat} {bytes : Memory}

/-- Filling a page writes to the place of its blocks only, also when it fails. -/
theorem loadBlocks_outside (first count : Nat) {addr : Nat}
    (outside : addr < frame ∨ frame + (first + count) * blockSize ≤ addr) :
    (loadBlocks disk blockSize start frame (List.range' first count) bytes).2 addr =
      bytes addr := by
  induction count generalizing first bytes with
  | zero => rfl
  | succ count ih =>
      rw [List.range'_succ, loadBlocks]
      cases disk (start + first) with
      | error problem => rfl
      | ok block =>
          have shift : first + (count + 1) = first + 1 + count := by omega
          rw [shift] at outside
          refine (ih (first + 1) outside).trans (writeBlock_outside ?_)
          have le : (first + 1) * blockSize ≤ (first + 1 + count) * blockSize :=
            Nat.mul_le_mul_right blockSize (by omega)
          rw [Nat.add_mul first 1] at le
          omega

/-- A page that could be filled shows the file. -/
theorem loadBlocks_faithful {offset : Nat} (divides : blockSize ∣ NORMAL_PAGE_SIZE)
    (faithful : Faithful contents blockSize disk) (aligned : NORMAL_PAGE_SIZE ∣ offset)
    (loaded : (loadBlocks disk blockSize (offset / blockSize) frame
      (List.range (NORMAL_PAGE_SIZE / blockSize)) bytes).1 = .ok ()) :
    Shows contents (loadBlocks disk blockSize (offset / blockSize) frame
      (List.range (NORMAL_PAGE_SIZE / blockSize)) bytes).2 offset frame := by
  rw [loadBlocks_fst] at loaded
  split at loaded
  next all_read =>
    have available : ∀ i < 0 + NORMAL_PAGE_SIZE / blockSize,
        ∃ block, disk (offset / blockSize + i) = .ok block ∧ ∀ j < blockSize,
          ∀ inside : (offset / blockSize + i) * blockSize + j < contents.length,
            block j = contents[(offset / blockSize + i) * blockSize + j] := by
      intro i below
      have read := List.all_eq_true.mp all_read i (List.mem_range.mpr (by omega))
      cases disk_eq : disk (offset / blockSize + i) with
      | error problem =>
          rw [disk_eq] at read
          cases read
      | ok block => exact ⟨block, rfl, faithful _ block disk_eq⟩
    obtain ⟨after, load_eq, filled, -⟩ :=
      @loadBlocks_stored _ _ _ _ frame bytes 0 _ available (fun i below => by omega)
    rw [Nat.zero_add, Nat.div_mul_cancel divides,
      Nat.div_mul_cancel (divides.trans aligned)] at filled
    rw [List.range_eq_range', load_eq]
    exact filled
  next => cases loaded

end Filling

/-! ## The page map when memory is short -/

/-- The page allocator hands out aligned frames, each of them once; zero stands for none. -/
structure Handout (supply : List Nat) : Prop where
  aligned : ∀ frame ∈ supply, NORMAL_PAGE_SIZE ∣ frame
  distinct : (supply.filter (· ≠ 0)).Nodup

/-- The pages that have a frame show the file, and the frames to come are not in use. -/
structure Held (contents : List UInt8) (file : FileVmo) (ram : Ram) : Prop where
  size_eq : file.anonymousVmo.size = contents.length
  shown : ∀ offset frame, file.anonymousVmo.frameAt offset = some frame →
    NORMAL_PAGE_SIZE ∣ frame ∧ frame ∉ ram.supply ∧ Shows contents ram.bytes offset frame
  handout : Handout ram.supply

/-- A computation returns a value with a property unless the allocator runs dry. -/
def Returns {α : Type} (run : Kernel α) (post : α → Prop) : Prop :=
  run = .error .outOfMemory ∨ ∃ value, run = .ok value ∧ post value

theorem Returns.bind {α β : Type} {run : Kernel α} {next : α → Kernel β} {mid : α → Prop}
    {post : β → Prop} (first : Returns run mid)
    (rest : ∀ value, mid value → Returns (next value) post) :
    Returns (run >>= next) post := by
  obtain run_eq | ⟨value, run_eq, mid_value⟩ := first
  · exact .inl (by rw [run_eq]; rfl)
  · rw [run_eq]
    exact rest value mid_value

theorem Returns.pure {α : Type} {value : α} {post : α → Prop} (holds : post value) :
    Returns (.ok value) post :=
  .inr ⟨value, rfl, holds⟩

section Requests

variable {contents : List UInt8} {disk : Blocks} {file : FileVmo} {ram : Ram}
  {offset frame : Nat} {rest : List Nat}

theorem Handout.tail (handout : Handout (frame :: rest)) : Handout rest where
  aligned := fun other later => handout.aligned other (List.mem_cons_of_mem frame later)
  distinct := handout.distinct.sublist ((List.sublist_cons_self frame rest).filter _)

theorem Handout.fresh (handout : Handout (frame :: rest)) (nonzero : frame ≠ 0) :
    frame ∉ rest := by
  intro later
  have distinct := handout.distinct
  rw [List.filter_cons_of_pos (by simpa using nonzero), List.nodup_cons] at distinct
  exact distinct.1 (List.mem_filter.mpr ⟨later, by simpa using nonzero⟩)

theorem Held.opened {size blockSize : Nat} (size_eq : contents.length = size)
    (handout : Handout ram.supply) :
    Held contents (Ext2File.opened size blockSize).fileVmo ram where
  size_eq := size_eq.symm
  shown := fun offset frame found => by
    rw [Ext2File.opened, Vmo.frameAt_new] at found
    cases found
  handout := handout

/-- A frame is taken and perhaps written to, and the request fails. -/
theorem Held.dropped {after : Memory} (held : Held contents file ram)
    (taken : ram.supply = frame :: rest)
    (kept : frame ≠ 0 → ∀ addr, addr < frame ∨ frame + NORMAL_PAGE_SIZE ≤ addr →
      after addr = ram.bytes addr) (untouched : frame = 0 → after = ram.bytes) :
    Held contents file ⟨after, rest⟩ := by
  have handout := taken ▸ held.handout
  refine ⟨held.size_eq, fun place other found => ?_, handout.tail⟩
  obtain ⟨aligned, unused, shows_other⟩ := held.shown place other found
  rw [taken, List.mem_cons, not_or] at unused
  refine ⟨aligned, unused.2, ?_⟩
  by_cases zero : frame = 0
  · rw [untouched zero]
    exact shows_other
  · exact shows_other.kept unused.1 aligned (handout.aligned frame List.mem_cons_self)
      (kept zero)

/-- A frame is taken, filled and entered. -/
theorem Held.entered {after : Memory} (held : Held contents file ram)
    (taken : ram.supply = frame :: rest) (nonzero : frame ≠ 0)
    (kept : ∀ addr, addr < frame ∨ frame + NORMAL_PAGE_SIZE ≤ addr → after addr = ram.bytes addr)
    (filled : Shows contents after offset frame) :
    Held contents { file with anonymousVmo :=
      { file.anonymousVmo with pages := file.anonymousVmo.pages.insert offset frame } }
      ⟨after, rest⟩ := by
  have dropped := held.dropped taken (fun _ => kept) (fun zero => absurd zero nonzero)
  have handout := taken ▸ held.handout
  refine ⟨held.size_eq, fun place other found => ?_, handout.tail⟩
  by_cases same : place = offset
  · rw [same, Vmo.frameAt_insert_same nonzero] at found
    cases found
    exact ⟨handout.aligned frame List.mem_cons_self, handout.fresh nonzero, same ▸ filled⟩
  · rw [Vmo.frameAt_insert_other same] at found
    exact dropped.shown place other found

/-- A request keeps what the page map shows; a frame that it returns shows its page. -/
theorem Held.requestPage (held : Held contents file ram)
    (divides : file.blockSize ∣ NORMAL_PAGE_SIZE)
    (faithful : Faithful contents file.blockSize disk) (aligned : NORMAL_PAGE_SIZE ∣ offset) :
    Returns (requestPage disk file ram offset) fun (answer, file', ram') =>
      Held contents file' ram' ∧ file'.blockSize = file.blockSize ∧
        ∀ frame, answer = .ok frame → Shows contents ram'.bytes offset frame := by
  rw [FileReads.requestPage]
  split
  next => exact .pure ⟨held, rfl, by rintro _ ⟨⟩⟩
  next inside =>
    split
    next frame found =>
      refine .pure ⟨held, rfl, fun other same => ?_⟩
      obtain rfl := Except.ok.inj same
      exact (held.shown offset frame found).2.2
    next absent =>
      cases taken : ram.supply with
      | nil => exact .inl rfl
      | cons frame rest =>
          simp only [allocFrame, bind, Except.bind]
          split
          next zero =>
            exact .pure ⟨held.dropped taken (fun nonzero => absurd zero nonzero) fun _ => rfl,
              rfl, by rintro _ ⟨⟩⟩
          next nonzero =>
            have kept : ∀ addr, addr < frame ∨ frame + NORMAL_PAGE_SIZE ≤ addr →
                (loadBlocks disk file.blockSize (offset / file.blockSize) frame
                  (List.range (NORMAL_PAGE_SIZE / file.blockSize)) ram.bytes).2 addr =
                  ram.bytes addr := by
              intro addr outside
              rw [List.range_eq_range']
              apply loadBlocks_outside
              rwa [Nat.zero_add, Nat.div_mul_cancel divides]
            have filled := @loadBlocks_faithful _ _ _ frame ram.bytes _ divides faithful aligned
            split
            next bytes load_eq =>
              rw [load_eq] at kept
              exact .pure ⟨held.dropped taken (fun _ => kept) fun zero => absurd zero nonzero,
                rfl, by rintro _ ⟨⟩⟩
            next bytes load_eq =>
              rw [load_eq] at kept filled
              refine .pure ⟨held.entered taken nonzero kept (filled rfl), rfl, ?_⟩
              intro other same
              obtain rfl := Except.ok.inj same
              exact filled rfl

/-- The loop of a read either copies what the file holds or fails. -/
theorem readLoop_held {offset readLen fuel copied : Nat} {file : FileVmo} {ram : Ram}
    (held : Held contents file ram) (divides : file.blockSize ∣ NORMAL_PAGE_SIZE)
    (faithful : Faithful contents file.blockSize disk)
    (in_file : offset + readLen ≤ contents.length) (copied_le : copied ≤ readLen)
    (fuel_enough : readLen - copied ≤ fuel) :
    Returns (readLoop disk offset readLen fuel ((contents.drop offset).take copied) file ram)
      fun (result, file', ram') =>
        Held contents file' ram' ∧ file'.blockSize = file.blockSize ∧
          ∀ bytes, result = .ok bytes → bytes = (contents.drop offset).take readLen := by
  have length_eq : ∀ count ≤ readLen, ((contents.drop offset).take count).length = count := by
    intro count le
    rw [List.length_take, List.length_drop]
    omega
  induction fuel generalizing copied file ram with
  | zero =>
      obtain rfl : copied = readLen := by omega
      rw [readLoop, length_eq copied le_rfl, if_neg (Nat.lt_irrefl copied)]
      exact .pure ⟨held, rfl, fun bytes same => (Except.ok.inj same).symm⟩
  | succ fuel ih =>
      rw [readLoop, length_eq copied copied_le]
      split
      next unfinished =>
        apply (held.requestPage divides faithful
          (Nat.dvd_mul_left 4096 ((offset + copied) / 4096))).bind
        rintro ⟨answer, file', ram'⟩ ⟨held', blockSize_eq, shown⟩
        cases answer with
        | error problem => exact .pure ⟨held', blockSize_eq, by rintro _ ⟨⟩⟩
        | ok frame =>
            have position_eq : (offset + copied) / 4096 * 4096 + (offset + copied) % 4096 =
                offset + copied := Nat.div_add_mod' (offset + copied) 4096
            have in_page : (offset + copied) % 4096 < 4096 := Nat.mod_lt _ (by decide)
            have chunk_eq := @Shows.read _ _ _ _ ((offset + copied) % 4096)
              (min (4096 - (offset + copied) % 4096) (readLen - copied)) (shown frame rfl)
              (by unfold NORMAL_PAGE_SIZE; omega) (by omega)
            rw [← blockSize_eq] at divides faithful ⊢
            simp only [chunk_eq, position_eq, copied_append]
            exact ih held' divides faithful (by omega) (by omega)
      next finished =>
        obtain rfl : copied = readLen := by omega
        exact .pure ⟨held, rfl, fun bytes same => (Except.ok.inj same).symm⟩

/-- What a read returns, and the position behind it. -/
def Moves (contents : List UInt8) (position len : Nat) :
    Except InvocationError (List UInt8) → Nat → Prop
  | .ok bytes, after =>
      bytes = (contents.drop position).take len ∧ after = position + bytes.length
  | .error _, after => position < contents.length ∧ after = position

/-- An open file that shows its contents. -/
structure Opened (contents : List UInt8) (blockSize : Nat) (file : Ext2File) (ram : Ram) :
    Prop where
  size_eq : file.size = contents.length
  blockSize_eq : file.fileVmo.blockSize = blockSize
  inside : file.offset ≤ contents.length
  held : Held contents file.fileVmo ram

/-- A read moves the position over the bytes that it returns, and fails inside the file only. -/
theorem Opened.read {file : Ext2File} {blockSize : Nat}
    (opened : Opened contents blockSize file ram) (divides : blockSize ∣ NORMAL_PAGE_SIZE)
    (faithful : Faithful contents blockSize disk) (request : Request) :
    Returns (file.read disk ram request) fun (result, file', ram') =>
      Opened contents blockSize file' ram' ∧
        Moves contents file.offset request.len result file'.offset := by
  obtain ⟨size_eq, rfl, inside, held⟩ := opened
  by_cases nothing : request.len = 0 ∨ file.size ≤ file.offset
  · rw [file.read_nothing ram nothing]
    refine .pure ⟨⟨size_eq, rfl, inside, held⟩, ?_, rfl⟩
    symm
    apply List.eq_nil_of_length_eq_zero
    rw [List.length_take, List.length_drop]
    omega
  · rw [not_or] at nothing
    have read_len : min (file.size - file.offset) request.len ≠ 0 := by omega
    have looped := @readLoop_held _ disk file.offset
      (min (file.size - file.offset) request.len) _ 0 _ _ held divides faithful (by omega)
      (Nat.zero_le _) le_rfl
    have take_eq : (contents.drop file.offset).take (min (file.size - file.offset) request.len) =
        (contents.drop file.offset).take request.len := by
      rw [List.take_eq_take_iff, List.length_drop]
      omega
    rw [List.take_zero, take_eq] at looped
    rw [Ext2File.read, Ext2File.readBytesAsync, if_neg (by omega)]
    dsimp only
    rw [if_neg read_len]
    apply looped.bind
    rintro ⟨result, fileVmo, ram'⟩ ⟨held', blockSize_eq, copied⟩
    cases result with
    | error problem =>
        exact .pure ⟨⟨size_eq, blockSize_eq, inside, held'⟩, by omega, rfl⟩
    | ok bytes =>
        obtain rfl := copied bytes rfl
        refine .pure ⟨⟨size_eq, blockSize_eq, ?_, held'⟩, rfl, rfl⟩
        dsimp only
        rw [List.length_take, List.length_drop]
        omega

end Requests

/-! ## The blocks of a file -/

section Blocks

variable {volume : Volume} {inode : DiskBlockPointers}

/-- A block size that the file system is used with. -/
theorem Volume.log_of_sizes
    (sizes : volume.blockSize = 1024 ∨ volume.blockSize = 2048 ∨ volume.blockSize = 4096) :
    ∃ log ≤ 2, volume.blockSize = 1024 <<< log := by
  obtain size_eq | size_eq | size_eq := sizes
  · exact ⟨0, by decide, size_eq⟩
  · exact ⟨1, by decide, size_eq⟩
  · exact ⟨2, by decide, size_eq⟩

/-- Every block of a file shorter than `2 ^ 32` is resolved, when pages can be allocated. -/
theorem Volume.resolve_ok
    (sizes : volume.blockSize = 1024 ∨ volume.blockSize = 2048 ∨ volume.blockSize = 4096)
    {index : Nat} (inside : index * volume.blockSize < 2 ^ 32) :
    ∃ blockId, volume.fs.resolveFileBlock true inode index = .ok blockId := by
  obtain ⟨log, log_le, size_eq⟩ := volume.log_of_sizes sizes
  have tables : Ext2.Tables volume.blockSize (256 * 2 ^ log) :=
    size_eq ▸ Ext2.Tables.of_log (by omega : log < 22)
  have index_lt : index < 2 ^ 22 := by
    have large : 1024 ≤ volume.blockSize := by omega
    have le := Nat.mul_le_mul_left index large
    omega
  have word : wordSize = 2 ^ 64 := rfl
  by_cases direct : index < 12
  · exact ⟨_, dif_pos direct⟩
  by_cases single : index < 12 + 256 * 2 ^ log
  · exact ⟨_, (resolve_single tables _ _ _ (by omega) single).trans (if_pos (.inl rfl))⟩
  have power_le : 2 ^ log ≤ 2 ^ 2 := Nat.pow_le_pow_right (by decide) log_le
  have rest_eq : (index - 12 + 256 * 2 ^ log) % wordSize = index - 12 + 256 * 2 ^ log :=
    Nat.mod_eq_of_lt (by omega)
  by_cases double : (index - 12 + 256 * 2 ^ log) % wordSize < (256 * 2 ^ log) ^ 2
  · exact ⟨_, (resolve_double tables _ _ _ (by omega) double).trans (if_pos (.inl rfl))⟩
  have triple : (index - 12 + 256 * 2 ^ log) % wordSize - (256 * 2 ^ log) ^ 2 <
      (256 * 2 ^ log) ^ 2 * (256 * 2 ^ log) % wordSize := by
    have cases_log : log = 0 ∨ log = 1 ∨ log = 2 := by omega
    rw [rest_eq]
    obtain rfl | rfl | rfl := cases_log
    · rw [word]
      omega
    · rw [word]
      omega
    · rw [word]
      omega
  exact ⟨_, (resolve_triple tables _ _ _ (by omega) (by omega) triple).trans
    (if_pos (.inl rfl))⟩

/-- A block that is resolved when pages are short is resolved the same when they are not. -/
theorem Volume.resolve_page {page : Bool} {index : Nat} {blockId : UInt32}
    (resolved : volume.fs.resolveFileBlock page inode index = .ok blockId) :
    volume.fs.resolveFileBlock true inode index = .ok blockId := by
  have tier (indirectId : UInt32) (path : List Nat) :
      volume.fs.resolveTier page indirectId path = .ok blockId →
        volume.fs.resolveTier true indirectId path = .ok blockId := by
    intro resolved
    rw [Ext2FileSystem.resolveTier] at resolved ⊢
    split at resolved
    next hole => rwa [if_pos hole]
    next present =>
      split at resolved
      next => rwa [if_neg present]
      next => cases resolved
  rw [Ext2FileSystem.resolveFileBlock] at resolved ⊢
  split at resolved
  next direct => rwa [dif_pos direct]
  next indirect =>
    rw [dif_neg indirect]
    dsimp only at resolved ⊢
    split at resolved
    next single => rw [if_pos single, tier _ _ resolved]
    next past_single =>
      rw [if_neg past_single]
      split at resolved
      next double => rw [if_pos double, tier _ _ resolved]
      next past_double =>
        rw [if_neg past_double]
        split at resolved
        next triple => rw [if_pos triple, tier _ _ resolved]
        next => cases resolved

/-- The contents of a file of the given size. -/
def Volume.contents (volume : Volume) (inode : DiskBlockPointers) (size : Nat) : List UInt8 :=
  (List.range size).map fun j => (volume.fileByte inode j).toOption.getD 0

@[simp] theorem Volume.length_contents (size : Nat) :
    (volume.contents inode size).length = size := by
  rw [contents, List.length_map, List.length_range]

theorem Volume.getElem_contents {size j : Nat} (inside : j < (volume.contents inode size).length)
    {blockId : UInt32} {byte : UInt8}
    (resolved : volume.fs.resolveFileBlock true inode (j / volume.blockSize) = .ok blockId)
    (byte_eq : volume.readBlock blockId (j % volume.blockSize) = byte) :
    volume.fileByte inode j = .ok byte ∧ (volume.contents inode size)[j] = byte := by
  have file_eq : volume.fileByte inode j = .ok byte := by
    rw [fileByte, resolved, ← byte_eq]
    rfl
  refine ⟨file_eq, ?_⟩
  simp only [contents, List.getElem_map, List.getElem_range, file_eq]
  rfl

variable
  (sizes : volume.blockSize = 1024 ∨ volume.blockSize = 2048 ∨ volume.blockSize = 4096)
  {size : Nat}

include sizes

/-- The contents are the bytes of the disk blocks. -/
theorem Volume.contents_byte (small : size < 2 ^ 32) {j : Nat}
    (inside : j < (volume.contents inode size).length) :
    volume.fileByte inode j = .ok (volume.contents inode size)[j] := by
  have in_file : j < size := by rwa [length_contents] at inside
  have le : j / volume.blockSize * volume.blockSize ≤ j := Nat.div_mul_le_self _ _
  have within : j / volume.blockSize * volume.blockSize < 2 ^ 32 := by omega
  obtain ⟨blockId, resolved⟩ := volume.resolve_ok sizes within
  obtain ⟨file_eq, content_eq⟩ := volume.getElem_contents inside resolved rfl
  rw [content_eq, file_eq]

omit sizes in
theorem Volume.faithful (pages : Nat → Bool) :
    Faithful (volume.contents inode size) volume.blockSize (volume.blocks inode pages) := by
  intro index block read i below inside
  rw [blocks] at read
  split at read
  next => cases read
  next blockId resolved =>
    obtain rfl := Except.ok.inj read
    have positive : 0 < volume.blockSize := by omega
    have div_eq : (index * volume.blockSize + i) / volume.blockSize = index := by
      rw [Nat.mul_comm, Nat.mul_add_div positive, Nat.div_eq_of_lt below, Nat.add_zero]
    have mod_eq : (index * volume.blockSize + i) % volume.blockSize = i := by
      rw [Nat.mul_comm, Nat.mul_add_mod, Nat.mod_eq_of_lt below]
    have read_eq := volume.resolve_page resolved
    rw [← div_eq] at read_eq
    exact (volume.getElem_contents inside read_eq (congrArg _ mod_eq)).2.symm

theorem Volume.stored (small : size < 2 ^ 32) :
    Stored (volume.contents inode size) volume.blockSize (volume.blocks inode fun _ => true) := by
  intro index inside
  have within : index * volume.blockSize < 2 ^ 32 := by
    rw [length_contents] at inside
    unfold pageCount NORMAL_PAGE_SIZE at inside
    omega
  obtain ⟨blockId, resolved⟩ := volume.resolve_ok sizes within
  refine ⟨volume.readBlock blockId, ?_, ?_⟩
  · rw [blocks, resolved]
  · apply volume.faithful (fun _ => true) index
    rw [blocks, resolved]

theorem Volume.divides : volume.blockSize ∣ NORMAL_PAGE_SIZE := by
  obtain size_eq | size_eq | size_eq := sizes
  all_goals
    rw [size_eq]
    decide

end Blocks

/-! ## Sequences of reads -/

section Sequences

variable {volume : Volume} {inode : DiskBlockPointers} {contents : List UInt8}

/-- Nothing is left behind a read that was cut short. -/
theorem drop_read (position len : Nat) :
    contents.drop (position + ((contents.drop position).take len).length) =
      (contents.drop position).drop len := by
  rw [List.drop_drop, List.length_take, List.length_drop]
  by_cases short : len ≤ contents.length - position
  · rw [Nat.min_eq_left short]
  · rw [List.drop_of_length_le (by omega), List.drop_of_length_le (by omega)]

/-- The successful reads of a sequence return what follows the position, and move it. -/
theorem readAll_opened
    (reads : ∀ call : ReadCall, ∀ file ram, Opened contents volume.blockSize file ram →
      Returns (read volume inode (file, ram) call) fun (result, file', ram') =>
        Opened contents volume.blockSize file' ram' ∧
          Moves contents file.offset call.len result file'.offset)
    (calls : List ReadCall) {file : Ext2File} {ram : Ram}
    (opened : Opened contents volume.blockSize file ram) :
    Returns (readAll volume inode (file, ram) calls) fun (results, file', ram') =>
      Opened contents volume.blockSize file' ram' ∧ results.length = calls.length ∧
        received results = (contents.drop file.offset).take (requested calls results) ∧
        file'.offset = file.offset + (received results).length := by
  induction calls generalizing file ram with
  | nil => exact .pure ⟨opened, rfl, List.take_zero.symm, rfl⟩
  | cons call calls ih =>
      rw [readAll]
      apply (reads call file ram opened).bind
      rintro ⟨result, file', ram'⟩ ⟨opened', moves⟩
      apply (ih opened').bind
      rintro ⟨results, file'', ram''⟩ ⟨opened'', length_eq, received_eq, offset_eq⟩
      refine .pure ⟨opened'', by simp [length_eq], ?_⟩
      cases result with
      | error problem =>
          rw [moves.2] at received_eq offset_eq
          exact ⟨received_eq, offset_eq⟩
      | ok bytes =>
          obtain ⟨bytes_eq, after_eq⟩ := moves
          rw [received, requested, offset_eq, after_eq, List.length_append]
          refine ⟨?_, by omega⟩
          rw [received_eq, after_eq, List.take_add, ← drop_read, ← bytes_eq]

/-- With frames for all pages and pages for all tables every read succeeds. -/
theorem readAll_loaded (calls : List ReadCall)
    (paged : ∀ call ∈ calls, ∀ index, call.pages index = true) {file : Ext2File} {ram : Ram}
    (size_eq : file.size = contents.length)
    (loaded : Loaded contents (volume.blocks inode fun _ => true) file.fileVmo ram) :
    ∃ results state, readAll volume inode (file, ram) calls = .ok (results, state) ∧
      results.length = calls.length ∧ ∀ result ∈ results, result.isOk = true := by
  induction calls generalizing file ram with
  | nil => exact ⟨[], (file, ram), rfl, rfl, nofun⟩
  | cons call calls ih =>
      have pages_eq : call.pages = fun _ => true := funext (paged call List.mem_cons_self)
      obtain ⟨fileVmo, ram', read_eq, loaded'⟩ := file.read_loaded call.toRequest size_eq loaded
      obtain ⟨results, state, rest_eq, length_eq, all_ok⟩ :=
        @ih (fun later mem => paged later (List.mem_cons_of_mem call mem))
          ⟨file.size, fileVmo, file.offset + min call.len (file.size - file.offset)⟩ ram'
          size_eq loaded'
      refine ⟨.ok ((contents.drop file.offset).take call.len) :: results, state, ?_,
        congrArg Nat.succ length_eq, ?_⟩
      · rw [readAll, SequentialReads.read, pages_eq]
        simp only [read_eq, bind, Except.bind, rest_eq]
        rfl
      · intro result mem
        obtain rfl | later := List.mem_cons.mp mem
        · rfl
        · exact all_ok result later

/-- When every read succeeds, all lengths count. -/
theorem requested_of_ok {calls : List ReadCall}
    {results : List (Except InvocationError (List UInt8))}
    (length_eq : results.length = calls.length) (all_ok : ∀ result ∈ results, result.isOk = true) :
    requested calls results = (calls.map fun call => call.len).sum := by
  induction calls generalizing results with
  | nil => cases results <;> rfl
  | cons call calls ih =>
      cases results with
      | nil => cases length_eq
      | cons result results =>
          have first := all_ok result List.mem_cons_self
          cases result with
          | error problem => cases first
          | ok bytes =>
              rw [requested, List.map_cons, List.sum_cons,
                ih (Nat.succ.inj length_eq) fun later mem =>
                  all_ok later (List.mem_cons_of_mem _ mem)]

theorem Handout.of_room {ram : Ram} {size : Nat} (room : ram.Room size) : Handout ram.supply :=
  ⟨room.aligned, room.nodup.filter _⟩

end Sequences

/-- Reading a file of the volume from front to back, in any lengths: what is returned is the front
of the file, as long as the lengths of the successful reads together; a read at the end returns
nothing and a failed one does not move the position.  With memory for all pages no read fails. -/
theorem sequential_reads (volume : Volume) (inode : DiskBlockPointers) (size : UInt32)
    (sizes : volume.blockSize = 1024 ∨ volume.blockSize = 2048 ∨ volume.blockSize = 4096) :
    ∃ contents : List UInt8, contents.length = size.toNat ∧
      (∀ j, ∀ inside : j < contents.length, volume.fileByte inode j = .ok contents[j]) ∧
      ∀ (calls : List ReadCall) (ram : Ram),
        (Handout ram.supply →
          Returns (readAll volume inode (.opened size.toNat volume.blockSize, ram) calls)
            fun (results, file, ram') =>
              received results = contents.take (requested calls results) ∧
              (received results).length = min (requested calls results) size.toNat ∧
              file.offset = (received results).length ∧
              ∀ call, Returns (read volume inode (file, ram') call) fun (result, after, _) =>
                (file.offset = size.toNat → result = .ok []) ∧
                  ∀ problem, result = .error problem → after.offset = file.offset) ∧
        (ram.Room size.toNat → (∀ call ∈ calls, ∀ index, call.pages index = true) →
          ∃ results state,
            readAll volume inode (.opened size.toNat volume.blockSize, ram) calls =
                .ok (results, state) ∧
              (∀ result ∈ results, result.isOk = true) ∧
              received results = contents.take (calls.map fun call => call.len).sum) := by
  have small : size.toNat < 2 ^ 32 := size.toNat_lt
  have length_eq : (volume.contents inode size.toNat).length = size.toNat :=
    volume.length_contents size.toNat
  have reads (call : ReadCall) (file : Ext2File) (ram : Ram)
      (opened : Opened (volume.contents inode size.toNat) volume.blockSize file ram) :=
    opened.read (volume.divides sizes) (volume.faithful call.pages) call.toRequest
  have start {ram : Ram} (handout : Handout ram.supply) :
      Opened (volume.contents inode size.toNat) volume.blockSize
        (.opened size.toNat volume.blockSize) ram :=
    ⟨length_eq.symm, rfl, Nat.zero_le _, .opened length_eq handout⟩
  have returned (calls : List ReadCall) {ram : Ram} (handout : Handout ram.supply) :=
    readAll_opened (fun call file ram opened => reads call file ram opened) calls (start handout)
  refine ⟨volume.contents inode size.toNat, length_eq,
    fun j inside => volume.contents_byte sizes small inside, fun calls ram => ⟨?_, ?_⟩⟩
  · intro handout
    obtain stopped | ⟨⟨results, file, ram'⟩, run_eq, opened, -, received_eq, offset_eq⟩ :=
      returned calls handout
    · exact .inl stopped
    · refine .inr ⟨(results, file, ram'), run_eq, received_eq, ?_,
        offset_eq.trans (Nat.zero_add _), ?_⟩
      · rw [received_eq, List.length_take]
        exact congrArg _ length_eq
      · intro call
        obtain stopped | ⟨⟨result, after, ram''⟩, read_eq, -, moves⟩ := reads call file ram' opened
        · exact .inl stopped
        · refine .inr ⟨(result, after, ram''), read_eq, fun at_end => ?_, ?_⟩
          · cases result with
            | error problem => exact absurd moves.1 (by omega)
            | ok bytes =>
                rw [moves.1, at_end, List.drop_of_length_le length_eq.le, List.take_nil]
          · rintro problem rfl
            exact moves.2
  · intro room paged
    have delivers : Delivers (volume.contents inode size.toNat) volume.blockSize
        (volume.blocks inode fun _ => true) ram :=
      .inl ⟨volume.divides sizes, volume.stored sizes small⟩
    obtain ⟨results, state, run_eq, results_length, all_ok⟩ := readAll_loaded calls paged
      length_eq.symm (Loaded.opened length_eq room delivers)
    refine ⟨results, state, run_eq, all_ok, ?_⟩
    obtain stopped | ⟨⟨_, _, _⟩, run_eq', -, -, received_eq, -⟩ :=
      returned calls (Handout.of_room room)
    · rw [run_eq] at stopped
      cases stopped
    · rw [run_eq] at run_eq'
      cases run_eq'
      rw [received_eq, requested_of_ok results_length all_ok]
      rfl

/-- A volume with blocks of 1024 bytes that are filled with their numbers, and a file in blocks 7 to
18. -/
def plainVolume : Volume := ⟨1024, fun blockId _ => UInt8.ofNat blockId.toNat⟩

def plainInode : DiskBlockPointers := ⟨fun i => UInt32.ofNat (i + 7), 0, 0, 0⟩

theorem fileByte_plain {j : Nat} (inside : j < 5000) :
    plainVolume.fileByte plainInode j = .ok (UInt8.ofNat (j / 1024 + 7)) := by
  have direct : j / 1024 < 12 := by omega
  have resolved : plainVolume.fs.resolveFileBlock true plainInode (j / plainVolume.blockSize) =
      .ok (UInt32.ofNat (j / 1024 + 7)) := dif_pos direct
  have id_eq : (UInt32.ofNat (j / 1024 + 7)).toNat = j / 1024 + 7 :=
    UInt32.toNat_ofNat_of_lt' (by change _ < 2 ^ 32; omega)
  have present : UInt32.ofNat (j / 1024 + 7) ≠ 0 := by
    intro zero
    rw [zero] at id_eq
    cases id_eq
  rw [Volume.fileByte, resolved]
  change Except.ok (if UInt32.ofNat (j / 1024 + 7) = 0 then 0 else
    UInt8.ofNat (UInt32.ofNat (j / 1024 + 7)).toNat) = _
  rw [if_neg present, id_eq]

/-- Two reads of a file of 5000 bytes: the first ends inside a block, the second goes over the end
of a page and is cut short by the end of the file. -/
theorem sequential_reads_cut_short :
    ∃ results state,
      readAll plainVolume plainInode (.opened 5000 1024, ramOf 5000 0)
          [⟨⟨0, 3000⟩, fun _ => true⟩, ⟨⟨0, 3000⟩, fun _ => true⟩] = .ok (results, state) ∧
        received results = (List.range 5000).map fun j => UInt8.ofNat (j / 1024 + 7) := by
  obtain ⟨contents, length_eq, byte_eq, reads⟩ :=
    sequential_reads plainVolume plainInode 5000 (.inl rfl)
  obtain ⟨results, state, run_eq, -, received_eq⟩ :=
    (reads [⟨⟨0, 3000⟩, fun _ => true⟩, ⟨⟨0, 3000⟩, fun _ => true⟩] (ramOf 5000 0)).2
      (ramOf_room 5000 0) (by simp)
  have length_5000 : contents.length = 5000 := length_eq
  refine ⟨results, state, run_eq, received_eq.trans ?_⟩
  apply List.ext_getElem
  · simp [length_5000]
  · intro j below below'
    rw [List.length_map, List.length_range] at below'
    have byte := byte_eq j (by omega)
    rw [fileByte_plain below'] at byte
    simp only [List.getElem_take, List.getElem_map, List.getElem_range]
    exact (Except.ok.inj byte).symm

end SequentialReads
end Vespertine
