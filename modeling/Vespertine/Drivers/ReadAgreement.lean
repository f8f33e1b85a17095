import Vespertine.Drivers.SequentialReads

/-!
# The two kinds of file

The bytes of a file of an ext2 volume are those of the blocks that the format's block map has for
it.  The file of the ramdisk returns the bytes that a request asks for.  The file of the volume
returns the bytes at its own position, and from the double-indirect blocks on those of another
place: `resolve_file_block` is two tables ahead there.
-/

namespace Vespertine
namespace ReadAgreement

open Ext2 FileReads SequentialReads

/-- A byte of a file of a volume. -/
def formatByte (volume : Volume) (inode : DiskBlockPointers) (j : Nat) :
    Except ResolveError UInt8 := do
  let diskBlockId ← blockMap (volume.blockSize / 4) volume.pointerAt inode (j / volume.blockSize)
  return volume.readBlock diskBlockId (j % volume.blockSize)

/-- A file on a volume, and memory for all its pages. -/
structure Stored (contents : List UInt8) (volume : Volume) (inode : DiskBlockPointers)
    (ram : Ram) : Prop where
  byte_eq : ∀ j, ∀ inside : j < contents.length, formatByte volume inode j = .ok contents[j]
  room : ram.Room contents.length

/-- The end of the single-indirect blocks. -/
def limit (blockSize : Nat) : Nat := (12 + blockSize / 4) * blockSize

/-- How far ahead the code looks behind the limit: the bytes of two tables of blocks. -/
def drift (blockSize : Nat) : Nat := 2 * (blockSize / 4) * blockSize

/-- Where the code finds a byte of the file. -/
def place (blockSize j : Nat) : Nat := if j < limit blockSize then j else j + drift blockSize

/-- The condition on one request: nothing is read, or blocks fit a page and either the offset is the
position that the earlier reads have reached and the bytes end before the limit, or the position is
behind the limit and the offset is as far ahead of it as the code looks. -/
def Fits (size blockSize position : Nat) (request : Request) : Prop :=
  request.len = 0 ∨ (size ≤ request.offset ∧ size ≤ position) ∨
    (blockSize ≤ NORMAL_PAGE_SIZE ∧
      ((request.offset = position ∧
          position + min request.len (size - position) ≤ limit blockSize) ∨
        (limit blockSize ≤ position ∧ request.offset = position + drift blockSize ∧
          request.offset + request.len ≤ size)))

/-- Every request of a sequence meets the condition at the position that it finds. -/
def Sequential (size blockSize : Nat) : (position : Nat) → List Request → Prop
  | _, [] => True
  | position, request :: requests =>
      Fits size blockSize position request ∧
        Sequential size blockSize (position + min request.len (size - position)) requests

/-! ## Places of the block map -/

/-- The root that the format has for an index. -/
def rootAt (p : Nat) (inode : DiskBlockPointers) (index : Nat) : UInt32 :=
  if direct : index < 12 then inode.direct ⟨index, direct⟩
  else if index < 12 + p then inode.singleIndirect
  else formatRoot p inode index

/-- The path from the root to the block of an index. -/
def pathAt (p index : Nat) : List Nat :=
  if index < 12 then []
  else if index < 12 + p then [index - 12]
  else if index < 12 + p + p ^ 2 then [(index - 12 - p) / p, (index - 12 - p) % p]
  else [(index - 12 - p - p ^ 2) / p ^ 2, (index - 12 - p - p ^ 2) / p % p,
    (index - 12 - p - p ^ 2) % p]

/-- The number of a root among the pointers of an inode. -/
def tier (p index : Nat) : Nat :=
  if index < 12 then index
  else if index < 12 + p then 12
  else if index < 12 + p + p ^ 2 then 13
  else 14

/-- An inode with block 1 for the root of one index. -/
def inodeAt (p index : Nat) : DiskBlockPointers :=
  ⟨fun i => if i.val = tier p index then 1 else 0, if 12 = tier p index then 1 else 0,
    if 13 = tier p index then 1 else 0, if 14 = tier p index then 1 else 0⟩

section Places

variable {p index other : Nat} (tables : UInt32 → Nat → UInt32) (inode : DiskBlockPointers)

theorem blockMap_eq (inside : index < 12 + p + p ^ 2 + p ^ 3) :
    blockMap p tables inode index =
      .ok (entryAt tables (rootAt p inode index) (pathAt p index)) := by
  rw [blockMap, rootAt, pathAt]
  by_cases direct : index < 12
  · rw [dif_pos direct, dif_pos direct, if_pos direct, entryAt_nil]
  rw [dif_neg direct, dif_neg direct, if_neg direct]
  by_cases single : index < 12 + p
  · rw [if_pos single, if_pos single, if_pos single]
  rw [if_neg single, if_neg single, if_neg single, formatRoot]
  by_cases double : index < 12 + p + p ^ 2
  · rw [if_pos double, if_pos double, if_pos double]
  rw [if_neg double, if_neg double, if_neg double, if_pos inside]

theorem rootAt_inodeAt :
    rootAt p (inodeAt p index) other = if tier p other = tier p index then 1 else 0 := by
  rw [rootAt, formatRoot, tier]
  split
  next => rfl
  next =>
    split
    next => rfl
    next =>
      split
      next => rfl
      next => rfl

/-- Roots of one number are those of one tier, where the paths have one length. -/
theorem length_pathAt (same : tier p index = tier p other) :
    (pathAt p index).length = (pathAt p other).length := by
  unfold tier at same
  unfold pathAt
  split_ifs at same ⊢
  all_goals first | rfl | omega

theorem length_pathAt_le : (pathAt p index).length ≤ 3 := by
  unfold pathAt
  split_ifs <;> simp

/-- A root and a path are those of one index. -/
theorem pathAt_injective (same : tier p index = tier p other)
    (path_eq : pathAt p index = pathAt p other) : index = other := by
  unfold tier at same
  unfold pathAt at path_eq
  have square_eq (offset : Nat) : offset / p ^ 2 = offset / p / p := by
    rw [Nat.pow_two, Nat.div_div_eq_div_mul]
  split_ifs at same path_eq
  all_goals try omega
  · have first_eq := (List.cons.inj path_eq).1
    omega
  · simp only [List.cons.injEq, and_true] at path_eq
    have offset_eq : index - 12 - p = other - 12 - p := by
      rw [← Nat.div_add_mod (index - 12 - p) p, path_eq.1, path_eq.2, Nat.div_add_mod]
    omega
  · simp only [List.cons.injEq, and_true, square_eq] at path_eq
    obtain ⟨top_eq, middle_eq, last_eq⟩ := path_eq
    have table_eq : (index - 12 - p - p ^ 2) / p = (other - 12 - p - p ^ 2) / p := by
      rw [← Nat.div_add_mod ((index - 12 - p - p ^ 2) / p) p, top_eq, middle_eq, Nat.div_add_mod]
    have offset_eq : index - 12 - p - p ^ 2 = other - 12 - p - p ^ 2 := by
      rw [← Nat.div_add_mod (index - 12 - p - p ^ 2) p, table_eq, last_eq, Nat.div_add_mod]
    omega

end Places

/-! ## A volume with one marked byte -/

/-- A disk whose tables lead to a block along one path; the block has a single one. -/
def markedDisk (path : List Nat) (within : Nat) (blockId : UInt32) (i : Nat) : UInt8 :=
  if blockId.toNat ≤ path.length then
    if i % 4 = 0 then UInt8.ofNat (trail path blockId (i / 4)).toNat else 0
  else
    if i = within then 1 else 0

/-- A volume with a file that has a single one, at a place of the block map. -/
def markedVolume (blockSize target : Nat) : Volume :=
  ⟨blockSize, markedDisk (pathAt (blockSize / 4) (target / blockSize)) (target % blockSize)⟩

section Marked

theorem trail_le (path : List Nat) (blockId : UInt32) (index : Nat)
    (inside : blockId.toNat ≤ path.length) (short : path.length < 255) :
    (trail path blockId index).toNat < 256 := by
  rw [trail]
  split
  next =>
    rw [UInt32.toNat_ofNat_of_lt' (by change _ < 2 ^ 32; omega)]
    omega
  next => decide

theorem pointerAt_marked {path : List Nat} {within blockSize : Nat} {blockId : UInt32}
    (index : Nat) (inside : blockId.toNat ≤ path.length) (short : path.length < 255) :
    Volume.pointerAt ⟨blockSize, markedDisk path within⟩ blockId index =
      trail path blockId index := by
  have small := trail_le path blockId index inside short
  have low : markedDisk path within blockId (4 * index) =
      UInt8.ofNat (trail path blockId index).toNat := by
    rw [markedDisk, if_pos inside, if_pos (by omega), Nat.mul_div_cancel_left index (by decide)]
  have high : ∀ k, 0 < k → k < 4 → markedDisk path within blockId (4 * index + k) = 0 := by
    intro k positive below
    rw [markedDisk, if_pos inside, if_neg (by omega)]
  have bytes_eq : Memory.read (markedDisk path within blockId) (4 * index) 4 =
      [UInt8.ofNat (trail path blockId index).toNat, 0, 0, 0] := by
    simp only [Memory.read, List.range_succ, List.range_zero, List.map_nil,
      List.map_cons, List.nil_append, List.cons_append, Nat.add_zero, low,
      high 1 (by decide) (by decide), high 2 (by decide) (by decide),
      high 3 (by decide) (by decide)]
  have value_eq : (UInt8.ofNat (trail path blockId index).toNat).toNat =
      (trail path blockId index).toNat := UInt8.toNat_ofNat_of_lt' small
  rw [Volume.pointerAt, bytes_eq]
  simp only [Bytes.toNat, value_eq]
  simp

variable {blockSize target j : Nat}

/-- The byte of the target is the only one of the file. -/
theorem formatByte_marked
    (inside : j / blockSize < 12 + blockSize / 4 + (blockSize / 4) ^ 2 + (blockSize / 4) ^ 3) :
    formatByte (markedVolume blockSize target) (inodeAt (blockSize / 4) (target / blockSize)) j =
      .ok (if j = target then 1 else 0) := by
  have length_le := @length_pathAt_le (blockSize / 4) (target / blockSize)
  rw [formatByte, markedVolume]
  dsimp only
  rw [blockMap_eq _ _ inside, rootAt_inodeAt]
  have j_eq := Nat.div_add_mod j blockSize
  have target_eq := Nat.div_add_mod target blockSize
  have same_iff : j = target ↔ j / blockSize = target / blockSize ∧
      j % blockSize = target % blockSize := by
    constructor
    · rintro rfl
      exact ⟨rfl, rfl⟩
    · rintro ⟨div_eq, mod_eq⟩
      rw [← j_eq, ← target_eq, div_eq, mod_eq]
  by_cases same : tier (blockSize / 4) (j / blockSize) = tier (blockSize / 4) (target / blockSize)
  · have entry_eq := @entryAt_trail
      (Volume.pointerAt ⟨blockSize, markedDisk (pathAt (blockSize / 4) (target / blockSize))
        (target % blockSize)⟩) []
      (pathAt (blockSize / 4) (target / blockSize)) (pathAt (blockSize / 4) (j / blockSize))
      (fun blockId index le => pointerAt_marked index (by simpa using le) (by omega))
      (by simp; omega) (length_pathAt same)
    simp only [List.length_nil, Nat.zero_add] at entry_eq
    rw [if_pos same, show (1 : UInt32) = UInt32.ofNat 1 from rfl, entry_eq]
    by_cases paths : pathAt (blockSize / 4) (j / blockSize) =
        pathAt (blockSize / 4) (target / blockSize)
    · have id_eq : (UInt32.ofNat
          ((pathAt (blockSize / 4) (target / blockSize)).length + 1)).toNat =
          (pathAt (blockSize / 4) (target / blockSize)).length + 1 :=
        UInt32.toNat_ofNat_of_lt' (by change _ < 2 ^ 32; omega)
      have present : UInt32.ofNat
          ((pathAt (blockSize / 4) (target / blockSize)).length + 1) ≠ 0 := by
        intro zero
        rw [zero] at id_eq
        cases id_eq
      rw [if_pos paths]
      simp only [bind, Except.bind, pure, Except.pure, Volume.readBlock, if_neg present,
        markedDisk, id_eq]
      rw [if_neg (by omega)]
      have div_eq := pathAt_injective same paths
      simp only [same_iff, div_eq, true_and]
    · rw [if_neg paths, if_neg fun eq => paths (by rw [(same_iff.mp eq).1])]
      rfl
  · rw [if_neg same, entryAt_zero, if_neg fun eq => same (by rw [(same_iff.mp eq).1])]
    rfl

end Marked

/-! ## What the code finds -/

section Finding

variable {volume : Volume} {inode : DiskBlockPointers} {log : Nat}

/-- The places of a file of 32-bit size, and those that the code takes for them, are in the block
map. -/
theorem inside_of_small {j : Nat} (size_eq : volume.blockSize = 1024 <<< log)
    (small : j < 2 ^ 32 + drift volume.blockSize) :
    j / volume.blockSize <
      12 + volume.blockSize / 4 + (volume.blockSize / 4) ^ 2 + (volume.blockSize / 4) ^ 3 := by
  have shift_eq : volume.blockSize = 1024 * 2 ^ log := by rw [size_eq, Nat.shiftLeft_eq]
  have positive := Nat.two_pow_pos log
  have pointers_eq : volume.blockSize / 4 = 256 * 2 ^ log := by omega
  have index_lt : j / volume.blockSize < 2 ^ 22 + 2 * (volume.blockSize / 4) := by
    rw [Nat.div_lt_iff_lt_mul (by omega), Nat.add_mul]
    have large : 2 ^ 22 * 1024 ≤ 2 ^ 22 * volume.blockSize := Nat.mul_le_mul_left _ (by omega)
    unfold drift at small
    omega
  have square_le : 256 * 256 ≤ (volume.blockSize / 4) ^ 2 := by
    rw [Nat.pow_two]
    exact Nat.mul_le_mul (by omega) (by omega)
  have cube_le : 256 * 256 * (volume.blockSize / 4) ≤ (volume.blockSize / 4) ^ 3 := by
    rw [Nat.pow_succ]
    exact Nat.mul_le_mul_right _ square_le
  omega

/-- Behind the single-indirect blocks the code is two tables ahead. -/
theorem resolve_ahead {index : Nat} (short : log ≤ 2) (size_eq : volume.blockSize = 1024 <<< log)
    (past : 12 + 256 * 2 ^ log ≤ index)
    (within : index + 2 * (256 * 2 ^ log) <
      12 + 256 * 2 ^ log + (256 * 2 ^ log) ^ 2 + (256 * 2 ^ log) ^ 3) :
    volume.fs.resolveFileBlock true inode index =
      blockMap (256 * 2 ^ log) volume.pointerAt inode (index + 2 * (256 * 2 ^ log)) := by
  have sizes : Ext2.Tables volume.blockSize (256 * 2 ^ log) := size_eq ▸ .of_log (by omega)
  have large := sizes.large
  have word : wordSize = 2 ^ 64 := rfl
  have power_le : 2 ^ log ≤ 2 ^ 2 := Nat.pow_le_pow_right (by decide) short
  have square_le : (256 * 2 ^ log) ^ 2 ≤ (256 * 2 ^ 2) ^ 2 :=
    Nat.pow_le_pow_left (Nat.mul_le_mul_left 256 power_le) 2
  have cube_le : (256 * 2 ^ log) ^ 3 ≤ (256 * 2 ^ 2) ^ 3 :=
    Nat.pow_le_pow_left (Nat.mul_le_mul_left 256 power_le) 3
  have rest_eq : (index - 12 + 256 * 2 ^ log) % wordSize =
      index + 2 * (256 * 2 ^ log) - 12 - 256 * 2 ^ log := by
    rw [Nat.mod_eq_of_lt (by omega)]
    omega
  by_cases double : index + 2 * (256 * 2 ^ log) < 12 + 256 * 2 ^ log + (256 * 2 ^ log) ^ 2
  · rw [blockMap_double _ _ (by omega) double, ← rest_eq]
    exact (resolve_double sizes _ _ _ past (by omega)).trans (if_pos (.inl rfl))
  · rw [blockMap_triple _ _ (by omega) within, ← rest_eq]
    refine (resolve_triple sizes _ _ _ past (by omega) ?_).trans (if_pos (.inl rfl))
    have cube_eq : (256 * 2 ^ log) ^ 2 * (256 * 2 ^ log) % wordSize = (256 * 2 ^ log) ^ 3 := by
      rw [show (256 * 2 ^ log) ^ 2 * (256 * 2 ^ log) = (256 * 2 ^ log) ^ 3 from
        (Nat.pow_succ ..).symm]
      exact Nat.mod_eq_of_lt (by omega)
    rw [cube_eq, rest_eq]
    omega

/-- The code finds a byte of the file at its place in the block map, or ahead of it. -/
theorem fileByte_eq {j : Nat} (short : log ≤ 2) (size_eq : volume.blockSize = 1024 <<< log)
    (small : j < 2 ^ 32) :
    volume.fileByte inode j = formatByte volume inode (place volume.blockSize j) := by
  have sizes : Ext2.Tables volume.blockSize (256 * 2 ^ log) := size_eq ▸ .of_log (by omega)
  have large := sizes.large
  have ahead_lt := @inside_of_small volume log (j + drift volume.blockSize) size_eq (by omega)
  have positive : 0 < volume.blockSize := by
    have pointers_eq := sizes.blockSize_eq
    omega
  have below_iff : j < limit volume.blockSize ↔ j / volume.blockSize < 12 + 256 * 2 ^ log := by
    rw [limit, sizes.blockSize_eq, Nat.div_lt_iff_lt_mul positive]
  have ahead_div : (j + drift volume.blockSize) / volume.blockSize =
      j / volume.blockSize + 2 * (256 * 2 ^ log) := by
    rw [drift, sizes.blockSize_eq, Nat.add_mul_div_right _ _ positive]
  have ahead_mod : (j + drift volume.blockSize) % volume.blockSize = j % volume.blockSize := by
    rw [drift, Nat.add_mul_mod_self_right]
  rw [ahead_div, sizes.blockSize_eq] at ahead_lt
  suffices resolve_eq : volume.fs.resolveFileBlock true inode (j / volume.blockSize) =
      blockMap (256 * 2 ^ log) volume.pointerAt inode
        (place volume.blockSize j / volume.blockSize) by
    have mod_eq : place volume.blockSize j % volume.blockSize = j % volume.blockSize := by
      rw [place]
      split
      next => rfl
      next => exact ahead_mod
    rw [Volume.fileByte, formatByte, resolve_eq, sizes.blockSize_eq, mod_eq]
    rfl
  rw [place]
  split
  next below =>
    rw [below_iff] at below
    rw [blockMap]
    by_cases direct : j / volume.blockSize < 12
    · rw [dif_pos direct]
      exact dif_pos direct
    · rw [dif_neg direct, if_pos below]
      exact (resolve_single sizes _ _ _ (by omega) below).trans (if_pos (.inl rfl))
  next beyond =>
    rw [below_iff] at beyond
    rw [ahead_div]
    exact resolve_ahead short size_eq (Nat.not_lt.mp beyond) ahead_lt

/-- The contents of a file, from its block map. -/
def formatContents (volume : Volume) (inode : DiskBlockPointers) (size : Nat) : List UInt8 :=
  (List.range size).map fun j => (formatByte volume inode j).toOption.getD 0

@[simp] theorem length_formatContents (size : Nat) :
    (formatContents volume inode size).length = size := by
  rw [formatContents, List.length_map, List.length_range]

theorem stored_formatContents {size : Nat} {ram : Ram}
    (size_eq : volume.blockSize = 1024 <<< log) (small : size < 2 ^ 32) (room : ram.Room size) :
    Stored (formatContents volume inode size) volume inode ram where
  byte_eq := fun j inside => by
    rw [length_formatContents] at inside
    have found := @blockMap_eq _ _ volume.pointerAt inode
      (@inside_of_small volume log j size_eq (by omega))
    simp only [formatContents, List.getElem_map, List.getElem_range]
    rw [formatByte, found]
    rfl
  room := by rwa [length_formatContents]

end Finding

/-! ## Which requests the two files answer alike -/

theorem sizes_of_log {log : Nat} (short : log ≤ 2) :
    1024 <<< log = 1024 ∨ 1024 <<< log = 2048 ∨ 1024 <<< log = 4096 := by
  have cases_log : log = 0 ∨ log = 1 ∨ log = 2 := by omega
  obtain rfl | rfl | rfl := cases_log
  · exact .inl rfl
  · exact .inr (.inl rfl)
  · exact .inr (.inr rfl)

/-- What the file of the volume holds at a position is wanted at the offset of a request. -/
def Answers (code contents : List UInt8) (position : Nat) (request : Request) : Prop :=
  (code.drop position).take request.len = (contents.drop request.offset).take request.len

section Agreement

variable {size position log : Nat} {request : Request}

section Bytes

variable {code contents : List UInt8}

theorem Answers.length_eq (answers : Answers code contents position request)
    (code_length : code.length = size) (contents_length : contents.length = size) :
    min request.len (size - position) = min request.len (size - request.offset) := by
  have lengths := congrArg List.length answers
  simpa only [List.length_take, List.length_drop, code_length, contents_length] using lengths

theorem Answers.getElem_eq (answers : Answers code contents position request) {k : Nat}
    (below : k < request.len) : code[position + k]? = contents[request.offset + k]? := by
  have bytes_eq := congrArg (·[k]?) answers
  simpa only [List.getElem?_take, List.getElem?_drop, if_pos below] using bytes_eq

end Bytes

/-- A request that meets the condition is answered with what it wants. -/
theorem answers_of_fits {contents : List UInt8} {volume : Volume} {inode : DiskBlockPointers}
    {ram : Ram} (short : log ≤ 2) (size_eq : volume.blockSize = 1024 <<< log)
    (small : contents.length < 2 ^ 32) (stored : Stored contents volume inode ram)
    (fits : Fits contents.length volume.blockSize position request) :
    Answers (volume.contents inode contents.length) contents position request := by
  have code_length := @Volume.length_contents volume inode contents.length
  rw [Answers]
  obtain len_zero | ⟨beyond, at_end⟩ | ⟨-, placed⟩ := fits
  · rw [len_zero, List.take_zero, List.take_zero]
  · rw [List.drop_of_length_le beyond, List.drop_of_length_le (by omega)]
  · have lengths : min request.len (contents.length - position) =
        min request.len (contents.length - request.offset) := by omega
    apply List.ext_getElem
    · rw [List.length_take, List.length_drop, List.length_take, List.length_drop, code_length,
        lengths]
    · intro k below below'
      rw [List.length_take, List.length_drop] at below below'
      rw [List.getElem_take, List.getElem_drop, List.getElem_take, List.getElem_drop]
      have place_eq : place volume.blockSize (position + k) = request.offset + k := by
        rw [place]
        split <;> omega
      have sizes : volume.blockSize = 1024 ∨ volume.blockSize = 2048 ∨ volume.blockSize = 4096 :=
        size_eq ▸ sizes_of_log short
      have code_eq := @Volume.contents_byte volume inode sizes _ small (position + k) (by omega)
      rw [fileByte_eq short size_eq (by omega), place_eq, stored.byte_eq _ (by omega)] at code_eq
      exact (Except.ok.inj code_eq).symm

/-- A request that is answered on every volume meets the condition. -/
theorem fits_of_answers (short : log ≤ 2) (small : size < 2 ^ 32)
    (answers : ∀ (volume : Volume) (inode : DiskBlockPointers), volume.blockSize = 1024 <<< log →
      Answers (volume.contents inode size) (formatContents volume inode size) position request) :
    Fits size (1024 <<< log) position request := by
  have sizes := sizes_of_log short
  have lengths := (answers (markedVolume (1024 <<< log) 0) (inodeAt 0 0) rfl).length_eq
    (Volume.length_contents size) (length_formatContents size)
  by_cases len_zero : request.len = 0
  · exact .inl len_zero
  by_cases at_end : size ≤ position
  · exact .inr (.inl (by omega))
  have place_eq : ∀ k < min request.len (size - position),
      place (1024 <<< log) (position + k) = request.offset + k := by
    intro k below
    by_contra apart
    let volume := markedVolume (1024 <<< log) (request.offset + k)
    let inode := inodeAt (1024 <<< log / 4) ((request.offset + k) / (1024 <<< log))
    have bytes_eq := (answers volume inode rfl).getElem_eq (by omega : k < request.len)
    rw [List.getElem?_eq_getElem (by simp; omega), List.getElem?_eq_getElem (by simp; omega)]
      at bytes_eq
    have marked_eq (j : Nat) (inside : j < 2 ^ 32 + drift (1024 <<< log)) :
        formatByte volume inode j = .ok (if j = request.offset + k then 1 else 0) :=
      formatByte_marked (@inside_of_small volume log j rfl inside)
    have code_eq := @Volume.contents_byte volume inode sizes _ small (position + k) (by simp; omega)
    have format_eq := (@stored_formatContents volume inode log size _ rfl small
      (ramOf_room size 0)).byte_eq (request.offset + k) (by simp; omega)
    have place_lt : place (1024 <<< log) (position + k) < 2 ^ 32 + drift (1024 <<< log) := by
      rw [place]
      split <;> omega
    rw [fileByte_eq short rfl (by omega)] at code_eq
    have unmarked := (marked_eq _ place_lt).symm.trans code_eq
    rw [if_neg apart] at unmarked
    rw [marked_eq _ (by omega), if_pos rfl, ← Option.some.inj bytes_eq, ← unmarked] at format_eq
    cases format_eq
  have drift_positive : 0 < drift (1024 <<< log) := by
    unfold drift
    obtain same | same | same := sizes <;> rw [same] <;> decide
  have first := place_eq 0 (by omega)
  have last := place_eq (min request.len (size - position) - 1) (by omega)
  refine .inr (.inr ⟨by unfold NORMAL_PAGE_SIZE; omega, ?_⟩)
  unfold place at first last
  split at first
  next below =>
    split at last
    · exact .inl (by omega)
    · omega
  next beyond => exact .inr (by omega)

theorem served_of_sequential {contents : List UInt8} {volume : Volume}
    {inode : DiskBlockPointers} {ram : Ram} {requests : List Request} (short : log ≤ 2)
    (size_eq : volume.blockSize = 1024 <<< log) (small : contents.length < 2 ^ 32)
    (stored : Stored contents volume inode ram)
    (sequential : Sequential contents.length volume.blockSize position requests) :
    served (volume.contents inode contents.length) position requests =
      requests.map (wanted contents) := by
  induction requests generalizing position with
  | nil => rfl
  | cons request requests ih =>
      obtain ⟨fits, later⟩ := sequential
      have answers := answers_of_fits short size_eq small stored fits
      rw [served, List.map_cons, Volume.length_contents, ih later, wanted]
      exact congrArg (Except.ok · :: _) answers

theorem sequential_of_served {requests : List Request} (short : log ≤ 2) (small : size < 2 ^ 32)
    (same : ∀ (volume : Volume) (inode : DiskBlockPointers), volume.blockSize = 1024 <<< log →
      served (volume.contents inode size) position requests =
        requests.map (wanted (formatContents volume inode size))) :
    Sequential size (1024 <<< log) position requests := by
  induction requests generalizing position with
  | nil => trivial
  | cons request requests ih =>
      simp only [served, List.map_cons, Volume.length_contents, List.cons.injEq] at same
      refine ⟨fits_of_answers short small fun volume inode size_eq => ?_,
        ih fun volume inode size_eq => (same volume inode size_eq).2⟩
      exact Except.ok.inj (same volume inode size_eq).1

/-! ## Blocks that do not fit a page -/

/-- They are never read if the requests read nothing. -/
theorem serve_of_sequential {contents : List UInt8} {disk : Blocks} {file : Ext2File} (ram : Ram)
    {blockSize : Nat} {requests : List Request} (too_long : NORMAL_PAGE_SIZE < blockSize)
    (size_eq : file.size = contents.length)
    (sequential : Sequential contents.length blockSize file.offset requests) :
    serve (Ext2File.invoke disk) (file, ram) requests =
      .ok (requests.map (wanted contents)) := by
  induction requests with
  | nil => rfl
  | cons request requests ih =>
      obtain ⟨fits, later⟩ := sequential
      have nothing : request.len = 0 ∨ contents.length ≤ file.offset ∧
          contents.length ≤ request.offset := by
        obtain len_zero | ⟨beyond, at_end⟩ | ⟨fitting, -⟩ := fits
        · exact .inl len_zero
        · exact .inr ⟨at_end, beyond⟩
        · omega
      have unmoved : file.offset + min request.len (contents.length - file.offset) =
          file.offset := by omega
      have empty : (contents.drop request.offset).take request.len = [] := by
        apply List.eq_nil_of_length_eq_zero
        rw [List.length_take, List.length_drop]
        omega
      rw [unmoved] at later
      simp only [serve, Ext2File.invoke, file.read_nothing ram (nothing.imp_right fun ends =>
        size_eq ▸ ends.1), bind, Except.bind]
      rw [List.map_cons, wanted, empty]
      have rest_eq := ih later
      simp only [rest_eq]
      rfl

/-- Pages that are never filled give the file away unless nothing is read. -/
theorem sequential_of_unfilled {blockSize : Nat} {requests : List Request}
    (same : served (List.replicate size 1) position requests =
      requests.map (wanted (List.replicate size 0))) :
    Sequential size blockSize position requests := by
  induction requests generalizing position with
  | nil => trivial
  | cons request requests ih =>
      rw [served, List.map_cons, List.length_replicate] at same
      obtain ⟨head_eq, rest_eq⟩ := List.cons.inj same
      refine ⟨?_, ih rest_eq⟩
      have bytes_eq := Except.ok.inj head_eq
      rw [List.drop_replicate, List.take_replicate, List.drop_replicate, List.take_replicate,
        List.replicate_inj] at bytes_eq
      obtain ⟨count_eq, empty | unlike⟩ := bytes_eq
      · by_cases len_zero : request.len = 0
        · exact .inl len_zero
        · exact .inr (.inl (by omega))
      · cases unlike

/-- A volume of zeros, with a file that has no blocks. -/
def emptyInode : DiskBlockPointers := ⟨fun _ => 0, 0, 0, 0⟩

theorem stored_zeros {ram : Ram} (small : size < 2 ^ 32) (room : ram.Room size) :
    Stored (List.replicate size 0) ⟨1024 <<< log, fun _ _ => 0⟩ emptyInode ram where
  byte_eq := fun j inside => by
    rw [List.length_replicate] at inside
    have root_eq (index : Nat) : rootAt (1024 <<< log / 4) emptyInode index = 0 := by
      rw [rootAt, formatRoot]
      split_ifs <;> rfl
    have found := @blockMap_eq _ _ (Volume.pointerAt ⟨1024 <<< log, fun _ _ => 0⟩) emptyInode
      (@inside_of_small ⟨1024 <<< log, fun _ _ => 0⟩ log j rfl (by omega))
    rw [List.getElem_replicate, formatByte, found, root_eq, entryAt_zero]
    rfl
  room := by rwa [List.length_replicate]

/-! ## The two files -/

/-- The file of the volume returns what is wanted, whatever it holds. -/
def Agrees (size log : Nat) (requests : List Request) : Prop :=
  ∀ (contents : List UInt8) (volume : Volume) (inode : DiskBlockPointers) (ram : Ram),
    contents.length = size → volume.blockSize = 1024 <<< log → Stored contents volume inode ram →
    serve (Ext2File.invoke (volume.blocks inode fun _ => true))
        (.opened size volume.blockSize, ram) requests =
      .ok (requests.map (wanted contents))

theorem agrees_iff_sequential (small : size < 2 ^ 32) (requests : List Request) :
    Agrees size log requests ↔ Sequential size (1024 <<< log) 0 requests := by
  have serve_eq {volume : Volume} {inode : DiskBlockPointers} {ram : Ram}
      (short : log ≤ 2) (blockSize_eq : volume.blockSize = 1024 <<< log) (room : ram.Room size) :
      serve (Ext2File.invoke (volume.blocks inode fun _ => true))
          (.opened size volume.blockSize, ram) requests =
        .ok (served (volume.contents inode size) 0 requests) := by
    have sizes : volume.blockSize = 1024 ∨ volume.blockSize = 2048 ∨ volume.blockSize = 4096 :=
      blockSize_eq ▸ sizes_of_log short
    exact serve_opened requests (Volume.length_contents size) room
      (.inl ⟨Volume.divides sizes, Volume.stored sizes small⟩)
  rcases Nat.lt_or_ge 2 log with long | short
  · have too_long : NORMAL_PAGE_SIZE < 1024 <<< log := by
      have power_le : 2 ^ 3 ≤ 2 ^ log := Nat.pow_le_pow_right (by decide) long
      rw [Nat.shiftLeft_eq, NORMAL_PAGE_SIZE]
      omega
    constructor
    · intro agrees
      have answers := agrees _ _ _ _ List.length_replicate rfl
        (@stored_zeros size log (ramOf size 1) small (ramOf_room size 1))
      have unfilled : Delivers (List.replicate size 1) (1024 <<< log)
          (Volume.blocks ⟨1024 <<< log, fun _ _ => 0⟩ emptyInode fun _ => true)
          (ramOf size 1) := by
        refine .inr ⟨too_long, fun frame _ offset i _ inside => ?_⟩
        rw [List.getElem_replicate]
        rfl
      rw [serve_opened requests List.length_replicate (ramOf_room size 1) unfilled] at answers
      exact sequential_of_unfilled (Except.ok.inj answers)
    · rintro sequential contents volume inode ram rfl blockSize_eq -
      rw [← blockSize_eq] at too_long sequential
      exact serve_of_sequential ram too_long rfl sequential
  · constructor
    · intro agrees
      refine sequential_of_served short small fun volume inode blockSize_eq => ?_
      have answers := agrees _ volume inode _ (length_formatContents size) blockSize_eq
        (stored_formatContents blockSize_eq small (ramOf_room size 0))
      rw [serve_eq short blockSize_eq (ramOf_room size 0)] at answers
      exact Except.ok.inj answers
    · rintro sequential contents volume inode ram rfl blockSize_eq stored
      rw [serve_eq short blockSize_eq stored.room]
      rw [← blockSize_eq] at sequential
      exact congrArg Except.ok (served_of_sequential short blockSize_eq small stored sequential)

/-- The file of the ramdisk returns what is wanted for every sequence of requests and to every
program; the file of the volume does if and only if every request reads nothing, or the bytes that
the code finds from its position on are those that the offset names. -/
theorem reads_agree (size : UInt32) (log : Nat) :
    (∀ requests,
      (∀ (contents : List UInt8) (volume : Volume) (inode : DiskBlockPointers) (ram : Ram),
        contents.length = size.toNat → volume.blockSize = 1024 <<< log →
        Stored contents volume inode ram →
        serve FileObj.invoke ⟨contents⟩ requests = .ok (requests.map (wanted contents)) ∧
        serve (Ext2File.invoke (volume.blocks inode fun _ => true))
            (.opened size.toNat volume.blockSize, ram) requests =
          .ok (requests.map (wanted contents))) ↔
      Sequential size.toNat (1024 <<< log) 0 requests) ∧
    ∀ calls,
      (∀ (contents : List UInt8) (volume : Volume) (inode : DiskBlockPointers) (ram : Ram),
        contents.length = size.toNat → volume.blockSize = 1024 <<< log →
        Stored contents volume inode ram →
        runFile FileObj.invoke 0 ⟨contents⟩ calls =
          .ok ((requestsOf size.toNat 0 calls).map (wanted contents)) ∧
        runFile (Ext2File.invoke (volume.blocks inode fun _ => true)) 0
            (.opened size.toNat volume.blockSize, ram) calls =
          .ok ((requestsOf size.toNat 0 calls).map (wanted contents))) ↔
      Sequential size.toNat (1024 <<< log) 0 (requestsOf size.toNat 0 calls) := by
  have agrees_iff (requests : List Request) :=
    @agrees_iff_sequential size.toNat log size.toNat_lt requests
  constructor
  · intro requests
    rw [← agrees_iff]
    constructor
    · exact fun both contents volume inode ram size_eq blockSize_eq stored =>
        (both contents volume inode ram size_eq blockSize_eq stored).2
    · exact fun agrees contents volume inode ram size_eq blockSize_eq stored =>
        ⟨serve_fileObj ⟨contents⟩ requests,
          agrees contents volume inode ram size_eq blockSize_eq stored⟩
  · intro calls
    rw [← agrees_iff]
    constructor
    · intro both contents volume inode ram size_eq blockSize_eq stored
      have program_eq := (both contents volume inode ram size_eq blockSize_eq stored).2
      rw [← size_eq] at program_eq ⊢
      exact (runFile_eq_iff _ _ 0 calls).mp program_eq
    · intro agrees contents volume inode ram size_eq blockSize_eq stored
      have answers := agrees contents volume inode ram size_eq blockSize_eq stored
      rw [← size_eq] at answers ⊢
      exact ⟨(runFile_eq_iff _ _ 0 calls).mpr (serve_fileObj ⟨contents⟩ _),
        (runFile_eq_iff _ _ 0 calls).mpr answers⟩

/-- A volume whose blocks begin with the letters `ab`, and a file with such a block. -/
def lettersVolume : Volume := ⟨1024, fun _ i => UInt8.ofNat (i + 97)⟩

def lettersInode : DiskBlockPointers := ⟨fun _ => 7, 0, 0, 0⟩

/-- When the byte at offset 0 of a file of two bytes is read twice, the file of the volume returns
the second byte for the second request, and so it does to a program that seeks back. -/
theorem second_read_unlike :
    Stored [97, 98] lettersVolume lettersInode (ramOf 2 0) ∧
    serve FileObj.invoke ⟨[97, 98]⟩ [⟨0, 1⟩, ⟨0, 1⟩] = .ok [.ok [97], .ok [97]] ∧
    serve (Ext2File.invoke (lettersVolume.blocks lettersInode fun _ => true))
      (.opened 2 1024, ramOf 2 0) [⟨0, 1⟩, ⟨0, 1⟩] = .ok [.ok [97], .ok [98]] ∧
    runFile FileObj.invoke 0 ⟨[97, 98]⟩ [.read 1, .seek 0, .read 1] = .ok [.ok [97], .ok [97]] ∧
    runFile (Ext2File.invoke (lettersVolume.blocks lettersInode fun _ => true)) 0
      (.opened 2 1024, ramOf 2 0) [.read 1, .seek 0, .read 1] ≠ .ok [.ok [97], .ok [97]] := by
  have stored : Stored [97, 98] lettersVolume lettersInode (ramOf 2 0) := by
    refine ⟨fun j inside => ?_, ramOf_room 2 0⟩
    have cases_j : j = 0 ∨ j = 1 := by
      rw [List.length_cons, List.length_singleton] at inside
      omega
    obtain rfl | rfl := cases_j <;> rfl
  have answers : serve (Ext2File.invoke (lettersVolume.blocks lettersInode fun _ => true))
      (.opened 2 1024, ramOf 2 0) [⟨0, 1⟩, ⟨0, 1⟩] = .ok [.ok [97], .ok [98]] :=
    serve_opened [⟨0, 1⟩, ⟨0, 1⟩] rfl (ramOf_room 2 0)
      (.inl ⟨Volume.divides (.inl rfl), Volume.stored (.inl rfl) (by decide : 2 < 2 ^ 32)⟩)
  refine ⟨stored, rfl, answers, rfl, fun same => ?_⟩
  have wanted_eq := (@runFile_eq_iff [97, 98] _ _ _ 0 [.read 1, .seek 0, .read 1]).mp same
  have requested := answers.symm.trans wanted_eq
  cases requested

end Agreement

end ReadAgreement
end Vespertine
