import Mathlib.Data.List.Perm.Subperm
import Mathlib.Logic.Equiv.Basic
import Mathlib.Tactic.SplitIfs
import Vespertine.Library.RadixTree
import Vespertine.Library.Word

/-!
# The block map of an ext2 inode

`resolve_file_block` finds the disk block of a file block: twelve direct pointers, then trees of
one, two and three levels of tables.  Each table is a block of 32-bit pointers, read through the
block cache into one page of memory; zero stands for a hole.

`blockMap` is the map that the on-disk format defines.  The function differs from it beyond the
single-indirect tier, because the running index is advanced by a table where it should retreat.

Indices are 64-bit words.  A block longer than the page it is read into runs over the end of that
page; the model follows only the words read back.
-/

namespace Vespertine
namespace Ext2

/-- Block pointers of an inode. -/
structure DiskBlockPointers where
  direct : Fin 12 → UInt32
  singleIndirect : UInt32
  doubleIndirect : UInt32
  tripleIndirect : UInt32

/-- A mounted file system. -/
structure Ext2FileSystem where
  blockSize : Nat
  /-- The words of a block, as the block cache delivers them. -/
  cache : UInt32 → Except Unit (Nat → UInt32)

/-- Ways in which a block is not resolved. -/
inductive ResolveError
  /-- `Err(())`. -/
  | err
  /-- A table is read past its last pointer. -/
  | pastTable

namespace Ext2FileSystem

variable (fs : Ext2FileSystem)

/-- Pointers in a table. -/
def pointersPerBlock : Nat := fs.blockSize / 4

/-- Read a block; block zero is all zeros. -/
def readBlock (blockId : UInt32) : Except ResolveError (Nat → UInt32) :=
  if blockId = 0 then .ok fun _ => 0 else (fs.cache blockId).mapError fun _ => .err

/-- Read one pointer of a table. -/
def readPointer (blockId : UInt32) (index : Nat) : Except ResolveError UInt32 := do
  let table ← fs.readBlock blockId
  if index < fs.pointersPerBlock then .ok (table index) else .error .pastTable

/-- Follow pointers from table to table until one is zero. -/
def followTables : UInt32 → List Nat → Except ResolveError UInt32
  | blockId, [] => .ok blockId
  | blockId, index :: path =>
      if blockId = 0 then
        .ok 0
      else do
        let next ← fs.readPointer blockId index
        followTables next path

/-- One tier of indirect blocks; `page` says whether a page for the tables can be allocated. -/
def resolveTier (page : Bool) (indirectId : UInt32) (path : List Nat) :
    Except ResolveError UInt32 :=
  if indirectId = 0 then
    .ok 0
  else if page then
    fs.followTables indirectId path
  else
    .error .err

/-- Resolve a file block. -/
def resolveFileBlock (page : Bool) (inode : DiskBlockPointers) (fileBlockIdx : Nat) :
    Except ResolveError UInt32 :=
  let pointersPerBlock := fs.pointersPerBlock
  if direct : fileBlockIdx < 12 then
    .ok (inode.direct ⟨fileBlockIdx, direct⟩)
  else
    let remainingIdx := fileBlockIdx - 12
    if remainingIdx < pointersPerBlock then
      fs.resolveTier page inode.singleIndirect [remainingIdx]
    else
      let remainingIdx := (remainingIdx + pointersPerBlock) % wordSize
      let blocksPerDouble := pointersPerBlock * pointersPerBlock % wordSize
      if remainingIdx < blocksPerDouble then
        fs.resolveTier page inode.doubleIndirect
          [remainingIdx / pointersPerBlock, remainingIdx % pointersPerBlock]
      else
        let remainingIdx := remainingIdx - blocksPerDouble
        let blocksPerTriple := blocksPerDouble * pointersPerBlock % wordSize
        if remainingIdx < blocksPerTriple then
          fs.resolveTier page inode.tripleIndirect
            [remainingIdx / blocksPerDouble, remainingIdx % blocksPerDouble / pointersPerBlock,
              remainingIdx % blocksPerDouble % pointersPerBlock]
        else
          .error .err

/-- A file system whose device delivers every block. -/
def faultFree (blockSize : Nat) (tables : UInt32 → Nat → UInt32) : Ext2FileSystem :=
  ⟨blockSize, fun blockId => .ok (tables blockId)⟩

end Ext2FileSystem

/-- A pointer that is not a hole. -/
def target (pointer : UInt32) : Option UInt32 := if pointer = 0 then none else some pointer

/-- The entry reached from an indirect block along a path of indices, zero if a pointer is. -/
def entryAt (tables : UInt32 → Nat → UInt32) (indirectId : UInt32) (path : List Nat) : UInt32 :=
  ((target indirectId).bind fun root => RadixTree.walk target tables root path).getD 0

/-- The map of file blocks that the format defines, with `p` pointers in a table. -/
def blockMap (p : Nat) (tables : UInt32 → Nat → UInt32) (inode : DiskBlockPointers)
    (index : Nat) : Except ResolveError UInt32 :=
  if direct : index < 12 then
    .ok (inode.direct ⟨index, direct⟩)
  else if index < 12 + p then
    .ok (entryAt tables inode.singleIndirect [index - 12])
  else if index < 12 + p + p ^ 2 then
    let within := index - 12 - p
    .ok (entryAt tables inode.doubleIndirect [within / p, within % p])
  else if index < 12 + p + p ^ 2 + p ^ 3 then
    let within := index - 12 - p - p ^ 2
    .ok (entryAt tables inode.tripleIndirect
      [within / p ^ 2, within / p % p, within % p])
  else
    .error .err

/-- The root of the tier that the format has for an index past the single-indirect blocks. -/
def formatRoot (p : Nat) (inode : DiskBlockPointers) (index : Nat) : UInt32 :=
  if index < 12 + p + p ^ 2 then inode.doubleIndirect else inode.tripleIndirect

/-- The root of the tier that the code takes for such an index: the running index is advanced by a
table before it is compared with the sizes of the tiers. -/
def takenRoot (p : Nat) (inode : DiskBlockPointers) (index : Nat) : Option UInt32 :=
  let rest := (index - 12 + p) % wordSize
  if rest < p ^ 2 then
    some inode.doubleIndirect
  else if rest - p ^ 2 < p ^ 2 * p % wordSize then
    some inode.tripleIndirect
  else
    none

/-- The indices of an inode that are resolved as the format says, whatever the tables hold. -/
def Resolved (p : Nat) (page : Bool) (inode : DiskBlockPointers) (index : Nat) : Prop :=
  if index < 12 then
    True
  else if index < 12 + p then
    page = true ∨ inode.singleIndirect = 0
  else if index < 12 + p + p ^ 2 + p ^ 3 then
    takenRoot p inode index = some 0 ∧ formatRoot p inode index = 0
  else
    ∀ root, takenRoot p inode index = some root → page = false ∧ root ≠ 0

section Entries

variable (tables : UInt32 → Nat → UInt32) (indirectId : UInt32)

@[simp] theorem entryAt_nil : entryAt tables indirectId [] = indirectId := by
  by_cases zero : indirectId = 0
  · simp [entryAt, target, zero]
  · simp [entryAt, target, zero, RadixTree.walk]

@[simp] theorem entryAt_zero (path : List Nat) : entryAt tables 0 path = 0 := rfl

theorem entryAt_cons {indirectId : UInt32} (index : Nat) (path : List Nat)
    (present : indirectId ≠ 0) :
    entryAt tables indirectId (index :: path) = entryAt tables (tables indirectId index) path := by
  simp [entryAt, target, present, RadixTree.walk]

/-- Following tables reaches the entry when every index is inside its table. -/
theorem followTables_faultFree (blockSize : Nat) {path : List Nat}
    (inside : ∀ index ∈ path, index < blockSize / 4) :
    (Ext2FileSystem.faultFree blockSize tables).followTables indirectId path =
      .ok (entryAt tables indirectId path) := by
  induction path generalizing indirectId with
  | nil => rw [Ext2FileSystem.followTables, entryAt_nil]
  | cons index path ih =>
      rw [Ext2FileSystem.followTables]
      split
      next hole => rw [hole, entryAt_zero]
      next present =>
        have read_eq : (Ext2FileSystem.faultFree blockSize tables).readPointer indirectId index =
            .ok (tables indirectId index) := by
          rw [Ext2FileSystem.readPointer, Ext2FileSystem.readBlock, if_neg present]
          exact if_pos (inside index List.mem_cons_self)
        rw [read_eq, entryAt_cons tables index path present]
        exact ih _ fun later mem => inside later (List.mem_cons_of_mem _ mem)

/-- Tables that hold the pointers of one path and holes everywhere else. -/
def trail (path : List Nat) (blockId : UInt32) (index : Nat) : UInt32 :=
  if path[blockId.toNat - 1]? = some index then UInt32.ofNat (blockId.toNat + 1) else 0

/-- Tables that start with a trail lead along it to its end, and to a hole elsewhere. -/
theorem entryAt_trail {tables : UInt32 → Nat → UInt32} {front rest other : List Nat}
    (trailed : ∀ blockId index, blockId.toNat ≤ front.length + rest.length →
      tables blockId index = trail (front ++ rest) blockId index)
    (short : front.length + rest.length + 1 < 2 ^ 32) (length_eq : other.length = rest.length) :
    entryAt tables (UInt32.ofNat (front.length + 1)) other =
      if other = rest then UInt32.ofNat (front.length + rest.length + 1) else 0 := by
  induction rest generalizing front other with
  | nil =>
      obtain rfl := List.eq_nil_of_length_eq_zero length_eq
      simp
  | cons index rest ih =>
      obtain ⟨first, others, rfl⟩ := List.exists_cons_of_length_eq_add_one length_eq
      rw [List.length_cons] at short trailed
      have id_eq : (UInt32.ofNat (front.length + 1)).toNat = front.length + 1 :=
        UInt32.toNat_ofNat_of_lt' (by change _ < 2 ^ 32; omega)
      have present : UInt32.ofNat (front.length + 1) ≠ 0 := by
        intro zero
        rw [zero] at id_eq
        cases id_eq
      rw [entryAt_cons _ first others present]
      have step_eq : tables (UInt32.ofNat (front.length + 1)) first =
          if first = index then UInt32.ofNat (front.length + 2) else 0 := by
        rw [trailed _ _ (by omega), trail, id_eq, Nat.add_sub_cancel,
          List.getElem?_append_right (Nat.le_refl _), Nat.sub_self, List.getElem?_cons_zero]
        simp only [Option.some.injEq, eq_comm]
      rw [step_eq]
      split
      next same =>
        subst same
        have rest_eq := @ih (front ++ [first]) others
          (fun blockId index le => by
            rw [List.append_assoc]
            refine trailed blockId index (le.trans ?_)
            rw [List.length_append, List.length_singleton]
            omega)
          (by simp; omega) (by simpa using length_eq)
        rw [List.length_append, List.length_singleton] at rest_eq
        have last_eq : front.length + 1 + rest.length + 1 =
            front.length + (rest.length + 1) + 1 := by omega
        rw [last_eq] at rest_eq
        simpa only [List.cons.injEq, true_and, List.length_cons] using rest_eq
      next differs =>
        rw [entryAt_zero, if_neg fun same => differs (List.cons.inj same).1]

end Entries

section Tiers

/-- Renaming the blocks of all tables renames the entries. -/
theorem entryAt_rename (tables : UInt32 → Nat → UInt32) {rename : Equiv.Perm UInt32}
    (zero : rename 0 = 0) (indirectId : UInt32) (path : List Nat) :
    entryAt (fun blockId index => rename (tables (rename.symm blockId) index)) (rename indirectId)
        path =
      rename (entryAt tables indirectId path) := by
  induction path generalizing indirectId with
  | nil => simp
  | cons index path ih =>
      by_cases hole : indirectId = 0
      · simp [hole, zero]
      · have present : rename indirectId ≠ 0 :=
          fun eq => hole (rename.injective (eq.trans zero.symm))
        rw [entryAt_cons _ _ _ present, entryAt_cons _ _ _ hole, rename.symm_apply_apply]
        exact ih _

/-- Different paths of the same length are told apart by the tables of one of them. -/
theorem exists_entryAt_ne {root : UInt32} {path other : List Nat} (present : root ≠ 0)
    (short : path.length + 1 < 2 ^ 32) (length_eq : other.length = path.length)
    (ne : path ≠ other) :
    ∃ tables, entryAt tables root path ≠ entryAt tables root other := by
  have reached := @entryAt_trail (trail path) [] path path (fun _ _ _ => rfl)
    (by simpa using short) rfl
  have missed := @entryAt_trail (trail path) [] path other (fun _ _ _ => rfl)
    (by simpa using short) length_eq
  rw [if_pos rfl] at reached
  rw [if_neg ne.symm] at missed
  simp only [List.length_nil, Nat.zero_add] at reached missed
  have told_apart : entryAt (trail path) 1 path ≠ entryAt (trail path) 1 other := by
    rw [show (1 : UInt32) = UInt32.ofNat 1 from rfl, reached, missed]
    intro zero
    have nonzero : (UInt32.ofNat (path.length + 1)).toNat = path.length + 1 :=
      UInt32.toNat_ofNat_of_lt' short
    rw [zero] at nonzero
    cases nonzero
  -- The trail starts at block 1, which changes places with the root.
  let rename := Equiv.swap 1 root
  have zero : rename 0 = 0 := Equiv.swap_apply_of_ne_of_ne (by decide) present.symm
  refine ⟨fun blockId index => rename (trail path (rename.symm blockId) index), ?_⟩
  rw [show root = rename 1 from (Equiv.swap_apply_left 1 root).symm, entryAt_rename _ zero,
    entryAt_rename _ zero]
  exact fun eq => told_apart (rename.injective eq)

/-- Few blocks leave one over. -/
theorem exists_fresh {ids : List UInt32} (short : ids.length < 5) : ∃ blockId, blockId ∉ ids := by
  by_contra none
  have five : ([0, 1, 2, 3, 4] : List UInt32).Nodup := by decide
  have subset : ([0, 1, 2, 3, 4] : List UInt32) ⊆ ids := by
    intro blockId _
    by_contra missing
    exact none ⟨blockId, missing⟩
  have le := (List.subperm_of_subset five subset).length_le
  simp only [List.length_cons, List.length_nil] at le
  omega

/-- Paths of two and three levels are told apart. -/
theorem exists_entryAt_ne_of_depth {root other : UInt32} (present : root ≠ 0)
    (first second third fourth fifth : Nat) :
    ∃ tables,
      entryAt tables root [first, second] ≠ entryAt tables other [third, fourth, fifth] := by
  obtain ⟨middle, middle_fresh⟩ := @exists_fresh [0, root, other] (by simp)
  obtain ⟨last, last_fresh⟩ := @exists_fresh [0, root, other, middle] (by simp)
  simp only [List.mem_cons, List.not_mem_nil, or_false, not_or] at middle_fresh last_fresh
  obtain ⟨middle_present, middle_ne_root, middle_ne_other⟩ := middle_fresh
  obtain ⟨last_present, last_ne_root, last_ne_other, last_ne_middle⟩ := last_fresh
  let tables (blockId : UInt32) (_ : Nat) : UInt32 :=
    if blockId = root then middle else if blockId = middle then last else 0
  have root_eq (index : Nat) : tables root index = middle := if_pos rfl
  have middle_eq (index : Nat) : tables middle index = last := by
    simp [tables, middle_ne_root]
  refine ⟨tables, ?_⟩
  rw [entryAt_cons _ _ _ present, root_eq first, entryAt_cons _ _ _ middle_present,
    middle_eq second, entryAt_nil]
  by_cases hole : other = 0
  · rw [hole, entryAt_zero]
    exact last_present
  rw [entryAt_cons _ _ _ hole]
  by_cases same : other = root
  · have last_eq : tables last fifth = 0 := by
      simp [tables, last_ne_root, last_ne_middle]
    rw [same, root_eq third, entryAt_cons _ _ _ middle_present, middle_eq fourth,
      entryAt_cons _ _ _ last_present, last_eq, entryAt_zero]
    exact last_present
  · have other_eq : tables other third = 0 := by
      simp [tables, same, Ne.symm middle_ne_other]
    rw [other_eq, entryAt_zero]
    exact last_present

/-- Tables full of ones lead somewhere from every block. -/
theorem entryAt_ones {root : UInt32} (present : root ≠ 0) (path : List Nat) :
    entryAt (fun _ _ => 1) root path ≠ 0 := by
  induction path generalizing root with
  | nil => simpa using present
  | cons index path ih =>
      rw [entryAt_cons _ _ _ present]
      exact ih (by decide)

/-- A tier without faults delivers the entry if it has a page or a hole. -/
theorem resolveTier_faultFree {blockSize : Nat} (tables : UInt32 → Nat → UInt32) (page : Bool)
    (indirectId : UInt32) {path : List Nat} (inside : ∀ index ∈ path, index < blockSize / 4) :
    (Ext2FileSystem.faultFree blockSize tables).resolveTier page indirectId path =
      if page = true ∨ indirectId = 0 then .ok (entryAt tables indirectId path)
      else .error .err := by
  rw [Ext2FileSystem.resolveTier, followTables_faultFree tables indirectId blockSize inside]
  by_cases hole : indirectId = 0
  · simp [hole]
  · simp [hole]

/-- Sizes of the tiers of a file system: `p` pointers in a table. -/
structure Tables (blockSize p : Nat) : Prop where
  blockSize_eq : blockSize / 4 = p
  large : 256 ≤ p
  /-- `blocks_per_double` does not overflow. -/
  square : p * p % wordSize = p ^ 2
  /-- Nor do the first two tiers together. -/
  room : p + p + p ^ 2 < wordSize
  /-- `blocks_per_triple` overflows to zero if it overflows. -/
  cube : p ^ 2 * p % wordSize = p ^ 3 ∨ p ^ 2 * p % wordSize = 0 ∧ wordSize ≤ p ^ 3

/-- Block sizes are 1024 shifted by at most 21. -/
theorem Tables.of_log {log : Nat} (small : log < 22) :
    Tables (1024 <<< log) (256 * 2 ^ log) := by
  have power : 256 * 2 ^ log = 2 ^ (8 + log) := by rw [Nat.pow_add]
  have word : wordSize = 2 ^ 64 := rfl
  refine ⟨?_, ?_, ?_, ?_, ?_⟩
  · rw [Nat.shiftLeft_eq]
    omega
  · have positive := Nat.two_pow_pos log
    omega
  · rw [← Nat.pow_two, power, ← Nat.pow_mul, word]
    exact Nat.mod_eq_of_lt (Nat.pow_lt_pow_right (by decide) (by omega))
  · have pointers_le : 2 ^ (8 + log) ≤ 2 ^ 29 := Nat.pow_le_pow_right (by decide) (by omega)
    have square_le : 2 ^ ((8 + log) * 2) ≤ 2 ^ 58 := Nat.pow_le_pow_right (by decide) (by omega)
    rw [power, ← Nat.pow_mul, word]
    omega
  · rw [← Nat.pow_succ, power, ← Nat.pow_mul, word]
    rcases Nat.lt_or_ge ((8 + log) * (2 + 1)) 64 with fits | overflows
    · exact .inl (Nat.mod_eq_of_lt (Nat.pow_lt_pow_right (by decide) fits))
    · refine .inr ⟨Nat.mod_eq_zero_of_dvd (Nat.pow_dvd_pow 2 overflows), ?_⟩
      exact Nat.pow_le_pow_right (by decide) overflows

section Resolve

variable {blockSize p : Nat} (sizes : Tables blockSize p) (tables : UInt32 → Nat → UInt32)
  (page : Bool) (inode : DiskBlockPointers) {index : Nat}

include sizes

theorem resolve_single (indirect : 12 ≤ index) (within : index < 12 + p) :
    (Ext2FileSystem.faultFree blockSize tables).resolveFileBlock page inode index =
      if page = true ∨ inode.singleIndirect = 0 then
        .ok (entryAt tables inode.singleIndirect [index - 12])
      else .error .err := by
  have pointers_eq : (Ext2FileSystem.faultFree blockSize tables).pointersPerBlock = p :=
    sizes.blockSize_eq
  rw [Ext2FileSystem.resolveFileBlock, dif_neg (by omega)]
  dsimp only
  rw [pointers_eq, if_pos (by omega), resolveTier_faultFree]
  rw [sizes.blockSize_eq]
  simp
  omega

theorem resolve_double (indirect : 12 + p ≤ index)
    (within : (index - 12 + p) % wordSize < p ^ 2) :
    (Ext2FileSystem.faultFree blockSize tables).resolveFileBlock page inode index =
      if page = true ∨ inode.doubleIndirect = 0 then
        .ok (entryAt tables inode.doubleIndirect
          [(index - 12 + p) % wordSize / p, (index - 12 + p) % wordSize % p])
      else .error .err := by
  have pointers_eq : (Ext2FileSystem.faultFree blockSize tables).pointersPerBlock = p :=
    sizes.blockSize_eq
  rw [Ext2FileSystem.resolveFileBlock, dif_neg (by omega)]
  dsimp only
  rw [pointers_eq, sizes.square, if_neg (by omega), if_pos within, resolveTier_faultFree]
  have large := sizes.large
  rw [sizes.blockSize_eq]
  intro level mem
  rcases List.mem_pair.mp mem with rfl | rfl
  · exact Nat.div_lt_of_lt_mul (by rwa [← Nat.pow_two])
  · exact Nat.mod_lt _ (by omega)

theorem resolve_triple (indirect : 12 + p ≤ index)
    (past : p ^ 2 ≤ (index - 12 + p) % wordSize)
    (within : (index - 12 + p) % wordSize - p ^ 2 < p ^ 2 * p % wordSize) :
    (Ext2FileSystem.faultFree blockSize tables).resolveFileBlock page inode index =
      if page = true ∨ inode.tripleIndirect = 0 then
        .ok (entryAt tables inode.tripleIndirect
          [((index - 12 + p) % wordSize - p ^ 2) / p ^ 2,
            ((index - 12 + p) % wordSize - p ^ 2) / p % p,
            ((index - 12 + p) % wordSize - p ^ 2) % p])
      else .error .err := by
  have pointers_eq : (Ext2FileSystem.faultFree blockSize tables).pointersPerBlock = p :=
    sizes.blockSize_eq
  rw [Ext2FileSystem.resolveFileBlock, dif_neg (by omega)]
  dsimp only
  rw [pointers_eq, sizes.square, if_neg (by omega), if_neg (by omega), if_pos within]
  generalize (index - 12 + p) % wordSize - p ^ 2 = rest at within
  have large := sizes.large
  have level2_eq : rest % p ^ 2 / p = rest / p % p := by
    rw [Nat.pow_two]
    exact Nat.mod_mul_right_div_self ..
  have level3_eq : rest % p ^ 2 % p = rest % p :=
    Nat.mod_mod_of_dvd _ (Dvd.intro_left p (Nat.pow_two p).symm)
  rw [level2_eq, level3_eq, resolveTier_faultFree]
  rw [sizes.blockSize_eq]
  have cube_eq : p ^ 2 * p % wordSize = p ^ 2 * p := by
    rcases sizes.cube with exact_eq | ⟨zero, -⟩
    · rw [exact_eq, Nat.pow_succ]
    · omega
  intro level mem
  rcases List.mem_cons.mp mem with rfl | mem
  · exact Nat.div_lt_of_lt_mul (by rwa [cube_eq] at within)
  · rcases List.mem_pair.mp mem with rfl | rfl
    · exact Nat.mod_lt _ (by omega)
    · exact Nat.mod_lt _ (by omega)

theorem resolve_beyond (indirect : 12 + p ≤ index)
    (past : p ^ 2 ≤ (index - 12 + p) % wordSize)
    (beyond : p ^ 2 * p % wordSize ≤ (index - 12 + p) % wordSize - p ^ 2) :
    (Ext2FileSystem.faultFree blockSize tables).resolveFileBlock page inode index =
      .error .err := by
  have pointers_eq : (Ext2FileSystem.faultFree blockSize tables).pointersPerBlock = p :=
    sizes.blockSize_eq
  rw [Ext2FileSystem.resolveFileBlock, dif_neg (by omega)]
  dsimp only
  rw [pointers_eq, sizes.square, if_neg (by omega), if_neg (by omega), if_neg (by omega)]

/-- No table is read past its end. -/
theorem resolve_ne_pastTable :
    (Ext2FileSystem.faultFree blockSize tables).resolveFileBlock page inode index ≠
      .error .pastTable := by
  have tier_ne (condition : Prop) [Decidable condition] (entry : UInt32) :
      (if condition then .ok entry else .error .err : Except ResolveError UInt32) ≠
        .error .pastTable := by
    split <;> nofun
  rcases Nat.lt_or_ge index 12 with direct | indirect
  · rw [Ext2FileSystem.resolveFileBlock, dif_pos direct]
    nofun
  rcases Nat.lt_or_ge index (12 + p) with single | past_single
  · rw [resolve_single sizes tables page inode indirect single]
    exact tier_ne _ _
  rcases Nat.lt_or_ge ((index - 12 + p) % wordSize) (p ^ 2) with double | past_double
  · rw [resolve_double sizes tables page inode past_single double]
    exact tier_ne _ _
  rcases Nat.lt_or_ge ((index - 12 + p) % wordSize - p ^ 2) (p ^ 2 * p % wordSize)
    with triple | beyond
  · rw [resolve_triple sizes tables page inode past_single past_double triple]
    exact tier_ne _ _
  · rw [resolve_beyond sizes tables page inode past_single past_double beyond]
    nofun

/-- Sizes of the tiers grow. -/
theorem tiers_grow : 256 * p ≤ p ^ 2 ∧ 256 * p ^ 2 ≤ p ^ 3 := by
  have large := sizes.large
  constructor
  · rw [Nat.pow_two]
    exact Nat.mul_le_mul_right p large
  · rw [Nat.pow_succ p 2, Nat.mul_comm]
    exact Nat.mul_le_mul_left _ large

omit sizes in
theorem blockMap_double (past : 12 + p ≤ index) (within : index < 12 + p + p ^ 2) :
    blockMap p tables inode index = .ok (entryAt tables inode.doubleIndirect
      [(index - 12 - p) / p, (index - 12 - p) % p]) := by
  rw [blockMap, dif_neg (by omega), if_neg (by omega), if_pos within]

omit sizes in
theorem blockMap_triple (past : 12 + p + p ^ 2 ≤ index)
    (within : index < 12 + p + p ^ 2 + p ^ 3) :
    blockMap p tables inode index = .ok (entryAt tables inode.tripleIndirect
      [(index - 12 - p - p ^ 2) / p ^ 2, (index - 12 - p - p ^ 2) / p % p,
        (index - 12 - p - p ^ 2) % p]) := by
  rw [blockMap, dif_neg (by omega), if_neg (by omega), if_neg (by omega), if_pos within]

omit sizes in
/-- The format reaches every index of a file from the root of its tier. -/
theorem exists_formatPath (past : 12 + p ≤ index) (within : index < 12 + p + p ^ 2 + p ^ 3) :
    ∃ path, ∀ tables,
      blockMap p tables inode index = .ok (entryAt tables (formatRoot p inode index) path) := by
  by_cases double : index < 12 + p + p ^ 2
  · rw [formatRoot, if_pos double]
    exact ⟨_, fun tables => blockMap_double tables inode past double⟩
  · rw [formatRoot, if_neg double]
    exact ⟨_, fun tables => blockMap_triple tables inode (by omega) within⟩

/-- What the code does with the root of the tier that it takes. -/
theorem exists_takenPath (past : 12 + p ≤ index) :
    ∃ path, ∀ tables,
      (Ext2FileSystem.faultFree blockSize tables).resolveFileBlock page inode index =
        match takenRoot p inode index with
        | none => .error .err
        | some root =>
            if page = true ∨ root = 0 then .ok (entryAt tables root path) else .error .err := by
  rcases Nat.lt_or_ge ((index - 12 + p) % wordSize) (p ^ 2) with double | past_double
  · rw [takenRoot, if_pos double]
    exact ⟨_, fun tables => resolve_double sizes tables page inode past double⟩
  rcases Nat.lt_or_ge ((index - 12 + p) % wordSize - p ^ 2) (p ^ 2 * p % wordSize)
    with triple | beyond
  · rw [takenRoot, if_neg (by omega), if_pos triple]
    exact ⟨_, fun tables => resolve_triple sizes tables page inode past past_double triple⟩
  · rw [takenRoot, if_neg (by omega), if_neg (by omega)]
    exact ⟨[], fun tables => resolve_beyond sizes tables page inode past past_double beyond⟩

/-- Where the two roots are blocks, some tables lead to different entries: the running index is two
tables too far. -/
theorem advanced_differs {root : UInt32} (word : index < wordSize) (past : 12 + p ≤ index)
    (within : index < 12 + p + p ^ 2 + p ^ 3) (taken : takenRoot p inode index = some root)
    (allocated : page = true ∨ root = 0) (present : root ≠ 0)
    (format_present : formatRoot p inode index ≠ 0) :
    ∃ tables, (Ext2FileSystem.faultFree blockSize tables).resolveFileBlock page inode index ≠
      blockMap p tables inode index := by
  have large := sizes.large
  have room := sizes.room
  obtain ⟨double_large, triple_large⟩ := tiers_grow sizes
  have page_eq : page = true := allocated.resolve_right present
  rw [takenRoot] at taken
  rw [formatRoot] at format_present
  split at taken
  next double =>
    obtain rfl := Option.some.inj taken
    by_cases format_double : index < 12 + p + p ^ 2
    · have rest_eq : (index - 12 + p) % wordSize = index - 12 + p := Nat.mod_eq_of_lt (by omega)
      have ne : (index - 12 + p) / p ≠ (index - 12 - p) / p := by
        rw [show index - 12 + p = index - 12 - p + p + p by omega,
          Nat.add_div_right _ (by omega), Nat.add_div_right _ (by omega)]
        omega
      obtain ⟨tables, differs⟩ := @exists_entryAt_ne inode.doubleIndirect
        [(index - 12 + p) / p, (index - 12 + p) % p] [(index - 12 - p) / p, (index - 12 - p) % p]
        present (by simp) rfl fun same => ne (List.cons.inj same).1
      refine ⟨tables, ?_⟩
      rw [resolve_double sizes _ _ _ past double, if_pos (.inl page_eq),
        blockMap_double _ _ past format_double, rest_eq]
      exact fun same => differs (Except.ok.inj same)
    · obtain ⟨tables, differs⟩ := @exists_entryAt_ne_of_depth inode.doubleIndirect
        inode.tripleIndirect present _ _ _ _ _
      refine ⟨tables, ?_⟩
      rw [resolve_double sizes _ _ _ past double, if_pos (.inl page_eq),
        blockMap_triple _ _ (by omega) within]
      exact fun same => differs (Except.ok.inj same)
  next past_double =>
    split at taken
    next triple =>
      obtain rfl := Option.some.inj taken
      by_cases format_double : index < 12 + p + p ^ 2
      · rw [if_pos format_double] at format_present
        obtain ⟨tables, differs⟩ := @exists_entryAt_ne_of_depth inode.doubleIndirect
          inode.tripleIndirect format_present _ _ _ _ _
        refine ⟨tables, ?_⟩
        rw [resolve_triple sizes _ _ _ past (by omega) triple, if_pos (.inl page_eq),
          blockMap_double _ _ past format_double]
        exact fun same => differs (Except.ok.inj same).symm
      · -- A wrapped index is below one table, so this one is not wrapped.
        have rest_eq : (index - 12 + p) % wordSize = index - 12 + p := by
          rcases Nat.lt_or_ge (index - 12 + p) wordSize with fits | wraps
          · exact Nat.mod_eq_of_lt fits
          · rw [Nat.mod_eq_sub_mod wraps, Nat.mod_eq_of_lt (by omega)] at past_double
            omega
        have ne : (index - 12 + p - p ^ 2) / p ≠ (index - 12 - p - p ^ 2) / p := by
          rw [show index - 12 + p - p ^ 2 = index - 12 - p - p ^ 2 + p + p by omega,
            Nat.add_div_right _ (by omega), Nat.add_div_right _ (by omega)]
          omega
        have div_eq (offset : Nat) : offset / p = p * (offset / p ^ 2) + offset / p % p := by
          rw [Nat.pow_two, ← Nat.div_div_eq_div_mul, Nat.div_add_mod]
        obtain ⟨tables, differs⟩ := @exists_entryAt_ne inode.tripleIndirect
          [(index - 12 + p - p ^ 2) / p ^ 2, (index - 12 + p - p ^ 2) / p % p,
            (index - 12 + p - p ^ 2) % p]
          [(index - 12 - p - p ^ 2) / p ^ 2, (index - 12 - p - p ^ 2) / p % p,
            (index - 12 - p - p ^ 2) % p] present (by simp) rfl fun same => by
            obtain ⟨top_eq, rest_same⟩ := List.cons.inj same
            refine ne ?_
            rw [div_eq, div_eq (index - 12 - p - p ^ 2), top_eq, (List.cons.inj rest_same).1]
        refine ⟨tables, ?_⟩
        rw [resolve_triple sizes _ _ _ past (by omega) triple, if_pos (.inl page_eq),
          blockMap_triple _ _ (by omega) within, rest_eq]
        exact fun same => differs (Except.ok.inj same)
    next => cases taken

/-- Beyond the single-indirect tier, what a file has is resolved as the format says just when the
roots on both sides are holes. -/
theorem agree_far_iff (word : index < wordSize) (past : 12 + p ≤ index)
    (within : index < 12 + p + p ^ 2 + p ^ 3) :
    (∀ tables, (Ext2FileSystem.faultFree blockSize tables).resolveFileBlock page inode index =
        blockMap p tables inode index) ↔
      takenRoot p inode index = some 0 ∧ formatRoot p inode index = 0 := by
  obtain ⟨formatPath, format_eq⟩ := exists_formatPath inode past within
  obtain ⟨path, code_eq⟩ := exists_takenPath sizes page inode past
  constructor
  · intro agree
    have both (tables : UInt32 → Nat → UInt32) := (code_eq tables).symm.trans
      ((agree tables).trans (format_eq tables))
    cases taken : takenRoot p inode index with
    | none =>
        simp only [taken] at both
        cases both fun _ _ => 0
    | some root =>
        simp only [taken] at both
        by_cases allocated : page = true ∨ root = 0
        · simp only [if_pos allocated, Except.ok.injEq] at both
          by_cases hole : root = 0
          · refine ⟨by rw [hole], ?_⟩
            by_contra present
            rw [hole] at both
            exact entryAt_ones present formatPath (both fun _ _ => 1).symm
          · by_cases format_hole : formatRoot p inode index = 0
            · rw [format_hole] at both
              exact absurd (both fun _ _ => 1) (entryAt_ones hole path)
            · obtain ⟨tables, differs⟩ := advanced_differs sizes page inode word past within taken
                allocated hole format_hole
              exact absurd (agree tables) differs
        · simp only [if_neg allocated] at both
          cases both fun _ _ => 0
  · rintro ⟨taken, hole⟩ tables
    rw [code_eq, format_eq, taken, hole]
    simp

/-- Behind the largest file an index is refused unless it wraps around to a tier that the code
reads. -/
theorem agree_beyond_iff (past : 12 + p + p ^ 2 + p ^ 3 ≤ index) :
    (∀ tables, (Ext2FileSystem.faultFree blockSize tables).resolveFileBlock page inode index =
        blockMap p tables inode index) ↔
      ∀ root, takenRoot p inode index = some root → page = false ∧ root ≠ 0 := by
  obtain ⟨path, code_eq⟩ := exists_takenPath sizes page inode (by omega : 12 + p ≤ index)
  have format_eq (tables : UInt32 → Nat → UInt32) :
      blockMap p tables inode index = .error .err := by
    rw [blockMap, dif_neg (by omega), if_neg (by omega), if_neg (by omega), if_neg (by omega)]
  constructor
  · intro agree root taken
    have refused := (code_eq fun _ _ => 0).symm.trans ((agree _).trans (format_eq _))
    simp only [taken] at refused
    by_cases allocated : page = true ∨ root = 0
    · rw [if_pos allocated] at refused
      cases refused
    · simpa [not_or] using allocated
  · intro refused tables
    rw [code_eq, format_eq]
    cases taken : takenRoot p inode index with
    | none => rfl
    | some root =>
        obtain ⟨unallocated, present⟩ := refused root taken
        simp [unallocated, present]

/-- Without a page for the table a single-indirect block is resolved only if there is no table. -/
theorem agree_single_iff (indirect : 12 ≤ index) (single : index < 12 + p) :
    (∀ tables, (Ext2FileSystem.faultFree blockSize tables).resolveFileBlock page inode index =
        blockMap p tables inode index) ↔
      page = true ∨ inode.singleIndirect = 0 := by
  have format_eq (tables : UInt32 → Nat → UInt32) : blockMap p tables inode index =
      .ok (entryAt tables inode.singleIndirect [index - 12]) := by
    rw [blockMap, dif_neg (by omega), if_pos single]
  simp only [resolve_single sizes _ page inode indirect single, format_eq]
  constructor
  · intro agree
    by_contra refused
    have both := agree fun _ _ => 0
    rw [if_neg refused] at both
    cases both
  · intro allocated tables
    rw [if_pos allocated]

end Resolve

/-- For every block size, inode and index, `resolve_file_block` is the block map of the format on
every disk exactly for direct blocks, for single-indirect blocks when a page can be allocated or
there is no table, for holes of the higher tiers whose root the code takes for a hole as well, and
for indices behind the largest file that are refused.  No table is ever read past its end. -/
theorem resolve_file_block_iff {log index : Nat} (small : log < 22) (word : index < wordSize)
    (page : Bool) (inode : DiskBlockPointers) :
    ((∀ tables,
        (Ext2FileSystem.faultFree (1024 <<< log) tables).resolveFileBlock page inode index =
          blockMap (256 * 2 ^ log) tables inode index) ↔
      Resolved (256 * 2 ^ log) page inode index) ∧
      ∀ tables,
        (Ext2FileSystem.faultFree (1024 <<< log) tables).resolveFileBlock page inode index ≠
          .error .pastTable := by
  have sizes := Tables.of_log small
  refine ⟨?_, fun tables => resolve_ne_pastTable sizes tables page inode⟩
  rw [Resolved]
  split_ifs with direct single far
  · refine iff_of_true (fun tables => ?_) trivial
    rw [Ext2FileSystem.resolveFileBlock, blockMap, dif_pos direct, dif_pos direct]
  · exact agree_single_iff sizes page inode (by omega) single
  · exact agree_far_iff sizes page inode word (by omega) far
  · exact agree_beyond_iff sizes page inode (by omega)

/-- A file whose table of single-indirect blocks is block 5, on a disk whose tables hold consecutive
block numbers. -/
def plainInode : DiskBlockPointers := ⟨fun _ => 0, 5, 1, 0⟩

def plainTables (blockId : UInt32) (index : Nat) : UInt32 := blockId + UInt32.ofNat index

/-- The last single-indirect block of a file with 1 KiB blocks. -/
theorem resolve_file_block_iff_single_last :
    (Ext2FileSystem.faultFree 1024 plainTables).resolveFileBlock true plainInode 267 =
        blockMap 256 plainTables plainInode 267 ∧
      blockMap 256 plainTables plainInode 267 = .ok 260 := by
  refine ⟨?_, rfl⟩
  exact (@resolve_file_block_iff 0 267 (by decide) (by decide) true plainInode).1.mpr
    (.inl rfl) plainTables

/-- The first double-indirect block of a file with 1 KiB blocks is in the first table of the tree;
the function takes the third. -/
theorem double_indirect_third_table :
    ∃ inode tables,
      (Ext2FileSystem.faultFree 1024 tables).resolveFileBlock true inode 268 = .ok 104 ∧
        blockMap 256 tables inode 268 = .ok 102 ∧
        (Ext2FileSystem.faultFree 1024 tables).resolveFileBlock true inode 268 ≠
          blockMap 256 tables inode 268 := by
  refine ⟨⟨fun _ => 0, 0, 1, 0⟩, fun blockId index =>
    if blockId = 1 then UInt32.ofNat (index + 2) else blockId + 100, rfl, rfl, ?_⟩
  intro same
  cases same

end Tiers

end Ext2
end Vespertine
