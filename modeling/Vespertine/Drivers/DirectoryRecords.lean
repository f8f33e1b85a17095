import Vespertine.Drivers.Ext2
import Vespertine.Drivers.Storage
import Vespertine.Drivers.Tar

/-!
# The records of a directory

A block of a directory is a chain of records of variable length: a header of eight bytes, a name
and padding.  `lookup_in_dir` looks for a name in the chain, and `DirectoryOp::List` collects the
names.  Both follow the lengths in the headers, which come from the disk, until they reach the end
of the block, or past it, or a length of zero.

The model notes what the loops read.  The name of a record is read only when it lies in the block,
its header is read wherever the chain leads.
-/

namespace Vespertine
namespace Records

open Ext2 (DiskBlockPointers)
open Storage (field scanEntries)
open Tar (fromUtf8 utf8)
open Vfs (Text)

/-- Bytes of a block that are read. -/
structure Access where
  offset : Nat
  count : Nat
deriving DecidableEq

/-- The bytes lie in the block. -/
def Access.Within (blockSize : Nat) (access : Access) : Prop :=
  access.offset + access.count ≤ blockSize

/-- `DiskDirHeader`. -/
structure DiskDirHeader where
  inode : Nat
  recordLength : Nat
  nameLength : Nat
  fileType : Nat
deriving DecidableEq

/-- What `List` keeps of a record. -/
structure Entry where
  name : Text
  fileType : Nat
deriving DecidableEq

/-- What a loop over the records of a block comes to. -/
structure Scan (α : Type) where
  found : Option α
  entries : List Entry
  /-- What it has read. -/
  accesses : List Access
deriving DecidableEq

/-- What a loop does about a record with a name. -/
inductive Verdict (α : Type)
  | skip
  | push (name : Text)
  | stop (result : α)

section Loops

variable (memory : Memory) (pageVirt blockSize : Nat)

/-- The header at an offset in the page. -/
def headerAt (offset : Nat) : DiskDirHeader where
  inode := Bytes.toNat (memory.read (pageVirt + offset) 4)
  recordLength := Bytes.toNat (memory.read (pageVirt + offset + 4) 2)
  nameLength := Bytes.toNat (memory.read (pageVirt + offset + 6) 1)
  fileType := Bytes.toNat (memory.read (pageVirt + offset + 7) 1)

/-- The name behind the header. -/
def nameAt (offset : Nat) : List UInt8 :=
  memory.read (pageVirt + offset + 8) (headerAt memory pageVirt offset).nameLength

/-- The record is in use and its name lies in the block. -/
def Named (offset : Nat) : Prop :=
  (headerAt memory pageVirt offset).inode ≠ 0 ∧ (headerAt memory pageVirt offset).nameLength > 0 ∧
    offset + 8 + (headerAt memory pageVirt offset).nameLength ≤ blockSize

instance (offset : Nat) : Decidable (Named memory pageVirt blockSize offset) :=
  inferInstanceAs (Decidable (_ ∧ _))

/-- The fields that are read of every header. -/
def headerReads (offset : Nat) : List Access := [⟨offset, 4⟩, ⟨offset + 4, 2⟩, ⟨offset + 6, 1⟩]

/-- A record that has been passed. -/
def Scan.behind {α : Type} (accesses : List Access) (entries : List Entry) (scan : Scan α) :
    Scan α :=
  { scan with entries := entries ++ scan.entries, accesses := accesses ++ scan.accesses }

/-- The loop over the records of a block; nothing when the fuel does not suffice. -/
def recordLoop {α : Type} (visit : (inodeId : Nat) → (entryName : Option Text) → Verdict α) :
    (fuel offset : Nat) → Option (Scan α)
  | 0, offset => if offset < blockSize then none else some ⟨none, [], []⟩
  | fuel + 1, offset =>
      if offset < blockSize then
        let header := headerAt memory pageVirt offset
        if header.recordLength = 0 then
          some ⟨none, [], headerReads offset⟩
        else
          let rest := recordLoop visit fuel (offset + header.recordLength)
          if Named memory pageVirt blockSize offset then
            let nameReads := headerReads offset ++ [⟨offset + 8, header.nameLength⟩]
            match visit header.inode (fromUtf8 (nameAt memory pageVirt offset)) with
            | .skip => rest.map (.behind nameReads [])
            | .push name =>
                rest.map (.behind (nameReads ++ [⟨offset + 7, 1⟩]) [⟨name, header.fileType⟩])
            | .stop result => some ⟨some result, [], nameReads⟩
          else
            rest.map (.behind (headerReads offset) [])
      else
        some ⟨none, [], []⟩

/-- `lookup_in_dir` about a record. -/
def lookupVisit (name : Text) (inodeId : Nat) : Option Text → Verdict Nat
  | some entryName => if entryName = name then .stop inodeId else .skip
  | none => .skip

/-- `List` about a record. -/
def listVisit (_inodeId : Nat) : Option Text → Verdict Empty
  | some entryName => if entryName ≠ ['.'] ∧ entryName ≠ ['.', '.'] then .push entryName else .skip
  | none => .skip

/-- The loop of `lookup_in_dir` over a block. -/
def lookupLoop (name : Text) : Option (Scan Nat) :=
  recordLoop memory pageVirt blockSize (lookupVisit name) blockSize 0

/-- The loop of `List` over a block. -/
def listLoop : Option (Scan Empty) :=
  recordLoop memory pageVirt blockSize listVisit blockSize 0

end Loops

section Directories

variable {α : Type} (pageVirt blockSize : Nat)

/-- The loop over the direct blocks: the pointers, each with the memory once its block has been
read, if it can be. -/
def blockLoop (loop : Memory → Option (Scan α)) :
    List (UInt32 × Except Unit Memory) → Option (Except Unit (Option α × List Entry))
  | [] => some (.ok (none, []))
  | (blockId, read) :: rest =>
      if blockId = 0 then
        blockLoop loop rest
      else
        match read with
        | .error () => some (.error ())
        | .ok memory => do
            let scan ← loop memory
            match scan.found with
            | some result => some (.ok (some result, scan.entries))
            | none =>
                let answer ← blockLoop loop rest
                some (answer.map fun (found, entries) => (found, scan.entries ++ entries))

/-- The direct blocks of an inode in order. -/
def directBlocks (inode : DiskBlockPointers) (reads : Fin 12 → Except Unit Memory) :
    List (UInt32 × Except Unit Memory) :=
  (List.finRange 12).map fun index => (inode.direct index, reads index)

/-- `lookup_in_dir`, with the page it gets. -/
def lookupInDir (page : Option Nat) (inode : DiskBlockPointers)
    (reads : Fin 12 → Except Unit Memory) (name : Text) : Option (Except Unit (Option Nat)) :=
  match page with
  | none => some (.error ())
  | some pageVirt =>
      (blockLoop (fun memory => lookupLoop memory pageVirt blockSize name)
        (directBlocks inode reads)).map (·.map (·.1))

/-- What `List` collects, with the page it gets. -/
def listEntries (page : Option Nat) (inode : DiskBlockPointers)
    (reads : Fin 12 → Except Unit Memory) : Option (Except InvocationError (List Entry)) :=
  match page with
  | none => some (.error .OutOfMemory)
  | some pageVirt =>
      (blockLoop (fun memory => listLoop memory pageVirt blockSize)
        (directBlocks inode reads)).map fun answer =>
          (answer.map (·.2)).mapError fun _ => .InvalidPointer

end Directories

/-! ## What the loops come to -/

section Scanning

variable {α : Type} {memory : Memory} {pageVirt blockSize : Nat}
  {visit : Nat → Option Text → Verdict α}

/-- What a loop comes to on the named records of a block. -/
def judge (visit : Nat → Option Text → Verdict α) :
    List Storage.DirEntry → Option α × List Entry
  | [] => (none, [])
  | record :: rest =>
      match visit record.inodeId (fromUtf8 record.name) with
      | .skip => judge visit rest
      | .push name => ((judge visit rest).1, ⟨name, record.fileType⟩ :: (judge visit rest).2)
      | .stop result => (some result, [])

/-- A field of a header. -/
theorem field_read {addr offset width : Nat} (inside : offset + width ≤ 8) :
    field (memory.read addr 8) offset width =
      Bytes.toNat (memory.read (addr + offset) width) := by
  rw [field]
  congr 1
  apply List.ext_getElem
  · simp
    omega
  · intro i _ _
    simp [Nat.add_assoc]

/-- The record at an offset, as `scanEntries` lists it. -/
def recordAt (memory : Memory) (pageVirt offset : Nat) : Storage.DirEntry where
  inodeId := (headerAt memory pageVirt offset).inode
  fileType := (headerAt memory pageVirt offset).fileType
  name := nameAt memory pageVirt offset

theorem scanEntries_inside {fuel offset : Nat} (inside : offset < blockSize) :
    scanEntries memory pageVirt blockSize (fuel + 1) offset =
      if (headerAt memory pageVirt offset).recordLength = 0 then []
      else
        let rest := scanEntries memory pageVirt blockSize fuel
          (offset + (headerAt memory pageVirt offset).recordLength)
        if Named memory pageVirt blockSize offset then
          recordAt memory pageVirt offset :: rest
        else rest := by
  have inode_eq : field (memory.read (pageVirt + offset) 8) 0 4 =
      (headerAt memory pageVirt offset).inode := field_read (by decide)
  have length_eq : field (memory.read (pageVirt + offset) 8) 4 2 =
      (headerAt memory pageVirt offset).recordLength := field_read (by decide)
  have name_eq : field (memory.read (pageVirt + offset) 8) 6 1 =
      (headerAt memory pageVirt offset).nameLength := field_read (by decide)
  have type_eq : field (memory.read (pageVirt + offset) 8) 7 1 =
      (headerAt memory pageVirt offset).fileType := field_read (by decide)
  rw [scanEntries, if_pos inside]
  dsimp only
  rw [inode_eq, length_eq, name_eq, type_eq]
  rfl

/-- The loop ends and sees the named records of the block. -/
theorem recordLoop_eq {fuel offset : Nat} (enough : blockSize - offset ≤ fuel) :
    ∃ scan, recordLoop memory pageVirt blockSize visit fuel offset = some scan ∧
      (scan.found, scan.entries) =
        judge visit (scanEntries memory pageVirt blockSize fuel offset) := by
  induction fuel generalizing offset with
  | zero =>
      rw [recordLoop, if_neg (by omega)]
      exact ⟨_, rfl, rfl⟩
  | succ fuel ih =>
      rw [recordLoop]
      split
      next inside =>
        rw [scanEntries_inside inside]
        dsimp only
        split
        next => exact ⟨_, rfl, rfl⟩
        next moving =>
          obtain ⟨scan, scan_eq, judged⟩ :=
            @ih (offset + (headerAt memory pageVirt offset).recordLength) (by omega)
          obtain ⟨found_eq, entries_eq⟩ := Prod.mk.inj judged
          rw [scan_eq]
          split
          next named =>
            rw [judge, recordAt]
            dsimp only
            split
            next => exact ⟨_, rfl, judged⟩
            next name _ =>
              exact ⟨_, rfl, Prod.ext found_eq (congrArg (List.cons _) entries_eq)⟩
            next => exact ⟨_, rfl, rfl⟩
          next unnamed => exact ⟨_, rfl, judged⟩
      next outside =>
        rw [scanEntries, if_neg outside]
        exact ⟨_, rfl, rfl⟩

end Scanning

/-! ## What the loops read -/

section Bounds

variable {α : Type} (memory : Memory) (pageVirt blockSize : Nat)

/-- The loop ends at the record. -/
def Stops (visit : Nat → Option Text → Verdict α) (offset : Nat) : Prop :=
  Named memory pageVirt blockSize offset ∧
    ∃ result, visit (headerAt memory pageVirt offset).inode
      (fromUtf8 (nameAt memory pageVirt offset)) = .stop result

/-- The chain of records leads from an offset to a place in the block. -/
inductive Reaches (visit : Nat → Option Text → Verdict α) : (offset place : Nat) → Prop
  | here {offset : Nat} : offset < blockSize → Reaches visit offset offset
  | next {offset place : Nat} : offset < blockSize →
      (headerAt memory pageVirt offset).recordLength ≠ 0 →
      ¬Stops memory pageVirt blockSize visit offset →
      Reaches visit (offset + (headerAt memory pageVirt offset).recordLength) place →
      Reaches visit offset place

/-- A loop ends and reads in the block only. -/
def Bounded (scan : Option (Scan α)) : Prop :=
  ∃ result, scan = some result ∧ ∀ access ∈ result.accesses, access.Within blockSize

variable {memory pageVirt blockSize} {visit : Nat → Option Text → Verdict α}

theorem headerReads_within {offset : Nat} :
    (∀ access ∈ headerReads offset, access.Within blockSize) ↔ offset + 7 ≤ blockSize := by
  simp only [headerReads, List.forall_mem_cons, Access.Within]
  constructor
  · intro within
    omega
  · intro le
    exact ⟨by omega, by omega, by omega, nofun⟩

theorem bounded_behind {accesses : List Access} {entries : List Entry} {rest : Option (Scan α)} :
    Bounded blockSize (rest.map (.behind accesses entries)) ↔
      (∀ access ∈ accesses, access.Within blockSize) ∧ Bounded blockSize rest := by
  cases rest with
  | none => simp [Bounded]
  | some scan =>
      simp only [Bounded, Option.map_some, Option.some.injEq, exists_eq_left', Scan.behind,
        List.forall_mem_append]

theorem bounded_some {found : Option α} {entries : List Entry} {accesses : List Access} :
    Bounded blockSize (some ⟨found, entries, accesses⟩) ↔
      ∀ access ∈ accesses, access.Within blockSize := by
  simp only [Bounded, Option.some.injEq, exists_eq_left']

/-- A loop reads in the block only if no record that it reaches begins in the last six bytes. -/
theorem recordLoop_bounded_iff {fuel offset : Nat} (enough : blockSize - offset ≤ fuel) :
    Bounded blockSize (recordLoop memory pageVirt blockSize visit fuel offset) ↔
      ∀ place, Reaches memory pageVirt blockSize visit offset place → place + 7 ≤ blockSize := by
  induction fuel generalizing offset with
  | zero =>
      rw [recordLoop, if_neg (by omega), bounded_some]
      refine ⟨fun _ place reached => ?_, fun _ => nofun⟩
      cases reached with
      | here inside => omega
      | next inside => omega
  | succ fuel ih =>
      rw [recordLoop]
      split
      next inside =>
        have first (stopped : (headerAt memory pageVirt offset).recordLength = 0 ∨
            Stops memory pageVirt blockSize visit offset) :
            (∀ place, Reaches memory pageVirt blockSize visit offset place →
              place + 7 ≤ blockSize) ↔ offset + 7 ≤ blockSize := by
          refine ⟨fun reached => reached offset (.here inside), fun le place reached => ?_⟩
          cases reached with
          | here _ => exact le
          | next _ moving going _ =>
              cases stopped with
              | inl zero => exact absurd zero moving
              | inr stops => exact absurd stops going
        dsimp only
        split
        next zero => rw [bounded_some, headerReads_within, first (.inl zero)]
        next moving =>
          have rest_iff :=
            @ih (offset + (headerAt memory pageVirt offset).recordLength) (by omega)
          have later (going : ¬Stops memory pageVirt blockSize visit offset) :
              (∀ place, Reaches memory pageVirt blockSize visit offset place →
                place + 7 ≤ blockSize) ↔ offset + 7 ≤ blockSize ∧
              Bounded blockSize (recordLoop memory pageVirt blockSize visit fuel
                (offset + (headerAt memory pageVirt offset).recordLength)) := by
            rw [rest_iff]
            refine ⟨fun reached => ⟨reached offset (.here inside), fun place behind =>
              reached place (.next inside moving going behind)⟩, fun both place reached => ?_⟩
            cases reached with
            | here _ => exact both.1
            | next _ _ _ behind => exact both.2 place behind
          have named_within (named : Named memory pageVirt blockSize offset) :
              (∀ access ∈ headerReads offset ++
                [⟨offset + 8, (headerAt memory pageVirt offset).nameLength⟩],
                access.Within blockSize) ↔ offset + 7 ≤ blockSize := by
            rw [List.forall_mem_append, headerReads_within, List.forall_mem_singleton]
            exact and_iff_left named.2.2
          split
          next named =>
            split
            next skip_eq =>
              rw [bounded_behind, named_within named, later]
              rintro ⟨-, result, stop_eq⟩
              rw [skip_eq] at stop_eq
              cases stop_eq
            next name push_eq =>
              rw [bounded_behind, List.forall_mem_append, named_within named,
                List.forall_mem_singleton, later]
              · have type_within : Access.Within blockSize ⟨offset + 7, 1⟩ := by
                  have := named.2.2
                  change offset + 7 + 1 ≤ blockSize
                  omega
                rw [and_iff_left type_within]
              · rintro ⟨-, result, stop_eq⟩
                rw [push_eq] at stop_eq
                cases stop_eq
            next result stop_eq =>
              rw [bounded_some, named_within named, first (.inr ⟨named, result, stop_eq⟩)]
          next unnamed =>
            rw [bounded_behind, headerReads_within, later]
            exact fun stops => unnamed stops.1
      next outside =>
        rw [bounded_some]
        refine ⟨fun _ place reached => ?_, fun _ => nofun⟩
        cases reached with
        | here inside => exact absurd inside outside
        | next inside => exact absurd inside outside

/-- For every block, the loops of `lookup_in_dir` and of `List` end, and they read in the block
only if and only if no record that they reach begins in its last six bytes. -/
theorem record_loops_bounded_iff (memory : Memory) (pageVirt blockSize : Nat) :
    ((listLoop memory pageVirt blockSize).isSome ∧
      (Bounded blockSize (listLoop memory pageVirt blockSize) ↔
        ∀ place, Reaches memory pageVirt blockSize listVisit 0 place →
          place + 7 ≤ blockSize)) ∧
      ∀ name, (lookupLoop memory pageVirt blockSize name).isSome ∧
        (Bounded blockSize (lookupLoop memory pageVirt blockSize name) ↔
          ∀ place, Reaches memory pageVirt blockSize (lookupVisit name) 0 place →
            place + 7 ≤ blockSize) := by
  have ends {α : Type} (visit : Nat → Option Text → Verdict α) :
      (recordLoop memory pageVirt blockSize visit blockSize 0).isSome := by
    obtain ⟨scan, scan_eq, -⟩ :=
      @recordLoop_eq α memory pageVirt blockSize visit blockSize 0 (Nat.sub_le _ _)
    rw [scan_eq]
    rfl
  refine ⟨⟨ends listVisit, recordLoop_bounded_iff (Nat.sub_le _ _)⟩, fun name => ?_⟩
  exact ⟨ends (lookupVisit name), recordLoop_bounded_iff (Nat.sub_le _ _)⟩

/-- A block of 1024 bytes with one record of 1020: the next header begins four bytes before the
end, and its length is read behind the block. -/
def tightBlock : Memory := fun addr => if addr = 4 then 252 else if addr = 5 then 3 else 0

theorem record_loops_overrun :
    ¬Bounded 1024 (listLoop tightBlock 0 1024) ∧
      ¬Bounded 1024 (lookupLoop tightBlock 0 1024 ['a']) := by
  have list_eq : listLoop tightBlock 0 1024 =
      some ⟨none, [], headerReads 0 ++ headerReads 1020⟩ := rfl
  have lookup_eq : lookupLoop tightBlock 0 1024 ['a'] =
      some ⟨none, [], headerReads 0 ++ headerReads 1020⟩ := rfl
  have outside : ¬∀ access ∈ headerReads 0 ++ headerReads 1020, access.Within 1024 := by
    intro within
    have length_read := within ⟨1024, 2⟩ (by decide)
    exact absurd length_read (by decide : ¬1024 + 2 ≤ 1024)
  rw [list_eq, lookup_eq, bounded_some, bounded_some]
  exact ⟨outside, outside⟩

end Bounds

/-! ## Directories whose blocks hold chains of records -/

/-- A chain of records from an offset to the end of the block: each is as long as its header and
its name at least. -/
inductive Chain (memory : Memory) (pageVirt blockSize : Nat) :
    (offset : Nat) → List Storage.DirEntry → Prop
  | done : Chain memory pageVirt blockSize blockSize []
  | record {offset : Nat} {records : List Storage.DirEntry} :
      8 + (headerAt memory pageVirt offset).nameLength ≤
        (headerAt memory pageVirt offset).recordLength →
      Chain memory pageVirt blockSize (offset + (headerAt memory pageVirt offset).recordLength)
        records →
      Chain memory pageVirt blockSize offset (recordAt memory pageVirt offset :: records)

/-- The record is in use and has a name. -/
def live (record : Storage.DirEntry) : Bool := record.inodeId ≠ 0 ∧ record.name ≠ []

/-- The entry that `List` should keep of a record. -/
def listed (record : Storage.DirEntry) : Option Entry :=
  if live record then
    (fromUtf8 record.name).bind fun name =>
      if name ≠ ['.'] ∧ name ≠ ['.', '.'] then some ⟨name, record.fileType⟩ else none
  else
    none

/-- The records of a directory in the order of its blocks. -/
def recordsOf (inode : DiskBlockPointers) (records : Fin 12 → List Storage.DirEntry) :
    List Storage.DirEntry :=
  (List.finRange 12).flatMap fun index => if inode.direct index = 0 then [] else records index

/-- Every block of the directory has been read and holds a chain of records. -/
def Chained (pageVirt blockSize : Nat) (inode : DiskBlockPointers)
    (reads : Fin 12 → Except Unit Memory) (records : Fin 12 → List Storage.DirEntry) : Prop :=
  ∀ index, inode.direct index ≠ 0 →
    ∃ memory, reads index = .ok memory ∧ Chain memory pageVirt blockSize 0 (records index)

section Chains

variable {memory : Memory} {pageVirt blockSize : Nat} {records : List Storage.DirEntry}

theorem Chain.offset_le {offset : Nat} (chain : Chain memory pageVirt blockSize offset records) :
    offset ≤ blockSize := by
  induction chain with
  | done => exact le_rfl
  | record _ _ ih => omega

/-- The named records of a chain are those in use that have a name. -/
theorem Chain.scanEntries_eq {fuel offset : Nat}
    (chain : Chain memory pageVirt blockSize offset records)
    (enough : blockSize - offset ≤ fuel) :
    scanEntries memory pageVirt blockSize fuel offset = records.filter live := by
  induction chain generalizing fuel with
  | done =>
      cases fuel with
      | zero => rfl
      | succ fuel => rw [scanEntries, if_neg (Nat.lt_irrefl _), List.filter_nil]
  | @record offset records long rest ih =>
      have rest_le := rest.offset_le
      obtain ⟨fuel, rfl⟩ : ∃ more, fuel = more + 1 := ⟨fuel - 1, by omega⟩
      have live_iff : live (recordAt memory pageVirt offset) = true ↔
          Named memory pageVirt blockSize offset := by
        have name_iff : nameAt memory pageVirt offset ≠ [] ↔
            0 < (headerAt memory pageVirt offset).nameLength := by
          rw [← List.length_pos_iff, nameAt, Memory.length_read]
        simp only [live, recordAt, decide_eq_true_eq, name_iff, Named]
        constructor
        · exact fun both => ⟨both.1, both.2, by omega⟩
        · exact fun named => ⟨named.1, named.2.1⟩
      rw [scanEntries_inside (by omega), if_neg (by omega), ih (by omega)]
      split
      next named => rw [List.filter_cons_of_pos (live_iff.mpr named)]
      next unnamed => rw [List.filter_cons_of_neg fun live => unnamed (live_iff.mp live)]

/-- Bytes are a text if and only if they are the bytes of the text. -/
theorem fromUtf8_eq_some {bytes : List UInt8} {text : Text} :
    fromUtf8 bytes = some text ↔ bytes = utf8 text := by
  constructor
  · intro decoded
    rw [fromUtf8, Option.map_eq_some_iff] at decoded
    obtain ⟨string, string_eq, rfl⟩ := decoded
    rw [String.fromUTF8?] at string_eq
    split at string_eq
    next valid =>
      obtain rfl := Option.some.inj string_eq
      rw [utf8, String.ofList_toList]
      exact List.toList_data_toByteArray.symm
    next => cases string_eq
  · rintro rfl
    exact Tar.fromUtf8_utf8 text

/-- The loop of `lookup_in_dir` stops at the first record with the name. -/
theorem judge_lookupVisit (name : Text) (records : List Storage.DirEntry) :
    (judge (lookupVisit name) records).1 =
      (records.find? (·.name = utf8 name)).map (·.inodeId) := by
  induction records with
  | nil => rfl
  | cons record records ih =>
      rw [judge, List.find?_cons]
      cases decoded : fromUtf8 record.name with
      | none =>
          have differs : record.name ≠ utf8 name := by
            intro same
            rw [fromUtf8_eq_some.mpr same] at decoded
            cases decoded
          simp only [lookupVisit, differs, decide_false]
          exact ih
      | some entryName =>
          by_cases same : entryName = name
          · subst same
            simp only [lookupVisit, fromUtf8_eq_some.mp decoded, if_true, decide_true,
              Option.map_some]
          · have differs : record.name ≠ utf8 name := by
              intro bytes_eq
              rw [fromUtf8_eq_some.mpr bytes_eq] at decoded
              exact same (Option.some.inj decoded).symm
            simp only [lookupVisit, if_neg same, differs, decide_false]
            exact ih

/-- The loop of `List` keeps the entries of the records. -/
theorem judge_listVisit (records : List Storage.DirEntry)
    (all_live : ∀ record ∈ records, live record = true) :
    judge listVisit records = (none, records.filterMap listed) := by
  induction records with
  | nil => rfl
  | cons record records ih =>
      have rest_eq := ih fun later mem => all_live later (List.mem_cons_of_mem record mem)
      rw [judge, List.filterMap_cons, listed, if_pos (all_live record List.mem_cons_self)]
      cases fromUtf8 record.name with
      | none => exact rest_eq
      | some entryName =>
          by_cases undotted : entryName ≠ ['.'] ∧ entryName ≠ ['.', '.']
          · simp only [listVisit, if_pos undotted, rest_eq, Option.bind_some]
          · simp only [listVisit, if_neg undotted, rest_eq, Option.bind_some]

/-- Records behind those that a loop has stopped at do not count. -/
theorem judge_append {α : Type} (visit : Nat → Option Text → Verdict α)
    (front back : List Storage.DirEntry) :
    judge visit (front ++ back) =
      match (judge visit front).1 with
      | some result => (some result, (judge visit front).2)
      | none => ((judge visit back).1, (judge visit front).2 ++ (judge visit back).2) := by
  induction front with
  | nil => rfl
  | cons record front ih =>
      rw [List.cons_append, judge, judge]
      cases visit record.inodeId (fromUtf8 record.name) with
      | skip => exact ih
      | stop result => rfl
      | push name =>
          dsimp only
          rw [ih]
          cases (judge visit front).1 <;> rfl

end Chains

section Walks

variable {pageVirt blockSize : Nat} {inode : DiskBlockPointers}
  {reads : Fin 12 → Except Unit Memory} {records : Fin 12 → List Storage.DirEntry}

/-- The loop over the blocks comes to what their records come to. -/
theorem blockLoop_chained {α : Type} (visit : Nat → Option Text → Verdict α)
    (chained : Chained pageVirt blockSize inode reads records) (indices : List (Fin 12)) :
    blockLoop (fun memory => recordLoop memory pageVirt blockSize visit blockSize 0)
        (indices.map fun index => (inode.direct index, reads index)) =
      some (.ok (judge visit ((indices.flatMap fun index =>
        if inode.direct index = 0 then [] else records index).filter live))) := by
  induction indices with
  | nil => rfl
  | cons index indices ih =>
      simp only [List.map_cons, blockLoop, List.flatMap_cons, List.filter_append]
      split
      next hole =>
        rw [ih]
        rfl
      next present =>
        obtain ⟨memory, read_eq, chain⟩ := chained index present
        obtain ⟨scan, scan_eq, judged⟩ :=
          @recordLoop_eq α memory pageVirt blockSize visit blockSize 0 (Nat.sub_le _ _)
        rw [chain.scanEntries_eq (Nat.sub_le _ _)] at judged
        rw [read_eq, ih, judge_append, ← judged]
        simp only [scan_eq, Option.bind_eq_bind, Option.bind_some]
        cases scan.found <;> rfl

theorem utf8_ne_nil {name : Text} (nonempty : name ≠ []) : utf8 name ≠ [] := by
  intro empty
  have length_le := Tar.length_le_utf8 name
  rw [empty, List.length_nil, Nat.le_zero] at length_le
  exact nonempty (List.eq_nil_of_length_eq_zero length_le)

/-- For a name that is not empty, the records that have it and are in use are live. -/
theorem find_live {name : Text} (nonempty : name ≠ []) (records : List Storage.DirEntry) :
    (records.filter live).find? (·.name = utf8 name) =
      records.find? fun record => record.inodeId ≠ 0 ∧ record.name = utf8 name := by
  rw [List.find?_filter]
  congr 1
  funext record
  by_cases same : record.name = utf8 name
  · simp [live, same, utf8_ne_nil nonempty]
  · simp [same]

theorem filterMap_live (records : List Storage.DirEntry) :
    (records.filter live).filterMap listed = records.filterMap listed := by
  rw [List.filterMap_filter]
  congr 1
  funext record
  rw [listed]
  split <;> rfl

theorem lookupInDir_chained {name : Text} (nonempty : name ≠ [])
    (chained : Chained pageVirt blockSize inode reads records) :
    lookupInDir blockSize (some pageVirt) inode reads name =
      some (.ok (((recordsOf inode records).find? fun record =>
        record.inodeId ≠ 0 ∧ record.name = utf8 name).map (·.inodeId))) := by
  have walk_eq := blockLoop_chained (lookupVisit name) chained (List.finRange 12)
  rw [lookupInDir, directBlocks]
  simp only [lookupLoop, walk_eq, Option.map_some, Except.map, judge_lookupVisit]
  rw [find_live nonempty, recordsOf]

theorem listEntries_chained (chained : Chained pageVirt blockSize inode reads records) :
    listEntries blockSize (some pageVirt) inode reads =
      some (.ok ((recordsOf inode records).filterMap listed)) := by
  have walk_eq := blockLoop_chained listVisit chained (List.finRange 12)
  rw [judge_listVisit _ fun record mem => (List.mem_filter.mp mem).2] at walk_eq
  rw [listEntries, directBlocks]
  simp only [listLoop, walk_eq, Option.map_some, Except.map, filterMap_live]
  rfl

/-- A name is listed if and only if some record in use has it. -/
theorem listed_iff {name : Text} (nonempty : name ≠ []) (undotted : name ≠ ['.'])
    (undotted_twice : name ≠ ['.', '.']) (records : List Storage.DirEntry) :
    (∃ entry ∈ records.filterMap listed, entry.name = name) ↔
      ∃ record ∈ records, record.inodeId ≠ 0 ∧ record.name = utf8 name := by
  have entry_iff (record : Storage.DirEntry) :
      (∃ entry, listed record = some entry ∧ entry.name = name) ↔
        record.inodeId ≠ 0 ∧ record.name = utf8 name := by
    rw [← fromUtf8_eq_some, listed]
    constructor
    · rintro ⟨entry, listed_eq, rfl⟩
      split at listed_eq
      next is_live =>
        obtain ⟨text, decoded, kept⟩ := Option.bind_eq_some_iff.mp listed_eq
        split at kept
        next =>
          obtain rfl := Option.some.inj kept
          simp only [live, decide_eq_true_eq] at is_live
          exact ⟨is_live.1, decoded⟩
        next => cases kept
      next => cases listed_eq
    · rintro ⟨in_use, decoded⟩
      have is_live : live record = true := by
        rw [live, decide_eq_true_eq, fromUtf8_eq_some.mp decoded]
        exact ⟨in_use, utf8_ne_nil nonempty⟩
      rw [if_pos is_live, decoded, Option.bind_some, if_pos ⟨undotted, undotted_twice⟩]
      exact ⟨_, rfl, rfl⟩
  simp only [List.mem_filterMap]
  constructor
  · rintro ⟨entry, ⟨record, mem, listed_eq⟩, name_eq⟩
    exact ⟨record, mem, (entry_iff record).mp ⟨entry, listed_eq, name_eq⟩⟩
  · rintro ⟨record, mem, both⟩
    obtain ⟨entry, listed_eq, name_eq⟩ := (entry_iff record).mpr both
    exact ⟨entry, ⟨record, mem, listed_eq⟩, name_eq⟩

/-- In a directory whose blocks hold chains of records, `lookup_in_dir` finds the first record in
use with a name that is not empty, `List` collects the named records in use that are texts without
dots alone, and a name that can be listed is listed if and only if it is found. -/
theorem directory_agrees (pageVirt blockSize : Nat) (inode : DiskBlockPointers)
    (records : Fin 12 → List Storage.DirEntry) :
    (∀ reads, Chained pageVirt blockSize inode reads records → ∀ name ≠ [],
      lookupInDir blockSize (some pageVirt) inode reads name =
        some (.ok (((recordsOf inode records).find? fun record =>
          record.inodeId ≠ 0 ∧ record.name = utf8 name).map (·.inodeId)))) ∧
    (∀ reads, Chained pageVirt blockSize inode reads records →
      listEntries blockSize (some pageVirt) inode reads =
        some (.ok ((recordsOf inode records).filterMap listed))) ∧
    ∀ reads listVirt listReads, Chained pageVirt blockSize inode reads records →
      Chained listVirt blockSize inode listReads records →
      ∀ name, name ≠ [] → name ≠ ['.'] → name ≠ ['.', '.'] →
        ((∃ entries, listEntries blockSize (some listVirt) inode listReads = some (.ok entries) ∧
            ∃ entry ∈ entries, entry.name = name) ↔
          ∃ inodeId, lookupInDir blockSize (some pageVirt) inode reads name =
            some (.ok (some inodeId))) := by
  refine ⟨fun reads chained name nonempty => lookupInDir_chained nonempty chained,
    fun reads chained => listEntries_chained chained, ?_⟩
  intro reads listVirt listReads chained listChained name nonempty undotted undotted_twice
  rw [lookupInDir_chained nonempty chained, listEntries_chained listChained]
  simp only [Option.some.injEq, Except.ok.injEq, exists_eq_left', Option.map_eq_some_iff]
  rw [listed_iff nonempty undotted undotted_twice]
  constructor
  · rintro ⟨record, mem, matches_name⟩
    have found : ((recordsOf inode records).find? fun record =>
        record.inodeId ≠ 0 ∧ record.name = utf8 name).isSome :=
      List.find?_isSome.mpr ⟨record, mem, decide_eq_true matches_name⟩
    obtain ⟨first, first_eq⟩ := Option.isSome_iff_exists.mp found
    exact ⟨first.inodeId, first, first_eq, rfl⟩
  · rintro ⟨inodeId, record, found, -⟩
    have matches_name := List.find?_some found
    exact ⟨record, List.mem_of_find?_eq_some found, of_decide_eq_true matches_name⟩

/-- A directory with a single block, of one record that fills it: inode 11, a file, with a name of
the given length that begins with an `a`. -/
def singleBlock (nameLength : UInt8) : Memory := fun addr =>
  if addr = 0 then 11 else if addr = 5 then 4 else if addr = 6 then nameLength
  else if addr = 7 then 1 else if addr = 8 then 97 else 0

def singleInode : DiskBlockPointers := ⟨fun index => if index = 0 then 7 else 0, 0, 0, 0⟩

theorem singleBlock_chained (nameLength : UInt8) :
    Chained 0 1024 singleInode (fun _ => .ok (singleBlock nameLength))
      fun _ => [recordAt (singleBlock nameLength) 0 0] := by
  have length_eq : (headerAt (singleBlock nameLength) 0 0).recordLength = 1024 := rfl
  have name_le : (headerAt (singleBlock nameLength) 0 0).nameLength ≤ 255 := by
    have name_eq : (headerAt (singleBlock nameLength) 0 0).nameLength = nameLength.toNat := rfl
    have := nameLength.toNat_lt
    omega
  refine fun index _ => ⟨_, rfl, .record (by omega) ?_⟩
  rw [length_eq]
  exact .done

theorem directory_agrees_single :
    lookupInDir 1024 (some 0) singleInode (fun _ => .ok (singleBlock 1)) ['a'] =
        some (.ok (some 11)) ∧
      listEntries 1024 (some 0) singleInode (fun _ => .ok (singleBlock 1)) =
        some (.ok [⟨['a'], 1⟩]) := by
  obtain ⟨lookup_eq, list_eq, -⟩ :=
    directory_agrees 0 1024 singleInode fun _ => [recordAt (singleBlock 1) 0 0]
  refine ⟨(lookup_eq _ (singleBlock_chained 1) ['a'] (by decide)).trans ?_,
    (list_eq _ (singleBlock_chained 1)).trans ?_⟩
  · decide
  · decide

/-- A record in use without a name is not found under the empty name. -/
theorem empty_name_not_found :
    ∃ inode reads records, Chained 0 1024 inode reads records ∧
      lookupInDir 1024 (some 0) inode reads [] ≠
        some (.ok (((recordsOf inode records).find? fun record =>
          record.inodeId ≠ 0 ∧ record.name = utf8 []).map (·.inodeId))) := by
  refine ⟨singleInode, _, _, singleBlock_chained 0, ?_⟩
  decide

end Walks

end Records
end Vespertine
