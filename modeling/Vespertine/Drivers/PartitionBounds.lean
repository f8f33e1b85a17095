import Vespertine.Drivers.Mount
import Vespertine.Drivers.Transfers

/-!
# The bounds of a partition

`GptTable::parse` takes the first and the last sector of a partition from the disk and computes its
size.  `read_sectors` and `write_sectors` of a partition compare the end of a request with the size
and add the first sector.  The two sums and the difference are not checked.
-/

namespace Vespertine.Storage

open Virtio (DeviceStatus Request)

variable {size slots : Nat}

/-- A request transfers bytes of a sector. -/
def Touches (request : Request) (sector : Nat) : Prop :=
  ∃ place, place / 512 = sector ∧ request.sector * 512 ≤ place ∧
    place < request.sector * 512 + request.sectorsCount * 512 % 2 ^ 32

/-- A call on a partition sends the disk no request for sectors outside of the entry's. -/
def Confined (size slots : Nat) [NeZero size] (startingLba endingLba : Nat)
    (partition : GptPartition) (sector sectorsCount : Nat) : Prop :=
  ∀ (bufPhys : Nat) (isWrite : Bool) (world : World size slots), ∃ more,
    (finalState (partition.device.submit sector sectorsCount bufPhys isWrite world)).requests =
        world.requests ++ more ∧
      ∀ request ∈ more, ∀ place, Touches request place →
        startingLba ≤ place ∧ place ≤ endingLba

/-- No 64-bit sum or difference on the way of a call wraps around. -/
structure Exact (startingLba endingLba sector sectorsCount : Nat) : Prop where
  difference : (wrappingSub endingLba startingLba : Int) = endingLba - startingLba
  total : wrappingAdd (wrappingSub endingLba startingLba) 1 =
    wrappingSub endingLba startingLba + 1
  bound : wrappingAdd sector sectorsCount = sector + sectorsCount
  /-- The first sector is added when the request is not refused. -/
  absolute : wrappingAdd sector sectorsCount ≤
      wrappingAdd (wrappingSub endingLba startingLba) 1 →
    wrappingAdd startingLba sector = startingLba + sector

/-- The entry and the request stay below `2 ^ 64`. -/
structure Representable (startingLba endingLba sector sectorsCount : Nat) : Prop where
  ordered : startingLba ≤ endingLba
  partial_disk : endingLba - startingLba + 1 < wordSize
  request : sector + sectorsCount < wordSize
  place : sector + sectorsCount ≤ endingLba - startingLba + 1 → startingLba + sector < wordSize

/-- The entry of the table that a header describes. -/
def entryOf (disk : Nat → UInt8) (header : GptHeader) (i : Nat) : List UInt8 :=
  ((List.range (header.numEntries * header.entrySize)).map fun j =>
    disk (header.entryTableLba * 512 + j)).drop (i * header.entrySize)

section Sums

variable {startingLba endingLba sector sectorsCount : Nat}

theorem wrappingAdd_eq_iff {left right : Nat} :
    wrappingAdd left right = left + right ↔ left + right < wordSize := by
  refine ⟨fun same => ?_, wrappingAdd_of_lt⟩
  rw [← same]
  exact Nat.mod_lt _ (by decide)

/-- Nothing wraps around for numbers that stay below `2 ^ 64`. -/
theorem rangeExact_iff (ending_lt : endingLba < wordSize) :
    Exact startingLba endingLba sector sectorsCount ↔
      Representable startingLba endingLba sector sectorsCount := by
  have ordered_iff : (wrappingSub endingLba startingLba : Int) = endingLba - startingLba ↔
      startingLba ≤ endingLba := by
    constructor
    · intro same
      omega
    · intro le
      rw [wrappingSub_of_le le ending_lt, Nat.cast_sub le]
  constructor
  · rintro ⟨difference, total, bound, absolute⟩
    have ordered := ordered_iff.mp difference
    rw [wrappingSub_of_le ordered ending_lt] at total absolute
    rw [total, bound] at absolute
    exact ⟨ordered, wrappingAdd_eq_iff.mp total, wrappingAdd_eq_iff.mp bound,
      fun inside => wrappingAdd_eq_iff.mp (absolute inside)⟩
  · rintro ⟨ordered, partial_disk, request, place⟩
    have sub_eq := wrappingSub_of_le ordered ending_lt
    have total := wrappingAdd_of_lt partial_disk
    refine ⟨ordered_iff.mpr ordered, ?_, wrappingAdd_of_lt request, ?_⟩
    · rw [sub_eq, total]
    · rw [sub_eq, total, wrappingAdd_of_lt request]
      exact fun inside => wrappingAdd_of_lt (place inside)

end Sums

section Requests

variable [NeZero size] {request : Request}

/-- A transfer sends its request or none. -/
theorem transferSectors_requests (request : Request) (world : World size slots) :
    ∃ more, (finalState (transferSectors request world)).requests = world.requests ++ more ∧
      ∀ other ∈ more, other = request := by
  have unsent : ∃ more, world.requests = world.requests ++ more ∧
      ∀ other ∈ more, other = request := ⟨[], (List.append_nil _).symm, nofun⟩
  rcases taking world fun page => do
      update fun world => { world with bytes := headerPage world.bytes request page }
      buildChain request page with
    ⟨-, transfer_eq⟩ | ⟨-, transfer_eq⟩ | ⟨page, -, -, transfer_eq⟩
  · change transferSectors request world = _ at transfer_eq
    rw [transfer_eq]
    exact unsent
  · change transferSectors request world = _ at transfer_eq
    rw [transfer_eq]
    exact unsent
  · change transferSectors request world = buildChain request page
      { withPage page world with bytes := headerPage world.bytes request page } at transfer_eq
    rw [transfer_eq, buildChain]
    split
    · exact unsent
    · exact ⟨[request], rfl, fun other mem => List.mem_singleton.mp mem⟩

variable {startingLba endingLba sector sectorsCount : Nat}

/-- The sectors of a request lie behind each other. -/
theorem Touches.inside {place : Nat} (touches : Touches request place) :
    request.sector ≤ place ∧ place < request.sector + request.sectorsCount := by
  obtain ⟨byte, rfl, lower, upper⟩ := touches
  have le := Nat.mod_le (request.sectorsCount * 512) (2 ^ 32)
  omega

/-- A call for which nothing wraps around stays inside of the entry. -/
theorem Representable.confined
    (fits : Representable startingLba endingLba sector sectorsCount) :
    Confined size slots startingLba endingLba
      ⟨startingLba, endingLba - startingLba + 1⟩ sector sectorsCount := by
  intro bufPhys isWrite world
  rw [GptPartition.device, Device.submit, wrappingAdd_of_lt fits.request]
  dsimp only
  split
  · exact ⟨[], (List.append_nil _).symm, fun _ mem => absurd mem List.not_mem_nil⟩
  next inside =>
    rw [wrappingAdd_of_lt (fits.place (by omega))]
    obtain ⟨more, requests_eq, sent_only⟩ := transferSectors_requests
      ⟨startingLba + sector, sectorsCount, bufPhys, isWrite⟩ world
    refine ⟨more, requests_eq, fun request mem place touches => ?_⟩
    obtain rfl := sent_only request mem
    obtain ⟨lower, upper⟩ := touches.inside
    have ordered := fits.ordered
    dsimp only at lower upper
    omega

end Requests

section Tables

variable {world after : World size slots} {partitions : List GptPartition}

/-- The bytes that a read has put into memory. -/
theorem ReadDone.read_eq {sector sectorsCount bufPhys count : Nat}
    (done : ReadDone .disk sector sectorsCount bufPhys world after)
    (within : count ≤ sectorsCount * 512 % 2 ^ 32) :
    after.bytes.read bufPhys count =
      (List.range count).map fun j => world.disk (sector * 512 + j) := by
  apply List.map_congr_left
  intro j mem
  exact done.bytes_eq j (by rw [List.mem_range] at mem; omega)

theorem alloc_disk {page : Nat} (alloc_eq : alloc world = .ok page after) :
    after.disk = world.disk := by
  rw [alloc] at alloc_eq
  split at alloc_eq
  · cases alloc_eq
  · cases alloc_eq
    rfl

theorem allocTable_disk {order page addr : Nat}
    (alloc_eq : allocTable order page world = .ok addr after) : after.disk = world.disk := by
  obtain ⟨-, error_eq⟩ | ⟨-, -, orders, error_eq⟩ | ⟨-, -, other, orders, ok_eq⟩ :=
    allocTable_cases order page world
  · rw [alloc_eq] at error_eq
    cases error_eq
  · rw [alloc_eq] at error_eq
    cases error_eq
  · rw [alloc_eq] at ok_eq
    cases ok_eq
    rfl

theorem loadBytes_ok {addr count : Nat} {raw : List UInt8}
    (load_eq : loadBytes addr count world = .ok raw after) :
    raw = world.bytes.read addr count ∧ after = world := by
  rw [loadBytes, EStateM.Result.ok.injEq] at load_eq
  exact ⟨load_eq.1.symm, load_eq.2.symm⟩

variable [NeZero size]

/-- A table that is accepted behind a header has small entries, and its partitions are those of
the disk. -/
theorem parseWith_ok {headerPage : Nat} {header : GptHeader}
    (parse_eq : parseWith headerPage header world = .ok partitions after) :
    header.numEntries ≤ 128 ∧ header.entrySize = 128 ∧
      partitions = (List.range header.numEntries).filterMap fun i =>
        GptPartition.parse (entryOf world.disk header i) := by
  rw [parseWith] at parse_eq
  split at parse_eq
  next => cases parse_eq
  next =>
    dsimp only at parse_eq
    split at parse_eq
    next => cases parse_eq
    next accepted =>
      rw [not_or, not_lt, not_not] at accepted
      obtain ⟨few, entrySize_eq⟩ := accepted
      obtain ⟨tableBuf, second, alloc_eq, parse_eq⟩ := run_bind_ok.mp parse_eq
      obtain ⟨⟨⟩, third, read_eq, parse_eq⟩ := run_bind_ok.mp parse_eq
      obtain ⟨table, fourth, load_eq, parse_eq⟩ := run_bind_ok.mp parse_eq
      obtain ⟨rfl, rfl⟩ := loadBytes_ok load_eq
      obtain ⟨⟨⟩, fifth, -, parse_eq⟩ := run_bind_ok.mp parse_eq
      obtain ⟨⟨⟩, sixth, -, parse_eq⟩ := run_bind_ok.mp parse_eq
      obtain rfl := (EStateM.Result.ok.inj parse_eq).1
      have within : header.numEntries * header.entrySize ≤
          (header.numEntries * header.entrySize + 511) / 512 * 512 % 2 ^ 32 := by
        rw [entrySize_eq]
        omega
      rw [(readAll_ok read_eq).2.read_eq within, allocTable_disk alloc_eq]
      exact ⟨few, entrySize_eq, rfl⟩

/-- The header of a table that is accepted is that of the disk. -/
theorem parseTable_ok (parse_eq : parseTable world = .ok partitions after) :
    ∃ header : GptHeader,
      header = GptHeader.parse ((List.range 512).map fun j => world.disk (1 * 512 + j)) ∧
      header.numEntries ≤ 128 ∧ header.entrySize = 128 ∧
      partitions = (List.range header.numEntries).filterMap fun i =>
        GptPartition.parse (entryOf world.disk header i) := by
  rw [parseTable, run_bind_ok] at parse_eq
  obtain ⟨headerPage, first, alloc_eq, parse_eq⟩ := parse_eq
  split at parse_eq
  next => cases parse_eq
  next =>
    obtain ⟨⟨⟩, second, read_eq, parse_eq⟩ := run_bind_ok.mp parse_eq
    obtain ⟨raw, third, load_eq, parse_eq⟩ := run_bind_ok.mp parse_eq
    have ⟨raw_read, third_eq⟩ := loadBytes_ok load_eq
    have header_done := (readAll_ok read_eq).2
    have disk_eq := header_done.disk_eq.trans (alloc_disk alloc_eq)
    have raw_eq := header_done.read_eq (Nat.le_refl 512)
    rw [alloc_disk alloc_eq] at raw_eq
    refine ⟨_, congrArg GptHeader.parse (raw_read.trans raw_eq), ?_⟩
    rw [← disk_eq, ← third_eq]
    exact parseWith_ok parse_eq

/-- Every partition of an accepted table is that of an entry on the disk, and a call on it stays
inside of the entry without any sum or difference that wraps around if and only if the entry and
the request stay below `2 ^ 64`. -/
theorem partition_confined_iff {partition : GptPartition}
    (parse_eq : parseTable world = .ok partitions after) (mem : partition ∈ partitions) :
    ∃ header i, header = GptHeader.parse ((List.range 512).map fun j => world.disk (1 * 512 + j)) ∧
      i < header.numEntries ∧ GptPartition.parse (entryOf world.disk header i) = some partition ∧
      let startingLba := field (entryOf world.disk header i) 32 8
      let endingLba := field (entryOf world.disk header i) 40 8
      partition.startSector = startingLba ∧
        ∀ sector sectorsCount,
          Confined size slots startingLba endingLba partition sector sectorsCount ∧
              Exact startingLba endingLba sector sectorsCount ↔
            Representable startingLba endingLba sector sectorsCount := by
  obtain ⟨header, header_eq, -, -, partitions_eq⟩ := parseTable_ok parse_eq
  rw [partitions_eq, List.mem_filterMap] at mem
  obtain ⟨i, i_mem, entry_eq⟩ := mem
  refine ⟨header, i, header_eq, List.mem_range.mp i_mem, entry_eq, ?_⟩
  have ending_lt : field (entryOf world.disk header i) 40 8 < wordSize := field_lt _ 40 8
  rw [GptPartition.parse] at entry_eq
  split at entry_eq
  next => cases entry_eq
  next =>
    obtain rfl := Option.some.inj entry_eq
    refine ⟨rfl, fun sector sectorsCount => ?_⟩
    rw [rangeExact_iff ending_lt]
    constructor
    · exact And.right
    · intro fits
      refine ⟨?_, fits⟩
      rw [wrappingSub_of_le fits.ordered ending_lt, wrappingAdd_of_lt fits.partial_disk]
      exact fits.confined

end Tables

/-- A disk with one partition, from sector 2048 to sector 4095. -/
def partitionedDisk (place : Nat) : UInt8 :=
  match place with
  | 512 => 0x45 | 513 => 0x46 | 514 => 0x49 | 515 => 0x20
  | 516 => 0x50 | 517 => 0x41 | 518 => 0x52 | 519 => 0x54
  | 584 => 2
  | 592 => 1
  | 596 => 128
  | 1024 => 1
  | 1057 => 0x08
  | 1064 => 0xFF
  | 1065 => 0x0F
  | _ => 0

/-- The disk with frames for the header, the requests and the table. -/
def partitionedWorld : World 4 1 :=
  { restingWorld 0 [.ok, .ok] with
    disk := partitionedDisk, supply := [4096, 8192, 12288], orders := [some 65536] }

set_option maxRecDepth 20000 in
theorem parse_partitionedWorld :
    ∃ after, parseTable partitionedWorld = .ok [⟨2048, 2048⟩] after :=
  ⟨_, rfl⟩

set_option maxRecDepth 20000 in
theorem parse_partitionedDisk :
    GptHeader.parse ((List.range 512).map fun j => partitionedDisk (1 * 512 + j)) =
      ⟨GPT_SIGNATURE, 2, 1, 128⟩ :=
  rfl

theorem entryOf_partitionedDisk :
    field (entryOf partitionedDisk ⟨GPT_SIGNATURE, 2, 1, 128⟩ 0) 32 8 = 2048 ∧
      field (entryOf partitionedDisk ⟨GPT_SIGNATURE, 2, 1, 128⟩ 0) 40 8 = 4095 := by
  decide

/-- The first sector of the partition can be read and written, and nothing beside it. -/
theorem partition_confined_first :
    Confined 4 1 2048 4095 ⟨2048, 2048⟩ 0 1 ∧ Exact 2048 4095 0 1 := by
  obtain ⟨after, parse_eq⟩ := parse_partitionedWorld
  obtain ⟨header, i, header_eq, below, -, start_eq, confined_iff⟩ :=
    partition_confined_iff parse_eq List.mem_cons_self
  obtain rfl := header_eq.trans parse_partitionedDisk
  obtain rfl : i = 0 := Nat.lt_one_iff.mp below
  have confined := confined_iff 0 1
  change Confined 4 1 (field (entryOf partitionedDisk _ 0) 32 8)
    (field (entryOf partitionedDisk _ 0) 40 8) _ _ _ ∧ _ ↔ _ at confined
  rw [entryOf_partitionedDisk.1, entryOf_partitionedDisk.2] at confined
  exact confined.mpr ⟨by decide, by decide, by decide, fun _ => by decide⟩

/-- The same disk with a partition that ends in front of its first sector, at sector 1023. -/
def reversedDisk (place : Nat) : UInt8 := if place = 1065 then 0x03 else partitionedDisk place

set_option maxRecDepth 20000 in
theorem parse_reversedWorld :
    ∃ after, parseTable { partitionedWorld with disk := reversedDisk } =
      .ok [⟨2048, 2 ^ 64 - 1024⟩] after :=
  ⟨_, rfl⟩

theorem entryOf_reversedDisk :
    field (entryOf reversedDisk ⟨GPT_SIGNATURE, 2, 1, 128⟩ 0) 32 8 = 2048 ∧
      field (entryOf reversedDisk ⟨GPT_SIGNATURE, 2, 1, 128⟩ 0) 40 8 = 1023 := by
  decide

/-- A read that sends one request is not confined if the request touches a sector outside. -/
theorem not_confined_of_sent {startingLba endingLba sector sent : Nat} {partition : GptPartition}
    (sent_eq : (finalState (partition.device.submit sector 1 0 false
      (restingWorld 0 [.ok] : World 4 1))).requests = [⟨sent, 1, 0, false⟩])
    (outside : sent < startingLba ∨ endingLba < sent) :
    ¬Confined 4 1 startingLba endingLba partition sector 1 := by
  intro confined
  obtain ⟨more, requests_eq, inside⟩ := confined 0 false (restingWorld 0 [.ok])
  rw [sent_eq] at requests_eq
  change [_] = [] ++ more at requests_eq
  rw [List.nil_append] at requests_eq
  subst requests_eq
  have touched : Touches ⟨sent, 1, 0, false⟩ sent :=
    ⟨sent * 512, by omega, le_rfl, by dsimp only; omega⟩
  have within := inside _ List.mem_cons_self sent touched
  omega

/-- Reading one sector from `2 ^ 64 - 1` on reads the sector before the partition, and the first
sector of a partition that ends in front of it can be read. -/
theorem partition_wraps :
    (∃ after, parseTable partitionedWorld = .ok [⟨2048, 2048⟩] after ∧
      field (entryOf partitionedDisk ⟨GPT_SIGNATURE, 2, 1, 128⟩ 0) 32 8 = 2048 ∧
      field (entryOf partitionedDisk ⟨GPT_SIGNATURE, 2, 1, 128⟩ 0) 40 8 = 4095 ∧
      ¬Confined 4 1 2048 4095 ⟨2048, 2048⟩ (2 ^ 64 - 1) 1) ∧
    ∃ after, parseTable { partitionedWorld with disk := reversedDisk } =
        .ok [⟨2048, 2 ^ 64 - 1024⟩] after ∧
      field (entryOf reversedDisk ⟨GPT_SIGNATURE, 2, 1, 128⟩ 0) 32 8 = 2048 ∧
      field (entryOf reversedDisk ⟨GPT_SIGNATURE, 2, 1, 128⟩ 0) 40 8 = 1023 ∧
      ¬Confined 4 1 2048 1023 ⟨2048, 2 ^ 64 - 1024⟩ 0 1 := by
  obtain ⟨after, parse_eq⟩ := parse_partitionedWorld
  obtain ⟨reversed, reversed_eq⟩ := parse_reversedWorld
  refine ⟨⟨after, parse_eq, entryOf_partitionedDisk.1, entryOf_partitionedDisk.2, ?_⟩,
    reversed, reversed_eq, entryOf_reversedDisk.1, entryOf_reversedDisk.2, ?_⟩
  · exact @not_confined_of_sent 2048 4095 (2 ^ 64 - 1) 2047 ⟨2048, 2048⟩ rfl (.inl (by decide))
  · exact @not_confined_of_sent 2048 1023 0 2048 ⟨2048, 2 ^ 64 - 1024⟩ rfl (.inr (by decide))

end Vespertine.Storage
