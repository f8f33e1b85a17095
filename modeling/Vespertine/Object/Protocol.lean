import Mathlib.Data.Nat.Init
import Vespertine.Library.Bytes

/-!
# Packets

The records that a directory listing is sent in: a header of 24 bytes, the last 4 of them padding
that nobody writes, and an entry of 256 bytes with room for a name of 254.
-/

namespace Vespertine

def VESPER_MAGIC : UInt32 := 0xc001ca75

/-- Flags of a packet, by their bits. -/
abbrev PacketFlags := UInt16

namespace PacketFlags

def IS_STREAM : PacketFlags := (1 : UInt16) <<< 1

def HAS_NEXT : PacketFlags := (1 : UInt16) <<< 2

def contains (flags other : PacketFlags) : Bool := flags &&& other == other

def insert (flags other : PacketFlags) : PacketFlags := flags ||| other

end PacketFlags

structure PacketHeader where
  magic : UInt32
  version : UInt16
  packetFlags : PacketFlags
  packetType : UInt32
  payloadLen : UInt32
  reserved : UInt32
deriving DecidableEq

/-- `size_of::<PacketHeader>()`. -/
def HEADER_SIZE : Nat := 24

/-- What is in the padding of a header. -/
abbrev Padding := Vector UInt8 4

namespace PacketHeader

/-- The header in memory. -/
def toBytes (header : PacketHeader) (padding : Padding) : List UInt8 :=
  Bytes.ofNat 4 header.magic.toNat ++ (Bytes.ofNat 2 header.version.toNat ++
    (Bytes.ofNat 2 header.packetFlags.toNat ++ (Bytes.ofNat 4 header.packetType.toNat ++
      (Bytes.ofNat 4 header.payloadLen.toNat ++ (Bytes.ofNat 4 header.reserved.toNat ++
        padding.toList)))))

/-- The header at the front of some memory. -/
def ofBytes (bytes : List UInt8) : PacketHeader :=
  let (magic, bytes) := Bytes.takeNat 4 bytes
  let (version, bytes) := Bytes.takeNat 2 bytes
  let (packetFlags, bytes) := Bytes.takeNat 2 bytes
  let (packetType, bytes) := Bytes.takeNat 4 bytes
  let (payloadLen, bytes) := Bytes.takeNat 4 bytes
  let (reserved, _) := Bytes.takeNat 4 bytes
  { magic := .ofNat magic, version := .ofNat version, packetFlags := .ofNat packetFlags
    packetType := .ofNat packetType, payloadLen := .ofNat payloadLen, reserved := .ofNat reserved }

@[simp] theorem length_toBytes (header : PacketHeader) (padding : Padding) :
    (header.toBytes padding).length = HEADER_SIZE := by
  simp [toBytes, HEADER_SIZE]

theorem ofBytes_toBytes (header : PacketHeader) (padding : Padding) (rest : List UInt8) :
    ofBytes (header.toBytes padding ++ rest) = header := by
  have word (value : UInt32) : value.toNat < 256 ^ 4 := value.toNat_lt
  have half (value : UInt16) : value.toNat < 256 ^ 2 := value.toNat_lt
  simp only [ofBytes, toBytes, List.append_assoc, Bytes.takeNat_append (word _),
    Bytes.takeNat_append (half _), UInt32.ofNat_toNat, UInt16.ofNat_toNat]

end PacketHeader

/-- Room for a name. -/
def NAME_SIZE : Nat := 254

structure AbiDirEntry where
  entryType : UInt8
  nameLen : UInt8
  name : Vector UInt8 NAME_SIZE
deriving DecidableEq

/-- `size_of::<AbiDirEntry>()`. -/
def ENTRY_SIZE : Nat := 256

namespace AbiDirEntry

/-- The entry in memory. -/
def toBytes (entry : AbiDirEntry) : List UInt8 :=
  entry.entryType :: entry.nameLen :: entry.name.toList

/-- The entry at the front of some memory. -/
def ofBytes (bytes : List UInt8) : AbiDirEntry where
  entryType := bytes.getD 0 0
  nameLen := bytes.getD 1 0
  name := .ofFn fun index => bytes.getD (2 + index) 0

@[simp] theorem length_toBytes (entry : AbiDirEntry) : entry.toBytes.length = ENTRY_SIZE := by
  rw [toBytes, List.length_cons, List.length_cons, Vector.length_toList]
  rfl

theorem ofBytes_toBytes (entry : AbiDirEntry) : ofBytes entry.toBytes = entry := by
  obtain ⟨entryType, nameLen, name⟩ := entry
  have name_eq : (Vector.ofFn fun index : Fin NAME_SIZE =>
      (AbiDirEntry.mk entryType nameLen name).toBytes.getD (2 + index) 0) = name := by
    ext index lt
    simp [toBytes, Nat.add_comm 2]
  simp only [ofBytes, name_eq]
  rfl

end AbiDirEntry

inductive DirEntryType where
  | Unknown
  | Directory
  | File
  | Object
deriving DecidableEq

def DirEntryType.toUInt8 : DirEntryType → UInt8
  | .Unknown => 0
  | .Directory => 1
  | .File => 2
  | .Object => 3

/-- `FULL_ENTRY`: the bytes of a packet. -/
def FULL_ENTRY : Nat := HEADER_SIZE + ENTRY_SIZE

/-- An entry with as much of a name as there is room for. -/
def dirEntry (entryType : DirEntryType) (name : List UInt8) : AbiDirEntry where
  entryType := entryType.toUInt8
  nameLen := .ofNat (min name.length NAME_SIZE)
  name := .ofFn fun index => (name.take (min name.length NAME_SIZE)).getD index 0

/-- The header of an entry that others follow, or none. -/
def dirHeader (hasNext : Bool) : PacketHeader where
  magic := VESPER_MAGIC
  version := 1
  packetFlags := if hasNext then PacketFlags.IS_STREAM.insert .HAS_NEXT else .IS_STREAM
  packetType := 1
  payloadLen := .ofNat ENTRY_SIZE
  reserved := 0

/-- The buffer that an entry is sent in. -/
def dirPacket (padding : Padding) (hasNext : Bool) (entryType : DirEntryType) (name : List UInt8) :
    List UInt8 :=
  (dirHeader hasNext).toBytes padding ++ (dirEntry entryType name).toBytes

@[simp] theorem length_dirPacket (padding : Padding) (hasNext : Bool) (entryType : DirEntryType)
    (name : List UInt8) : (dirPacket padding hasNext entryType name).length = FULL_ENTRY := by
  simp [dirPacket, FULL_ENTRY]

theorem dirHeader_magic (hasNext : Bool) : (dirHeader hasNext).magic = VESPER_MAGIC := rfl

theorem dirHeader_contains (hasNext : Bool) :
    (dirHeader hasNext).packetFlags.contains .HAS_NEXT = hasNext := by
  cases hasNext <;> rfl

/-- The name of an entry, as far as its length says. -/
theorem take_dirEntry_name {entryType : DirEntryType} {name : List UInt8}
    (short : name.length ≤ NAME_SIZE) :
    (dirEntry entryType name).name.toList.take (dirEntry entryType name).nameLen.toNat = name := by
  have len_eq : (dirEntry entryType name).nameLen.toNat = name.length := by
    rw [dirEntry, Nat.min_eq_left short, UInt8.toNat_ofNat']
    exact Nat.mod_eq_of_lt (by simp only [NAME_SIZE] at short; omega)
  rw [len_eq]
  refine List.ext_getElem (by simpa using short) fun index left right => ?_
  simp [dirEntry, short, right]

end Vespertine
