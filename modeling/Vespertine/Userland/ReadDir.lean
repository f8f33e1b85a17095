import Vespertine.Library.Transition
import Vespertine.Object.Directory

/-!
# Reading a directory listing

The iterator of the standard library over the packets of a listing.  It keeps what it has read in a
window of 4096 bytes, of which those from the cursor up to the limit are still to be decoded.  When
they are fewer than a packet it moves them to the front and reads once, and then it decodes 280
bytes, whether or not they have all been read.
-/

namespace Vespertine

inductive EntryKind where
  | File
  | Directory
  | Object
deriving DecidableEq

structure DirEntry where
  name : String
  kind : EntryKind
deriving DecidableEq

structure ReadDir where
  finished : Bool
  buffer : List UInt8
  cursor : Nat
  limit : Nat

/-- The length of the window. -/
def WINDOW : Nat := 4096

/-- What `sys_read` answers, call by call; from then on the end of the file. -/
abbrev Reads := List (Except Unit (List UInt8))

/-- A read of at most `room` bytes. -/
def sysRead (room : Nat) : Reads → Except Unit (List UInt8) × Reads
  | [] => (.ok [], [])
  | answer :: reads => (answer.map (·.take room), reads)

/-- `copy_within`, to the front. -/
def copyToFront (buffer : List UInt8) (start stop : Nat) : List UInt8 :=
  (buffer.drop start).take (stop - start) ++ buffer.drop (stop - start)

/-- Bytes written over those at a place. -/
def writeAt (buffer : List UInt8) (place : Nat) (bytes : List UInt8) : List UInt8 :=
  buffer.take place ++ (bytes ++ buffer.drop (place + bytes.length))

/-- What 280 bytes are decoded to. -/
inductive Parsed where
  /-- The length of the name exceeds its room. -/
  | outOfBounds
  | badMagic
  | entry (entry : DirEntry) (hasNext : Bool)

def kindOf (entryType : UInt8) : EntryKind :=
  if entryType = 1 then .Directory else if entryType = 2 then .File else .Object

def nameOf (bytes : List UInt8) : String :=
  (String.fromUTF8? ⟨bytes.toArray⟩).getD "Invalid UTF-8"

def parse (bytes : List UInt8) : Parsed :=
  let header := PacketHeader.ofBytes bytes
  if header.magic ≠ VESPER_MAGIC then
    .badMagic
  else
    let entry := AbiDirEntry.ofBytes (bytes.drop HEADER_SIZE)
    if NAME_SIZE < entry.nameLen.toNat then
      .outOfBounds
    else
      let nameBytes := entry.name.toList.take entry.nameLen.toNat
      .entry ⟨nameOf nameBytes, kindOf entry.entryType⟩ (header.packetFlags.contains .HAS_NEXT)

namespace ReadDir

inductive Stop where
  /-- `limit - cursor` is negative. -/
  | underflow
  | outOfBounds
deriving DecidableEq

def new : ReadDir := ⟨false, List.replicate WINDOW 0, 0, 0⟩

/-- Bytes that are read and not decoded. -/
def remaining (dir : ReadDir) : Nat := dir.limit - dir.cursor

/-- Read once, behind the bytes that are left; whether the iterator returns then. -/
def refill (dir : ReadDir) (reads : Reads) : Bool × ReadDir × Reads :=
  let buffer :=
    if 0 < dir.remaining then copyToFront dir.buffer dir.cursor dir.limit else dir.buffer
  let (answer, reads) := sysRead (WINDOW - dir.remaining) reads
  let moved := { dir with buffer, cursor := 0, limit := dir.remaining }
  match answer with
  | .ok (byte :: bytes) =>
      (false, { moved with
        buffer := writeAt buffer moved.limit (byte :: bytes)
        limit := moved.limit + (byte :: bytes).length }, reads)
  | _ =>
      if moved.remaining < FULL_ENTRY then
        (true, { moved with finished := true }, reads)
      else
        (false, moved, reads)

/-- Decode a packet at the cursor. -/
def decode (dir : ReadDir) : Except Stop (Option DirEntry × ReadDir) :=
  match parse ((dir.buffer.drop dir.cursor).take FULL_ENTRY) with
  | .outOfBounds => .error .outOfBounds
  | .badMagic => .ok (none, { dir with cursor := dir.cursor + HEADER_SIZE, finished := true })
  | .entry entry hasNext =>
      .ok (some entry, { dir with
        cursor := dir.cursor + FULL_ENTRY, finished := dir.finished || !hasNext })

def next (dir : ReadDir) (reads : Reads) : Except Stop (Option DirEntry × ReadDir × Reads) :=
  if dir.finished then
    .ok (none, dir, reads)
  else if dir.limit < dir.cursor then
    .error .underflow
  else do
    let (returns, dir, reads) :=
      if dir.remaining < FULL_ENTRY then dir.refill reads else (false, dir, reads)
    if returns then
      return (none, dir, reads)
    else
      let (item, dir) ← dir.decode
      return (item, dir, reads)

/-- What the iterator yields, call by call. -/
def collect : (calls : Nat) → ReadDir → Reads → Except Stop (List (Option DirEntry))
  | 0, _, _ => .ok []
  | calls + 1, dir, reads => do
      let (item, dir, reads) ← dir.next reads
      let items ← collect calls dir reads
      return item :: items

/-- However often it is called, the iterator yields the entries and then nothing. -/
def Yields (dir : ReadDir) (reads : Reads) (entries : List DirEntry) : Prop :=
  ∀ calls, collect calls dir reads =
    .ok ((entries.map some ++ List.replicate calls none).take calls)

end ReadDir

/-!
### Encoded entries
-/

def EntryKind.entryType : EntryKind → DirEntryType
  | .File => .File
  | .Directory => .Directory
  | .Object => .Object

/-- The bytes of a name. -/
def DirEntry.bytes (entry : DirEntry) : List UInt8 := entry.name.toUTF8.data.toList

/-- One packet for each entry, with the flag for more on all but the last. -/
def encode (padding : Nat → Padding) : Nat → List DirEntry → List (List UInt8)
  | _, [] => []
  | index, entry :: rest =>
      dirPacket (padding index) (!rest.isEmpty) entry.kind.entryType entry.bytes ::
        encode padding (index + 1) rest

/-- An entry of a directory as a listing shows it. -/
def listed (entry : Filename × String) : DirEntry :=
  ⟨entry.1.name, kindOf (listedType entry.2).toUInt8⟩

/-- A listing sends the encoded entries. -/
theorem packetsFrom_eq_encode (padding : Nat → Padding) (index : Nat)
    (entries : List (Filename × String)) :
    Directory.packetsFrom padding index entries = encode padding index (entries.map listed) := by
  induction entries generalizing index with
  | nil => rfl
  | cons entry entries ih =>
      obtain ⟨filename, typeName⟩ := entry
      have type_eq : (kindOf (listedType typeName).toUInt8).entryType = listedType typeName := by
        rw [listedType]
        split_ifs <;> rfl
      simp only [Directory.packetsFrom, encode, List.map_cons, ih, listed, type_eq,
        List.isEmpty_map]
      rfl

theorem nameOf_toUTF8 (name : String) : nameOf name.toUTF8.data.toList = name := by
  have valid : name.toByteArray.IsValidUTF8 := name.isValidUTF8
  simp only [nameOf, String.fromUTF8?, String.toUTF8_eq_toByteArray, Array.toArray_toList]
  rw [dif_pos valid]
  rfl

theorem kindOf_entryType (kind : EntryKind) : kindOf kind.entryType.toUInt8 = kind := by
  cases kind <;> rfl

/-- A packet is decoded to its entry. -/
theorem parse_dirPacket {padding : Padding} {hasNext : Bool} {entry : DirEntry}
    (short : entry.bytes.length ≤ NAME_SIZE) :
    parse (dirPacket padding hasNext entry.kind.entryType entry.bytes) = .entry entry hasNext := by
  have rest_eq : (dirPacket padding hasNext entry.kind.entryType entry.bytes).drop HEADER_SIZE =
      (dirEntry entry.kind.entryType entry.bytes).toBytes :=
    List.drop_left' (PacketHeader.length_toBytes _ _)
  have len_le : ¬ NAME_SIZE < (dirEntry entry.kind.entryType entry.bytes).nameLen.toNat := by
    rw [dirEntry, Nat.min_eq_left short, UInt8.toNat_ofNat']
    exact Nat.not_lt.mpr ((Nat.mod_le _ _).trans short)
  rw [parse, rest_eq, dirPacket, PacketHeader.ofBytes_toBytes, AbiDirEntry.ofBytes_toBytes]
  simp only [dirHeader_magic, ne_eq, not_true_eq_false, if_false, len_le, dirHeader_contains,
    take_dirEntry_name short]
  simp only [DirEntry.bytes, nameOf_toUTF8, dirEntry, kindOf_entryType]

namespace ReadDir

section Yields

variable {dir after : ReadDir} {reads later : Reads} {entry : DirEntry} {entries : List DirEntry}

theorem collect_finished (finished : dir.finished = true) (calls : Nat) :
    collect calls dir reads = .ok (List.replicate calls none) := by
  induction calls with
  | zero => rfl
  | succ calls ih =>
      rw [collect, next, if_pos finished]
      simp only [bind, Except.bind, ih, pure, Except.pure, List.replicate_succ]

/-- A finished iterator yields nothing. -/
theorem yields_finished_iff (finished : dir.finished = true) :
    dir.Yields reads entries ↔ entries = [] := by
  constructor
  · intro yields
    have first := yields 1
    rw [collect_finished finished] at first
    cases entries with
    | nil => rfl
    | cons entry entries => cases first
  · rintro rfl calls
    rw [collect_finished finished]
    simp

theorem collect_succ (next_eq : dir.next reads = .ok (some entry, after, later)) (calls : Nat) :
    collect (calls + 1) dir reads = (collect calls after later).map (some entry :: ·) := by
  rw [collect, next_eq]
  simp only [bind, Except.bind, pure, Except.pure]
  cases collect calls after later <;> rfl

/-- What is left to yield once an entry has been yielded. -/
theorem yields_cons_iff (next_eq : dir.next reads = .ok (some entry, after, later)) :
    dir.Yields reads (entry :: entries) ↔ after.Yields later entries := by
  have expected (calls : Nat) :
      (((entry :: entries).map some ++ List.replicate (calls + 1) none).take (calls + 1)) =
        some entry :: (entries.map some ++ List.replicate calls none).take calls := by
    rw [List.map_cons, List.cons_append, List.take_succ_cons, List.replicate_succ',
      ← List.append_assoc, List.take_append_of_le_length (by simp)]
  constructor
  · intro yields calls
    have all := yields (calls + 1)
    rw [collect_succ next_eq, expected] at all
    obtain ⟨items, items_eq, cons_eq⟩ := map_eq_ok.mp all
    rw [items_eq, (List.cons.inj cons_eq).2]
  · intro yields calls
    cases calls with
    | zero => rfl
    | succ calls =>
        rw [collect_succ next_eq, expected, yields calls]
        rfl

/-- An entry that is expected first is what the first call returns. -/
theorem Yields.next_eq (yields : dir.Yields reads (entry :: entries)) :
    ∃ after later, dir.next reads = .ok (some entry, after, later) := by
  have first := yields 1
  rw [collect] at first
  obtain ⟨⟨item, after, later⟩, next_eq, done⟩ := bind_eq_ok.mp first
  cases done
  exact ⟨after, later, next_eq⟩

theorem yields_nil_of_next (next_eq : dir.next reads = .ok (none, after, later))
    (finished : after.finished = true) : dir.Yields reads [] := by
  intro calls
  cases calls with
  | zero => rfl
  | succ calls =>
      rw [collect, next_eq]
      simp only [bind, Except.bind, collect_finished finished, pure, Except.pure]
      simp [List.replicate_succ]

/-- An iterator whose cursor is beyond its limit does not return. -/
theorem not_yields_of_lt (unfinished : dir.finished = false) (lt : dir.limit < dir.cursor) :
    ¬ dir.Yields reads entries := by
  intro yields
  have first := yields 1
  rw [collect, next, unfinished, if_neg Bool.false_ne_true, if_pos lt] at first
  cases first

end Yields

/-!
### The window
-/

/-- The bytes that are read and not decoded. -/
def unread (dir : ReadDir) : List UInt8 := (dir.buffer.drop dir.cursor).take dir.remaining

/-- The window once a read has brought some bytes. -/
def refilled (dir : ReadDir) (chunk : List UInt8) : ReadDir where
  finished := dir.finished
  buffer := dir.unread ++ (chunk ++ dir.buffer.drop (dir.remaining + chunk.length))
  cursor := 0
  limit := dir.remaining + chunk.length

/-- The window once an entry has been decoded. -/
def advance (dir : ReadDir) (hasNext : Bool) : ReadDir :=
  { dir with cursor := dir.cursor + FULL_ENTRY, finished := !hasNext }

/-- The window holds a part of the stream, and the reads bring the rest. -/
structure Ready (dir : ReadDir) (chunks packets : List (List UInt8)) : Prop where
  unfinished : dir.finished = false
  length_eq : dir.buffer.length = WINDOW
  cursor_le : dir.cursor ≤ dir.limit
  limit_le : dir.limit ≤ WINDOW
  stream_eq : dir.unread ++ chunks.flatten = packets.flatten

namespace Ready

variable {dir : ReadDir} {chunk : List UInt8} {chunks packets : List (List UInt8)}

theorem length_unread (ready : Ready dir chunks packets) : dir.unread.length = dir.remaining := by
  have := ready.limit_le
  rw [unread, List.length_take, List.length_drop, ready.length_eq, remaining]
  omega

theorem new {chunks packets : List (List UInt8)} (stream_eq : chunks.flatten = packets.flatten) :
    Ready .new chunks packets where
  unfinished := rfl
  length_eq := List.length_replicate
  cursor_le := Nat.le_refl 0
  limit_le := Nat.zero_le _
  stream_eq := by simpa [unread, remaining, ReadDir.new] using stream_eq

theorem refilled (ready : Ready dir (chunk :: chunks) packets)
    (room : dir.remaining + chunk.length ≤ WINDOW) :
    Ready (dir.refilled chunk) chunks packets := by
  have unread_eq : (dir.refilled chunk).unread = dir.unread ++ chunk := by
    have length_eq : (dir.unread ++ chunk).length = dir.remaining + chunk.length := by
      rw [List.length_append, ready.length_unread]
    simp only [unread, ReadDir.refilled, remaining, List.drop_zero, Nat.sub_zero]
    exact (List.append_assoc _ _ _).symm ▸ List.take_left' length_eq
  refine ⟨ready.unfinished, ?_, Nat.zero_le _, room, ?_⟩
  · simp only [ReadDir.refilled, List.length_append, ready.length_unread, List.length_drop,
      ready.length_eq]
    omega
  · rw [unread_eq, List.append_assoc, ← List.flatten_cons, ready.stream_eq]

theorem advance {packet : List UInt8} (ready : Ready dir chunks (packet :: packets))
    (length_eq : packet.length = FULL_ENTRY) (enough : FULL_ENTRY ≤ dir.remaining) :
    Ready (dir.advance true) chunks packets := by
  have unread_eq : (dir.advance true).unread = dir.unread.drop FULL_ENTRY := by
    rw [unread, unread, List.drop_take, List.drop_drop, remaining, remaining, ReadDir.advance,
      Nat.sub_add_eq]
  have cursor_le := ready.cursor_le
  rw [remaining] at enough
  refine ⟨rfl, ready.length_eq, ?_, ready.limit_le, ?_⟩
  · simp only [ReadDir.advance]
    omega
  · have rest := congrArg (List.drop FULL_ENTRY) ready.stream_eq
    rw [List.flatten_cons, List.drop_left' length_eq, List.drop_append_of_le_length] at rest
    · rw [unread_eq, rest]
    · rwa [ready.length_unread, remaining]

/-- A packet that has been read is what is decoded next. -/
theorem front_eq {packet : List UInt8} (ready : Ready dir chunks (packet :: packets))
    (length_eq : packet.length = FULL_ENTRY) (enough : FULL_ENTRY ≤ dir.remaining) :
    (dir.buffer.drop dir.cursor).take FULL_ENTRY = packet := by
  have front := congrArg (List.take FULL_ENTRY) ready.stream_eq
  rw [List.flatten_cons, List.take_left' length_eq, List.take_append_of_le_length] at front
  · rwa [unread, List.take_take, Nat.min_eq_left enough] at front
  · rwa [ready.length_unread]

/-- When a packet has been read in part, the bytes that the window held make up the rest. -/
theorem front_refilled {packet : List UInt8}
    (ready : Ready dir (chunk :: chunks) (packet :: packets))
    (length_eq : packet.length = FULL_ENTRY) (less : dir.remaining + chunk.length < FULL_ENTRY) :
    (dir.refilled chunk).buffer.take FULL_ENTRY = packet.take (dir.remaining + chunk.length) ++
      (dir.buffer.take FULL_ENTRY).drop (dir.remaining + chunk.length) := by
  have read_length : (dir.unread ++ chunk).length = dir.remaining + chunk.length := by
    rw [List.length_append, ready.length_unread]
  have front := congrArg (List.take (dir.remaining + chunk.length)) ready.stream_eq
  rw [List.flatten_cons, ← List.append_assoc, List.take_left' read_length, List.flatten_cons,
    List.take_append_of_le_length (by omega)] at front
  rw [ReadDir.refilled, ← List.append_assoc, ← front, List.take_append, read_length,
    List.drop_take, List.take_of_length_le (by omega)]

end Ready

section Next

variable {dir : ReadDir} {chunk : List UInt8} {reads : Reads} {entry : DirEntry} {hasNext : Bool}

theorem decode_entry (unfinished : dir.finished = false)
    (parse_eq : parse ((dir.buffer.drop dir.cursor).take FULL_ENTRY) = .entry entry hasNext) :
    dir.decode = .ok (some entry, dir.advance hasNext) := by
  rw [decode, parse_eq]
  simp only [advance, unfinished, Bool.false_or]

/-- Only an entry is returned as one. -/
theorem decode_eq_some {after : ReadDir} (unfinished : dir.finished = false)
    (decode_eq : dir.decode = .ok (some entry, after)) :
    ∃ hasNext, parse ((dir.buffer.drop dir.cursor).take FULL_ENTRY) = .entry entry hasNext ∧
      after = dir.advance hasNext := by
  rw [decode] at decode_eq
  split at decode_eq
  next => cases decode_eq
  next => cases decode_eq
  next found hasNext parse_eq =>
    cases decode_eq
    refine ⟨hasNext, parse_eq, ?_⟩
    simp only [advance, unfinished, Bool.false_or]

theorem next_of_enough (unfinished : dir.finished = false) (cursor_le : dir.cursor ≤ dir.limit)
    (enough : FULL_ENTRY ≤ dir.remaining) :
    dir.next reads = dir.decode.map fun (item, after) => (item, after, reads) := by
  rw [next, unfinished, if_neg Bool.false_ne_true, if_neg (by omega), if_neg (by omega)]
  simp only [bind, Except.bind, pure, Except.pure, Bool.false_eq_true, if_false]
  cases dir.decode <;> rfl

theorem refill_eq (limit_le : dir.limit ≤ dir.buffer.length) (cursor_le : dir.cursor ≤ dir.limit)
    (nonempty : chunk ≠ []) (room : dir.remaining + chunk.length ≤ WINDOW) :
    dir.refill (.ok chunk :: reads) = (false, dir.refilled chunk, reads) := by
  have unread_length : dir.unread.length = dir.remaining := by
    rw [unread, List.length_take, List.length_drop, remaining]
    omega
  have moved_eq : (if 0 < dir.remaining then copyToFront dir.buffer dir.cursor dir.limit
      else dir.buffer) = dir.unread ++ dir.buffer.drop dir.remaining := by
    split
    next => rfl
    next none =>
      have none : dir.remaining = 0 := by omega
      rw [unread, none]
      rfl
  have fits : chunk.take (WINDOW - dir.remaining) = chunk := List.take_of_length_le (by omega)
  obtain ⟨byte, bytes, rfl⟩ := List.exists_cons_of_ne_nil nonempty
  have written :
      writeAt (dir.unread ++ dir.buffer.drop dir.remaining) dir.remaining (byte :: bytes) =
      (dir.refilled (byte :: bytes)).buffer := by
    rw [writeAt, List.take_left' unread_length, ← List.drop_drop, List.drop_left' unread_length,
      List.drop_drop, refilled]
  simp only [refill, sysRead, moved_eq, Except.map, fits, written]
  rfl

theorem next_of_refill (unfinished : dir.finished = false)
    (limit_le : dir.limit ≤ dir.buffer.length) (cursor_le : dir.cursor ≤ dir.limit)
    (less : dir.remaining < FULL_ENTRY)
    (nonempty : chunk ≠ []) (room : dir.remaining + chunk.length ≤ WINDOW) :
    dir.next (.ok chunk :: reads) =
      (dir.refilled chunk).decode.map fun (item, after) => (item, after, reads) := by
  rw [next, unfinished, if_neg Bool.false_ne_true, if_neg (by omega), if_pos less,
    refill_eq limit_le cursor_le nonempty room]
  simp only [bind, Except.bind, pure, Except.pure, Bool.false_eq_true, if_false]
  cases (dir.refilled chunk).decode <;> rfl

/-- At the end of the file, with nothing left, the iterator is finished. -/
theorem next_of_end (unfinished : dir.finished = false) (cursor_le : dir.cursor ≤ dir.limit)
    (nothing : dir.remaining = 0) :
    ∃ after, dir.next [] = .ok (none, after, []) ∧ after.finished = true := by
  let after : ReadDir :=
    { dir with buffer := dir.buffer, cursor := 0, limit := 0, finished := true }
  have refill_end : dir.refill [] = (true, after, []) := by
    simp only [refill, sysRead, nothing, Nat.lt_irrefl, if_false]
    exact if_pos (Nat.zero_lt_succ _)
  refine ⟨after, ?_, rfl⟩
  rw [next, unfinished, if_neg Bool.false_ne_true, if_neg (by omega), nothing,
    if_pos (by decide), refill_end]
  rfl

end Next

/-!
### Chunks
-/

/-- Each read completes the packet that is to be decoded.  If one does not, the packet is the last,
and with the bytes that the window holds in place of the missing ones it is decoded alike. -/
def Completes : (front : List UInt8) → (left : Nat) → (chunks packets : List (List UInt8)) → Prop
  | _, _, _, [] => True
  | front, left, [], _ :: packets =>
      FULL_ENTRY ≤ left ∧ Completes front (left - FULL_ENTRY) [] packets
  | front, left, chunk :: chunks, packet :: packets =>
      if FULL_ENTRY ≤ left then
        Completes front (left - FULL_ENTRY) (chunk :: chunks) packets
      else if FULL_ENTRY ≤ left + chunk.length then
        Completes packet (left + chunk.length - FULL_ENTRY) chunks packets
      else
        packets = [] ∧ parse (packet.take (left + chunk.length) ++
          front.drop (left + chunk.length)) = parse packet

theorem completes_of_left {front packet : List UInt8} {left : Nat}
    {chunks packets : List (List UInt8)} (enough : FULL_ENTRY ≤ left) :
    Completes front left chunks (packet :: packets) ↔
      Completes front (left - FULL_ENTRY) chunks packets := by
  cases chunks with
  | nil => simp [Completes, enough]
  | cons chunk chunks => rw [Completes, if_pos enough]

/-- Reads of a packet or more complete one each. -/
theorem completes_of_length {front : List UInt8} {left : Nat} {chunks packets : List (List UInt8)}
    (long : ∀ chunk ∈ chunks, FULL_ENTRY ≤ chunk.length)
    (enough : packets.length * FULL_ENTRY ≤ left + chunks.flatten.length) :
    Completes front left chunks packets := by
  induction packets generalizing front left chunks with
  | nil => simp [Completes]
  | cons packet packets ih =>
      rw [List.length_cons, Nat.add_mul, Nat.one_mul] at enough
      by_cases le : FULL_ENTRY ≤ left
      · exact (completes_of_left le).mpr (ih long (by omega))
      · cases chunks with
        | nil =>
            rw [List.flatten_nil, List.length_nil] at enough
            omega
        | cons chunk chunks =>
            have chunk_long := long chunk List.mem_cons_self
            rw [List.flatten_cons, List.length_append] at enough
            rw [Completes, if_neg le, if_pos (by omega)]
            exact ih (fun later mem => long later (List.mem_cons_of_mem _ mem)) (by omega)

section Chunks

variable {padding : Nat → Padding} {index : Nat} {dir : ReadDir} {chunks : List (List UInt8)}
  {entries : List DirEntry}

theorem remaining_advance (dir : ReadDir) (hasNext : Bool) :
    (dir.advance hasNext).remaining = dir.remaining - FULL_ENTRY := Nat.sub_add_eq _ _ _

theorem encode_eq_nil : encode padding index entries = [] ↔ entries = [] := by
  cases entries <;> simp [encode]

theorem length_of_mem_encode {packet : List UInt8} (mem : packet ∈ encode padding index entries) :
    packet.length = FULL_ENTRY := by
  induction entries generalizing index with
  | nil => cases mem
  | cons entry entries ih =>
      rw [encode, List.mem_cons] at mem
      rcases mem with rfl | mem
      · exact length_dirPacket ..
      · exact ih mem

theorem length_flatten_encode :
    (encode padding index entries).flatten.length = entries.length * FULL_ENTRY := by
  induction entries generalizing index with
  | nil => exact (Nat.zero_mul _).symm
  | cons entry entries ih =>
      rw [encode, List.flatten_cons, List.length_append, length_dirPacket, ih, List.length_cons,
        Nat.succ_mul, Nat.add_comm]

/-- A packet that has been read is decoded, and the iterator is done or goes on behind it. -/
theorem Ready.yields_decoded {start : ReadDir} {reads : Reads} {entry : DirEntry}
    (ready : Ready dir chunks (encode padding index (entry :: entries)))
    (short : entry.bytes.length ≤ NAME_SIZE) (enough : FULL_ENTRY ≤ dir.remaining)
    (next_eq : start.next reads = dir.decode.map fun (item, after) => (item, after, chunks.map .ok))
    (rest : Ready (dir.advance true) chunks (encode padding (index + 1) entries) →
      ((dir.advance true).Yields (chunks.map .ok) entries ↔
        Completes (dir.buffer.take FULL_ENTRY) (dir.advance true).remaining chunks
          (encode padding (index + 1) entries))) :
    start.Yields reads (entry :: entries) ↔
      Completes (dir.buffer.take FULL_ENTRY) (dir.remaining - FULL_ENTRY) chunks
        (encode padding (index + 1) entries) := by
  rw [encode] at ready
  have parse_eq : parse ((dir.buffer.drop dir.cursor).take FULL_ENTRY) =
      .entry entry (!entries.isEmpty) := by
    rw [ready.front_eq (length_dirPacket ..) enough, parse_dirPacket short]
  rw [decode_entry ready.unfinished parse_eq] at next_eq
  rw [yields_cons_iff next_eq]
  cases entries with
  | nil =>
      have finished : (dir.advance false).finished = true := rfl
      simp [yields_finished_iff finished, encode, Completes]
  | cons second entries =>
      rw [← remaining_advance dir true]
      exact rest (ready.advance (length_dirPacket ..) enough)

/-- A packet that has been read in part is decoded as far as it goes. -/
theorem Ready.yields_cut {chunk : List UInt8} {entry : DirEntry}
    (ready : Ready dir (chunk :: chunks) (encode padding index (entry :: entries)))
    (nonempty : chunk ≠ []) (less : dir.remaining + chunk.length < FULL_ENTRY) :
    dir.Yields ((chunk :: chunks).map .ok) (entry :: entries) ↔ entries = [] ∧
      parse ((dir.refilled chunk).buffer.take FULL_ENTRY) = .entry entry false := by
  have small : FULL_ENTRY ≤ WINDOW := by decide
  have next_eq : dir.next (.ok chunk :: chunks.map .ok) =
      (dir.refilled chunk).decode.map fun (item, after) => (item, after, chunks.map .ok) :=
    next_of_refill ready.unfinished (ready.limit_le.trans_eq ready.length_eq.symm)
      ready.cursor_le (by omega) nonempty (by omega)
  have unfinished : (dir.refilled chunk).finished = false := ready.unfinished
  constructor
  · intro yields
    obtain ⟨after, later, first_eq⟩ := yields.next_eq
    obtain ⟨⟨item, state⟩, decode_eq, same⟩ := map_eq_ok.mp (next_eq.symm.trans first_eq)
    cases same
    obtain ⟨hasNext, parse_eq, rfl⟩ := decode_eq_some unfinished decode_eq
    rw [yields_cons_iff first_eq] at yields
    cases hasNext with
    | false => exact ⟨(yields_finished_iff rfl).mp yields, parse_eq⟩
    | true =>
        refine absurd yields (not_yields_of_lt rfl ?_)
        simp only [ReadDir.advance, ReadDir.refilled, Nat.zero_add]
        exact less
  · rintro ⟨rfl, parse_eq⟩
    rw [decode_entry unfinished parse_eq] at next_eq
    rw [List.map_cons, yields_cons_iff next_eq]
    exact (yields_finished_iff rfl).mpr rfl

/-- The iterator yields the entries if and only if the reads complete their packets. -/
theorem Ready.yields_iff (ready : Ready dir chunks (encode padding index entries))
    (short : ∀ entry ∈ entries, entry.bytes.length ≤ NAME_SIZE)
    (nonempty : ∀ chunk ∈ chunks, chunk ≠ []) (small : ∀ chunk ∈ chunks, chunk.length ≤ TEMP_SIZE) :
    dir.Yields (chunks.map .ok) entries ↔
      Completes (dir.buffer.take FULL_ENTRY) dir.remaining chunks
        (encode padding index entries) := by
  induction entries generalizing dir chunks index with
  | nil =>
      obtain ⟨unread_nil, flatten_nil⟩ := List.append_eq_nil_iff.mp ready.stream_eq
      have chunks_nil : chunks = [] := by
        refine List.eq_nil_iff_forall_not_mem.mpr fun chunk mem => nonempty chunk mem ?_
        exact List.flatten_eq_nil_iff.mp flatten_nil chunk mem
      have nothing : dir.remaining = 0 := by rw [← ready.length_unread, unread_nil, List.length_nil]
      obtain ⟨after, next_eq, finished⟩ := next_of_end ready.unfinished ready.cursor_le nothing
      subst chunks_nil
      simp only [encode, Completes, iff_true]
      exact yields_nil_of_next next_eq finished
  | cons entry entries ih =>
      have entry_short := short entry List.mem_cons_self
      have rest_short (later : DirEntry) (mem : later ∈ entries) : later.bytes.length ≤ NAME_SIZE :=
        short later (List.mem_cons_of_mem _ mem)
      have step := ready
      rw [encode] at step ⊢
      by_cases enough : FULL_ENTRY ≤ dir.remaining
      · rw [completes_of_left enough]
        exact ready.yields_decoded entry_short enough
          (next_of_enough ready.unfinished ready.cursor_le enough)
          fun rest => ih rest rest_short nonempty small
      · cases chunks with
        | nil =>
            have lengths := congrArg List.length step.stream_eq
            rw [List.flatten_nil, List.append_nil, ready.length_unread, List.flatten_cons,
              List.length_append, length_dirPacket] at lengths
            omega
        | cons chunk chunks =>
            have chunk_small := small chunk List.mem_cons_self
            have chunk_nonempty := nonempty chunk List.mem_cons_self
            have room : dir.remaining + chunk.length ≤ WINDOW := by
              have window : FULL_ENTRY + TEMP_SIZE ≤ WINDOW := by decide
              omega
            rw [Completes, if_neg enough]
            split
            next full =>
              have after := ready.refilled room
              have front_eq : (dir.refilled chunk).buffer.take FULL_ENTRY =
                  dirPacket (padding index) (!entries.isEmpty) entry.kind.entryType entry.bytes :=
                (step.refilled room).front_eq (length_dirPacket ..) full
              rw [← front_eq]
              refine after.yields_decoded entry_short full ?_ fun rest => ih rest rest_short ?_ ?_
              · exact next_of_refill ready.unfinished
                  (ready.limit_le.trans_eq ready.length_eq.symm) ready.cursor_le (by omega)
                  chunk_nonempty room
              · exact fun later mem => nonempty later (List.mem_cons_of_mem _ mem)
              · exact fun later mem => small later (List.mem_cons_of_mem _ mem)
            next less =>
              rw [ready.yields_cut chunk_nonempty (by omega), encode_eq_nil,
                step.front_refilled (length_dirPacket ..) (by omega), parse_dirPacket entry_short]
              refine and_congr_right ?_
              rintro rfl
              rfl

end Chunks

/-- The iterator yields the entries of a listing in exactly the splits of its packets in which each
read completes the packet that is to be decoded, or what it leaves out of the last one makes no
difference. -/
theorem yields_iff_completes {padding : Nat → Padding} {entries : List DirEntry}
    {chunks : List (List UInt8)} (short : ∀ entry ∈ entries, entry.bytes.length ≤ NAME_SIZE)
    (stream_eq : chunks.flatten = (encode padding 0 entries).flatten)
    (nonempty : ∀ chunk ∈ chunks, chunk ≠ [])
    (small : ∀ chunk ∈ chunks, chunk.length ≤ TEMP_SIZE) :
    new.Yields (chunks.map .ok) entries ↔
      Completes (List.replicate FULL_ENTRY 0) 0 chunks (encode padding 0 entries) := by
  have iff := (Ready.new stream_eq).yields_iff short nonempty small
  rwa [ReadDir.new, List.take_replicate] at iff

/-- Padding of zeros. -/
def blank (_ : Nat) : Padding := .replicate 4 0

/-- Two entries. -/
def twoEntries : List DirEntry := [⟨"a", .Directory⟩, ⟨"b", .File⟩]

theorem twoEntries_short : ∀ entry ∈ twoEntries, entry.bytes.length ≤ NAME_SIZE := by
  intro entry mem
  simp only [twoEntries, List.mem_cons, List.not_mem_nil, or_false] at mem
  rcases mem with rfl | rfl
  · decide
  · decide

/-- A listing that arrives packet by packet. -/
theorem yields_iff_completes_two :
    ReadDir.new.Yields ((encode blank 0 twoEntries).map .ok) twoEntries := by
  -- the packets are kept from being evaluated
  obtain ⟨packets, packets_eq⟩ : ∃ packets, packets = encode blank 0 twoEntries := ⟨_, rfl⟩
  have length_eq (packet : List UInt8) (mem : packet ∈ packets) : packet.length = FULL_ENTRY :=
    length_of_mem_encode (packets_eq ▸ mem)
  have nonempty (packet : List UInt8) (mem : packet ∈ packets) : packet ≠ [] := by
    rintro rfl
    cases length_eq [] mem
  have small (packet : List UInt8) (mem : packet ∈ packets) : packet.length ≤ TEMP_SIZE := by
    rw [length_eq packet mem]
    decide
  have enough : (encode blank 0 twoEntries).length * FULL_ENTRY ≤ 0 + packets.flatten.length := by
    simp [packets_eq, encode, twoEntries, Nat.two_mul]
  rw [← packets_eq]
  refine (yields_iff_completes twoEntries_short (congrArg _ packets_eq) nonempty small).mpr ?_
  exact completes_of_length (fun packet mem => (length_eq packet mem).ge) enough

/-- The packets of two entries, of which the first read brings 100 bytes. -/
def early : List (List UInt8) :=
  [(encode blank 0 twoEntries).flatten.take 100, (encode blank 0 twoEntries).flatten.drop 100]

/-- The entries are not yielded when the first read is too short. -/
theorem short_read_breaks_listing :
    early.flatten = (encode blank 0 twoEntries).flatten ∧
      (∀ chunk ∈ early, chunk ≠ [] ∧ chunk.length ≤ TEMP_SIZE) ∧
      ¬ ReadDir.new.Yields (early.map .ok) twoEntries := by
  have stream_eq : early.flatten = (encode blank 0 twoEntries).flatten := by simp [early]
  have length_eq : (encode blank 0 twoEntries).flatten.length = 560 := length_flatten_encode
  -- the two reads are kept from being evaluated
  obtain ⟨first, second, early_eq, first_length, second_length⟩ :
      ∃ first second, early = [first, second] ∧ first.length = 100 ∧ second.length = 460 :=
    ⟨_, _, rfl, by rw [List.length_take, length_eq]; omega, by rw [List.length_drop, length_eq]⟩
  rw [early_eq] at stream_eq ⊢
  have first_nonempty : first ≠ [] := List.ne_nil_of_length_pos (by omega)
  refine ⟨stream_eq, ?_, fun yields => ?_⟩
  · have first_small : first.length ≤ TEMP_SIZE := by rw [first_length]; decide
    have second_small : second.length ≤ TEMP_SIZE := by rw [second_length]; decide
    simp only [List.mem_cons, List.not_mem_nil, or_false]
    rintro chunk (rfl | rfl)
    · exact ⟨first_nonempty, first_small⟩
    · exact ⟨List.ne_nil_of_length_pos (by omega), second_small⟩
  · have less : new.remaining + first.length < FULL_ENTRY := by
      rw [first_length]
      decide
    cases ((Ready.new stream_eq).yields_cut first_nonempty less |>.mp yields).1

/-!
### From the kernel's directory to the program
-/

theorem length_encode {padding : Nat → Padding} {index : Nat} {entries : List DirEntry} :
    (encode padding index entries).length = entries.length := by
  induction entries generalizing index with
  | nil => rfl
  | cons entry entries ih => rw [encode, List.length_cons, ih, List.length_cons]

/-- The names of a directory fit an entry. -/
theorem listed_short {directory : Directory} :
    ∀ entry ∈ directory.tree.map listed, entry.bytes.length ≤ NAME_SIZE := by
  intro entry mem
  obtain ⟨⟨filename, typeName⟩, -, rfl⟩ := List.mem_map.mp mem
  exact filename.short

/-- A listing to a sink that takes every packet whole succeeds.  A program that reads it in pieces
of a packet or more, wherever these end, is given every entry of the directory once, in the order of
the names and with its name and kind, and then nothing. -/
theorem listing_round_trip {directory : Directory} {sink : Sink} (padding : Nat → Padding)
    (taken : ∀ index < directory.tree.length, sink.answer index = .ok FULL_ENTRY) :
    ∃ accepted, directory.listContents padding (.ok sink) = (.ok 0, accepted) ∧
      accepted.length = directory.tree.length * FULL_ENTRY ∧
      ∀ chunks : List (List UInt8), chunks.flatten = accepted →
        (∀ chunk ∈ chunks, FULL_ENTRY ≤ chunk.length ∧ chunk.length ≤ TEMP_SIZE) →
        ReadDir.new.Yields (chunks.map .ok) (directory.tree.map listed) := by
  have answered (place : Nat) (lt : place < directory.tree.length) :
      ∃ count, sink.answer (0 + place) = .ok count :=
    ⟨FULL_ENTRY, by rw [Nat.zero_add]; exact taken place lt⟩
  obtain ⟨accepted, list_eq, -, -, accepted_eq⟩ :=
    Directory.listLoop_of_answers padding 0 answered
  have packets_eq : accepted = (encode padding 0 (directory.tree.map listed)).flatten := by
    rw [← packetsFrom_eq_encode]
    exact accepted_eq (by simpa using taken)
  refine ⟨accepted, list_eq, by rw [packets_eq, length_flatten_encode, List.length_map],
    fun chunks stream_eq sizes => ?_⟩
  rw [packets_eq] at stream_eq
  have nonempty (chunk : List UInt8) (mem : chunk ∈ chunks) : chunk ≠ [] := by
    have long := (sizes chunk mem).1
    rintro rfl
    cases long
  refine ((Ready.new stream_eq).yields_iff listed_short nonempty
    fun chunk mem => (sizes chunk mem).2).mpr ?_
  refine completes_of_length (fun chunk mem => (sizes chunk mem).1) ?_
  rw [stream_eq, length_flatten_encode, length_encode]
  exact Nat.le_add_left _ _

/-- A sink that takes all it is offered. -/
def openSink : Sink where
  answer _ := .ok FULL_ENTRY
  takes _ _ count_eq := by
    obtain rfl := Except.ok.inj count_eq
    decide

/-- A directory of a directory, a file and a socket. -/
def three : Directory where
  tree := [(Directory.letter 'a', "Directory"), (Directory.letter 'b', "File"),
    (Directory.letter 'c', "Socket")]
  sorted := by decide

/-- Three entries, read in two halves. -/
theorem listing_round_trip_three :
    ∃ accepted, three.listContents blank (.ok openSink) = (.ok 0, accepted) ∧
      ReadDir.new.Yields ([accepted.take 420, accepted.drop 420].map .ok)
        [⟨"a", .Directory⟩, ⟨"b", .File⟩, ⟨"c", .Object⟩] := by
  obtain ⟨accepted, list_eq, length_eq, yields⟩ :=
    @listing_round_trip three openSink blank fun _ _ => rfl
  refine ⟨accepted, list_eq, yields _ (by simp) fun chunk mem => ?_⟩
  have length_eq : accepted.length = 840 := length_eq
  simp only [List.mem_cons, List.not_mem_nil, or_false] at mem
  obtain rfl | rfl := mem
  · rw [List.length_take, length_eq]
    decide
  · rw [List.length_drop, length_eq]
    decide

end ReadDir

end Vespertine
