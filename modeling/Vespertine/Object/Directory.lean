import Vespertine.Object.Protocol
import Vespertine.Object.Socket

/-!
# Directory listings

A listing writes one packet for each entry of a directory to a sink, in the order of the names.
Each packet is offered in one write, and how much of it the sink takes is not looked at.

The sink is given by its answers to the writes; a socket takes what its ring has room for.
-/

namespace Vespertine

def FILENAME_LEN_MAX : Nat := 254

structure Filename where
  name : String
  short : name.utf8ByteSize ≤ FILENAME_LEN_MAX

/-- `as_bytes`. -/
def Filename.bytes (filename : Filename) : List UInt8 := filename.name.toUTF8.data.toList

/-- The entries of a directory in the order of their names, each with the type name of its
object. -/
structure Directory where
  tree : List (Filename × String)
  sorted : tree.Pairwise fun first second => first.1.bytes < second.1.bytes

/-- What an object is listed as. -/
def listedType (typeName : String) : DirEntryType :=
  if typeName = "Directory" then .Directory else if typeName = "File" then .File else .Object

/-- The answers of a sink to the writes of a listing, each of which takes some of what is
offered. -/
structure Sink where
  answer : Nat → Except InvocationError Nat
  takes : ∀ index count, answer index = .ok count → 0 < count ∧ count ≤ FULL_ENTRY

namespace Directory

/-- The loop of `list_contents` from a write on: its result, and the bytes that the sink took. -/
def listLoop (padding : Nat → Padding) (sink : Sink) :
    Nat → List (Filename × String) → Except InvocationError Nat × List UInt8
  | _, [] => (.ok 0, [])
  | index, (filename, typeName) :: rest =>
      let buffer := dirPacket (padding index) (!rest.isEmpty) (listedType typeName) filename.bytes
      match sink.answer index with
      | .error problem => (.error problem, [])
      | .ok count =>
          let later := listLoop padding sink (index + 1) rest
          (later.1, buffer.take count ++ later.2)

/-- `list_contents`, with the sink that its handle resolves to. -/
def listContents (directory : Directory) (padding : Nat → Padding)
    (sink : Except InvocationError Sink) : Except InvocationError Nat × List UInt8 :=
  match sink with
  | .error problem => (.error problem, [])
  | .ok sink => listLoop padding sink 0 directory.tree

/-- One packet for each entry, with the flag for more on all but the last. -/
def packetsFrom (padding : Nat → Padding) : Nat → List (Filename × String) → List (List UInt8)
  | _, [] => []
  | index, (filename, typeName) :: rest =>
      dirPacket (padding index) (!rest.isEmpty) (listedType typeName) filename.bytes ::
        packetsFrom padding (index + 1) rest

def packets (directory : Directory) (padding : Nat → Padding) : List (List UInt8) :=
  packetsFrom padding 0 directory.tree

/-- When a listing succeeds, the sink has taken all packets. -/
def SendsWhole (directory : Directory) (padding : Nat → Padding) (sink : Sink) : Prop :=
  ∀ result accepted, directory.listContents padding (.ok sink) = (.ok result, accepted) →
    accepted = (directory.packets padding).flatten

section Listing

variable {padding : Nat → Padding} {sink : Sink} {index : Nat} {entries : List (Filename × String)}

theorem length_packetsFrom : (packetsFrom padding index entries).flatten.length =
    entries.length * FULL_ENTRY := by
  induction entries generalizing index with
  | nil => simp [packetsFrom]
  | cons entry entries ih =>
      obtain ⟨filename, typeName⟩ := entry
      rw [packetsFrom, List.flatten_cons, List.length_append, ih, length_dirPacket,
        List.length_cons]
      ring

/-- A listing fails if a write does. -/
theorem listLoop_ok {result : Nat} {accepted : List UInt8}
    (loop_eq : listLoop padding sink index entries = (.ok result, accepted)) :
    ∀ place < entries.length, ∃ count, sink.answer (index + place) = .ok count := by
  induction entries generalizing index accepted with
  | nil => simp
  | cons entry entries ih =>
      obtain ⟨filename, typeName⟩ := entry
      intro place lt
      rw [listLoop] at loop_eq
      cases answer_eq : sink.answer index with
      | error problem =>
          rw [answer_eq] at loop_eq
          cases loop_eq
      | ok count =>
          rw [answer_eq] at loop_eq
          cases place with
          | zero => exact ⟨count, answer_eq⟩
          | succ place =>
              have result_eq : (listLoop padding sink (index + 1) entries).1 = .ok result :=
                congrArg Prod.fst loop_eq
              have rest_eq : listLoop padding sink (index + 1) entries = (.ok result,
                  (listLoop padding sink (index + 1) entries).2) := Prod.ext result_eq rfl
              rw [List.length_cons] at lt
              obtain ⟨later, later_eq⟩ := ih rest_eq place (by omega)
              exact ⟨later, by rw [← later_eq, Nat.add_assoc, Nat.add_comm 1]⟩

/-- A listing succeeds if all writes do, and then it takes that many bytes. -/
theorem listLoop_of_answers (padding : Nat → Padding) (index : Nat)
    (answered : ∀ place < entries.length, ∃ count, sink.answer (index + place) = .ok count) :
    ∃ accepted, listLoop padding sink index entries = (.ok 0, accepted) ∧
      accepted.length ≤ entries.length * FULL_ENTRY ∧
      (accepted.length = entries.length * FULL_ENTRY →
        ∀ place < entries.length, sink.answer (index + place) = .ok FULL_ENTRY) ∧
      ((∀ place < entries.length, sink.answer (index + place) = .ok FULL_ENTRY) →
        accepted = (packetsFrom padding index entries).flatten) := by
  induction entries generalizing index with
  | nil => exact ⟨[], rfl, by simp, by simp, fun _ => rfl⟩
  | cons entry entries ih =>
      obtain ⟨filename, typeName⟩ := entry
      have shift (place : Nat) : index + 1 + place = index + (place + 1) := by omega
      obtain ⟨count, count_eq⟩ := answered 0 (by simp)
      have later (place : Nat) (lt : place < entries.length) :
          ∃ count, sink.answer (index + 1 + place) = .ok count := by
        rw [shift]
        exact answered (place + 1) (by simpa using lt)
      obtain ⟨accepted, rest_eq, bound, all_of_length, flatten_eq⟩ := ih (index + 1) later
      obtain ⟨_, count_le⟩ := sink.takes _ _ count_eq
      let buffer :=
        dirPacket (padding index) (!entries.isEmpty) (listedType typeName) filename.bytes
      have taken_length : (buffer.take count).length = count := by simp [buffer, count_le]
      refine ⟨buffer.take count ++ accepted, ?_, ?_, ?_, ?_⟩
      · rw [listLoop, show sink.answer index = .ok count from count_eq, rest_eq]
      · rw [List.length_append, taken_length, List.length_cons, Nat.add_mul]
        omega
      · rw [List.length_append, taken_length, List.length_cons, Nat.add_mul, Nat.one_mul]
        intro total place lt
        cases place with
        | zero =>
            obtain rfl : count = FULL_ENTRY := by omega
            exact count_eq
        | succ place =>
            rw [← shift]
            exact all_of_length (by omega) place (by simpa using lt)
      · intro whole
        obtain rfl : count = FULL_ENTRY :=
          Except.ok.inj (count_eq.symm.trans (whole 0 (by simp)))
        rw [packetsFrom, List.flatten_cons, List.take_of_length_le (by simp [buffer]),
          flatten_eq fun place lt => ?_]
        rw [shift]
        exact whole (place + 1) (by simpa using lt)

end Listing

/-- Packets that arrive whole have been taken whole, one write each. -/
theorem SendsWhole.answers {directory : Directory} {padding : Nat → Padding} {sink : Sink}
    (whole : directory.SendsWhole padding sink)
    (answered : ∀ index < directory.tree.length, ∃ count, sink.answer index = .ok count) :
    ∀ index < directory.tree.length, sink.answer index = .ok FULL_ENTRY := by
  obtain ⟨accepted, loop_eq, _, all_of_length, _⟩ :=
    listLoop_of_answers padding 0 (by simpa using answered)
  have accepted_eq := whole 0 accepted loop_eq
  have all := all_of_length (by rw [accepted_eq, packets, length_packetsFrom])
  simpa using all

/-- A listing sends whole packets to exactly the sinks that refuse a write or take all of each. -/
theorem sends_whole_iff_taken_whole (directory : Directory) (padding : Nat → Padding)
    (sink : Sink) :
    directory.SendsWhole padding sink ↔
      ((∀ index < directory.tree.length, ∃ count, sink.answer index = .ok count) →
        ∀ index < directory.tree.length, sink.answer index = .ok FULL_ENTRY) := by
  refine ⟨SendsWhole.answers, fun condition result accepted list_eq => ?_⟩
  have answered := listLoop_ok list_eq
  have all := condition (by simpa using answered)
  obtain ⟨accepted', loop_eq, _, _, flatten_eq⟩ := listLoop_of_answers padding 0 answered
  cases list_eq.symm.trans loop_eq
  exact flatten_eq (by simpa using all)

/-!
### Sockets as sinks
-/

/-- A socket takes what its ring has room for. -/
theorem writeAsync_count {pair : SocketPair} {side : Side} {buffer : List UInt8} {copied : Bool}
    {waker : Waker} {count : Nat} (length_eq : buffer.length = FULL_ENTRY)
    (poll_eq : (pair.writeAsync side buffer copied waker).1.poll = .ready (.ok count)) :
    count = min FULL_ENTRY (BUFFER_SIZE - (pair.writeBus side).buffer.len - 1) ∧ 0 < count := by
  have lt := (pair.writeBus side).buffer.len_lt
  have short : buffer.take TEMP_SIZE = buffer :=
    List.take_of_length_le (by rw [length_eq]; decide)
  rw [SocketPair.writeAsync, SocketPair.writeRefused, length_eq, short] at poll_eq
  split at poll_eq
  next refused =>
    split_ifs at refused with _ empty
    · cases refused
      cases poll_eq
    · exact absurd empty (by decide)
    · cases refused
      cases poll_eq
  next =>
    simp only [SocketPair.writeLocked] at poll_eq
    split_ifs at poll_eq with _ full
    · cases poll_eq
    · cases poll_eq
    · have count_eq : min buffer.length (pair.writeBus side).buffer.availableSpace = count :=
        Except.ok.inj (Poll.ready.inj poll_eq)
      rw [RingBuffer.availableSpace_eq, length_eq] at count_eq
      have room := RingBuffer.isFull_iff.not.mp full
      have positive : 0 < FULL_ENTRY := by decide
      exact ⟨count_eq.symm, by omega⟩

/-- The packets of a listing are written to a socket, which is in the given state at each write. -/
def WritesTo (directory : Directory) (padding : Nat → Padding) (sink : Sink)
    (pairs : Nat → SocketPair) (side : Side) (waker : Waker) : Prop :=
  ∀ index packet, (directory.packets padding)[index]? = some packet →
    ((pairs index).writeAsync side packet true waker).1.poll = .ready (sink.answer index)

/-- There is a packet for every entry, and each has the same length. -/
theorem packetsFrom_get (padding : Nat → Padding) (first : Nat)
    {entries : List (Filename × String)} {index : Nat} (lt : index < entries.length) :
    ∃ packet, (packetsFrom padding first entries)[index]? = some packet ∧
      packet.length = FULL_ENTRY := by
  induction entries generalizing first index with
  | nil => exact absurd lt (Nat.not_lt_zero _)
  | cons entry entries ih =>
      obtain ⟨filename, typeName⟩ := entry
      rw [packetsFrom]
      cases index with
      | zero => exact ⟨_, rfl, length_dirPacket ..⟩
      | succ index => exact ih (first + 1) (Nat.lt_of_succ_lt_succ lt)

/-- A listing sends whole packets to a socket if and only if a write is refused or the ring has room
for a whole packet, at most 3815 bytes being in it, at each write. -/
theorem sends_whole_to_socket_iff {directory : Directory} {padding : Nat → Padding} {sink : Sink}
    {pairs : Nat → SocketPair} {side : Side} {waker : Waker}
    (writes : directory.WritesTo padding sink pairs side waker) :
    directory.SendsWhole padding sink ↔
      ((∀ index < directory.tree.length, ∃ count, sink.answer index = .ok count) →
        ∀ index < directory.tree.length, ((pairs index).writeBus side).buffer.len ≤ 3815) := by
  rw [sends_whole_iff_taken_whole]
  refine imp_congr_right fun answered => forall₂_congr fun index lt => ?_
  obtain ⟨packet, packet_eq, length_eq⟩ := packetsFrom_get padding 0 lt
  obtain ⟨count, count_eq⟩ := answered index lt
  have poll_eq := writes index packet packet_eq
  rw [count_eq] at poll_eq
  obtain ⟨taken, -⟩ := writeAsync_count length_eq poll_eq
  rw [count_eq, Except.ok.injEq, taken]
  have ring : BUFFER_SIZE = 4096 := rfl
  have entry : FULL_ENTRY = 280 := rfl
  omega

/-- A socket whose ring holds the given number of bytes at each write. -/
def ringSink (fill : Nat → Nat) (room : ∀ index, fill index + 1 < BUFFER_SIZE) : Sink where
  answer index := .ok (min FULL_ENTRY (BUFFER_SIZE - fill index - 1))
  takes index count count_eq := by
    obtain rfl := Except.ok.inj count_eq
    have positive : 0 < FULL_ENTRY := by decide
    have := room index
    omega

/-- The name of one letter. -/
def letter (char : Char) : Filename where
  name := .singleton char
  short := by
    have := char.utf8Size_le_four
    rw [String.utf8ByteSize_singleton, FILENAME_LEN_MAX]
    omega

/-- A directory of fifteen files. -/
def fifteen : Directory where
  tree := ['a', 'b', 'c', 'd', 'e', 'f', 'g', 'h', 'i', 'j', 'k', 'l', 'm', 'n', 'o'].map
    fun char => (letter char, "File")
  sorted := by decide

/-- A socket that nobody reads during the listing. -/
def unread : Sink :=
  ringSink (fun index => min (index * FULL_ENTRY) (BUFFER_SIZE - 2)) fun index => by
    have : min (index * FULL_ENTRY) (BUFFER_SIZE - 2) ≤ BUFFER_SIZE - 2 := Nat.min_le_right _ _
    simp only [BUFFER_SIZE] at this ⊢
    omega

/-- The listing succeeds, and of the last packet there is only the part that there was room for. -/
theorem packet_cut :
    (∃ accepted, fifteen.listContents (fun _ => .replicate 4 0) (.ok unread) = (.ok 0, accepted)) ∧
      unread.answer 14 = .ok 175 ∧ ¬ fifteen.SendsWhole (fun _ => .replicate 4 0) unread := by
  have answered : ∀ index < fifteen.tree.length, ∃ count, unread.answer index = .ok count :=
    fun index _ => ⟨_, rfl⟩
  obtain ⟨accepted, loop_eq, _⟩ :=
    listLoop_of_answers (fun _ => .replicate 4 0) 0 (by simpa using answered)
  refine ⟨⟨accepted, loop_eq⟩, rfl, fun whole => ?_⟩
  cases whole.answers answered 14 (by decide)

end Directory
end Vespertine
