import Vespertine.Drivers.PciConfig
import Vespertine.Library.LinkChain

/-!
# Walking the capability list

The capabilities of a device are linked by pointers in its configuration space.  The walk follows
them until one is zero, and adds up to 16 to each of them in 8 bits.  So the list must end, and
the capabilities that are read must lie inside the space.
-/

namespace Vespertine
namespace Pci

def readByteSlice (value : BitVec 32) (sliceIdx : BitVec 8) : BitVec 8 :=
  let startBit := sliceIdx * 8
  (value >>> startBit &&& 0xFF).setWidth 8

structure VirtioCapability where
  capId : BitVec 8
  nextCap : BitVec 8
  len : BitVec 8
  cfgType : BitVec 8
  barIdx : BitVec 8
  barOffset : BitVec 32
  barLen : BitVec 32
  notifyOffMultiplier : BitVec 32

/-- A walk, with the pointers that it has followed and what it has added to them. -/
structure Walk where
  space : ConfigSpace
  caps : List VirtioCapability
  visited : List (BitVec 8)
  reads : List (BitVec 8 × BitVec 8)

namespace Walk

/-- Read behind a pointer. -/
def read (walk : Walk) (dev : PCIDevice) (currentPtr delta : BitVec 8) : BitVec 32 × Walk :=
  let (value, space) :=
    walk.space.pciConfigRead32 dev.bus dev.slot dev.func (currentPtr + delta)
  (value, { walk with space, reads := walk.reads ++ [(currentPtr, delta)] })

/-- One round of the loop, with the next pointer. -/
def visit (walk : Walk) (dev : PCIDevice) (currentPtr : BitVec 8) : BitVec 8 × Walk :=
  let walk := { walk with visited := walk.visited ++ [currentPtr] }
  let (cap, walk) := walk.read dev currentPtr 0
  let capId := readByteSlice cap 0
  let nextCap := readByteSlice cap 1
  let len := readByteSlice cap 2
  let cfgType := readByteSlice cap 3
  if capId = 0x9 then
    let (bar, walk) := walk.read dev currentPtr 4
    let barIdx := readByteSlice bar 0
    let (barOffset, walk) := walk.read dev currentPtr 8
    let (barLen, walk) := walk.read dev currentPtr 12
    let (notifyOffMultiplier, walk) :=
      if cfgType = 2 then walk.read dev currentPtr 16 else (0, walk)
    let capability :=
      ⟨capId, nextCap, len, cfgType, barIdx, barOffset, barLen, notifyOffMultiplier⟩
    (nextCap, { walk with caps := walk.caps ++ [capability] })
  else
    (nextCap, walk)

end Walk

/-- The loop; it may not end. -/
def walkLoop (dev : PCIDevice) : Nat → BitVec 8 → Walk → Option Walk
  | 0, _, _ => none
  | fuel + 1, currentPtr, walk =>
      if currentPtr ≠ 0 then
        let (nextCap, walk) := walk.visit dev currentPtr
        walkLoop dev fuel nextCap walk
      else
        some walk

def walkCap (space : ConfigSpace) (dev : PCIDevice) (fuel : Nat) : Option Walk :=
  let (head, space) := space.pciConfigRead32 dev.bus dev.slot dev.func 0x34
  let capPtr := (head &&& 0xFF).setWidth 8
  let walk := ⟨space, [], [], []⟩
  if capPtr = 0 then some walk else walkLoop dev fuel capPtr walk

/-! ## The list of a device -/

namespace ConfigSpace

variable (space : ConfigSpace) (dev : PCIDevice)

/-- The first pointer. -/
def capPtr : BitVec 8 := ((space.register dev 0x34).value &&& 0xFF).setWidth 8

/-- The first four bytes of a capability. -/
def header (ptr : BitVec 8) : BitVec 32 := (space.register dev ptr).value

def link (ptr : BitVec 8) : BitVec 8 := readByteSlice (space.header dev ptr) 1

/-- What is added to the pointer of a capability. -/
def deltas (ptr : BitVec 8) : List (BitVec 8) :=
  if readByteSlice (space.header dev ptr) 0 = 0x9 then
    if readByteSlice (space.header dev ptr) 3 = 2 then [0, 4, 8, 12, 16] else [0, 4, 8, 12]
  else
    [0]

/-- What is reported of a capability. -/
def capability (ptr : BitVec 8) : Option VirtioCapability :=
  if readByteSlice (space.header dev ptr) 0 = 0x9 then
    some
      { capId := readByteSlice (space.header dev ptr) 0
        nextCap := space.link dev ptr
        len := readByteSlice (space.header dev ptr) 2
        cfgType := readByteSlice (space.header dev ptr) 3
        barIdx := readByteSlice (space.header dev (ptr + 4)) 0
        barOffset := space.header dev (ptr + 8)
        barLen := space.header dev (ptr + 12)
        notifyOffMultiplier :=
          if readByteSlice (space.header dev ptr) 3 = 2 then space.header dev (ptr + 16) else 0 }
  else
    none

/-- A virtio capability ends inside the space. -/
def Fits (ptr : BitVec 8) : Prop :=
  readByteSlice (space.header dev ptr) 0 = 0x9 →
    ptr.toNat + (if readByteSlice (space.header dev ptr) 3 = 2 then 16 else 12) < 256

end ConfigSpace

/-- The pointers reach zero within 64 links, and the capabilities before it fit. -/
structure ConfigSpace.WellLinked (space : ConfigSpace) (dev : PCIDevice) : Prop where
  ends : ∃ steps ≤ 64, (space.link dev)^[steps] (space.capPtr dev) = 0
  fits : ∀ count, (∀ step ≤ count, (space.link dev)^[step] (space.capPtr dev) ≠ 0) →
    space.Fits dev ((space.link dev)^[count] (space.capPtr dev))

/-- The walk has followed the pointers of a list. -/
structure Walk.Covers (walk : Walk) (space : ConfigSpace) (dev : PCIDevice)
    (pointers : List (BitVec 8)) : Prop where
  registers_eq : walk.space.registers = space.registers
  visited_eq : walk.visited = pointers
  reads_eq : walk.reads = pointers.flatMap fun ptr => (space.deltas dev ptr).map (Prod.mk ptr)
  caps_eq : walk.caps = pointers.filterMap (space.capability dev)

section Covers

variable {space : ConfigSpace} {dev : PCIDevice} {walk : Walk} {pointers : List (BitVec 8)}

theorem Walk.read_eq (address : BitVec 32) (caps : List VirtioCapability)
    (visited : List (BitVec 8)) (reads : List (BitVec 8 × BitVec 8)) (ptr delta : BitVec 8) :
    Walk.read ⟨⟨address, space.registers⟩, caps, visited, reads⟩ dev ptr delta =
      (space.header dev (ptr + delta),
        ⟨⟨pciBuildAddr dev.bus dev.slot dev.func (ptr + delta), space.registers⟩, caps, visited,
          reads ++ [(ptr, delta)]⟩) := rfl

/-- One round follows one link. -/
theorem Walk.Covers.visit (covers : walk.Covers space dev pointers) (ptr : BitVec 8) :
    ∃ next, walk.visit dev ptr = (space.link dev ptr, next) ∧
      next.Covers space dev (pointers ++ [ptr]) := by
  obtain ⟨⟨address, registers⟩, caps, visited, reads⟩ := walk
  obtain ⟨registers_eq, visited_eq, reads_eq, caps_eq⟩ := covers
  dsimp only at registers_eq visited_eq reads_eq caps_eq
  subst registers_eq visited_eq reads_eq caps_eq
  have unmoved : ptr + 0 = ptr := BitVec.add_zero ptr
  by_cases virtio : readByteSlice (space.header dev ptr) 0 = 0x9
  · by_cases notify : readByteSlice (space.header dev ptr) 3 = 2
    · simp only [Walk.visit, read_eq, unmoved, if_pos virtio, if_pos notify]
      refine ⟨_, rfl, rfl, rfl, ?_, ?_⟩
      · rw [List.flatMap_append, List.flatMap_singleton, ConfigSpace.deltas, if_pos virtio,
          if_pos notify]
        simp only [List.append_assoc]
        rfl
      · rw [List.filterMap_append, List.filterMap_cons, ConfigSpace.capability, if_pos virtio,
          if_pos notify]
        rfl
    · simp only [Walk.visit, read_eq, unmoved, if_pos virtio, if_neg notify]
      refine ⟨_, rfl, rfl, rfl, ?_, ?_⟩
      · rw [List.flatMap_append, List.flatMap_singleton, ConfigSpace.deltas, if_pos virtio,
          if_neg notify]
        simp only [List.append_assoc]
        rfl
      · rw [List.filterMap_append, List.filterMap_cons, ConfigSpace.capability, if_pos virtio,
          if_neg notify]
        rfl
  · simp only [Walk.visit, read_eq, unmoved, if_neg virtio]
    refine ⟨_, rfl, rfl, rfl, ?_, ?_⟩
    · rw [List.flatMap_append, List.flatMap_singleton, ConfigSpace.deltas, if_neg virtio]
      rfl
    · rw [List.filterMap_append, List.filterMap_cons, ConfigSpace.capability, if_neg virtio]
      exact (List.append_nil _).symm

/-- A walk that ends has followed the chain to its end. -/
theorem walkLoop_ok {fuel : Nat} {ptr : BitVec 8} {final : Walk}
    (covers : walk.Covers space dev pointers) (walk_eq : walkLoop dev fuel ptr walk = some final) :
    ∃ count, EndsAfter (space.link dev) 0 ptr count ∧
      final.Covers space dev (pointers ++ List.iterate (space.link dev) ptr count) := by
  induction fuel generalizing ptr walk pointers with
  | zero => cases walk_eq
  | succ fuel ih =>
      rw [walkLoop] at walk_eq
      by_cases more : ptr ≠ 0
      · rw [if_pos more] at walk_eq
        obtain ⟨next, visit_eq, visited⟩ := covers.visit ptr
        rw [visit_eq] at walk_eq
        obtain ⟨count, ends, covered⟩ := ih visited walk_eq
        refine ⟨count + 1, ends.succ more, ?_⟩
        rw [List.append_assoc] at covered
        exact covered
      · rw [if_neg more] at walk_eq
        cases walk_eq
        obtain rfl : ptr = 0 := not_not.mp more
        refine ⟨0, .zero, ?_⟩
        rw [List.iterate, List.append_nil]
        exact covers

/-- A walk along a chain that ends returns. -/
theorem walkLoop_returns {ptr : BitVec 8} {count : Nat}
    (covers : walk.Covers space dev pointers) (ends : EndsAfter (space.link dev) 0 ptr count) :
    ∃ final, walkLoop dev (count + 1) ptr walk = some final := by
  induction count generalizing ptr walk pointers with
  | zero =>
      have done : ¬ptr ≠ 0 := not_not.mpr ends.meets
      rw [walkLoop, if_neg done]
      exact ⟨walk, rfl⟩
  | succ count ih =>
      have more : ptr ≠ 0 := ends.before 0 (Nat.succ_pos count)
      obtain ⟨next, visit_eq, visited⟩ := covers.visit ptr
      rw [walkLoop, if_pos more, visit_eq]
      exact ih visited ends.tail

end Covers

/-! ## The whole walk -/

section WalkCap

variable {space : ConfigSpace} {dev : PCIDevice} {fuel : Nat} {final : Walk}

/-- The walk before the first capability. -/
theorem covers_nil (address : BitVec 32) :
    Walk.Covers ⟨⟨address, space.registers⟩, [], [], []⟩ space dev [] := ⟨rfl, rfl, rfl, rfl⟩

theorem walkCap_eq :
    walkCap space dev fuel =
      if space.capPtr dev = 0 then
        some ⟨⟨pciBuildAddr dev.bus dev.slot dev.func 0x34, space.registers⟩, [], [], []⟩
      else
        walkLoop dev fuel (space.capPtr dev)
          ⟨⟨pciBuildAddr dev.bus dev.slot dev.func 0x34, space.registers⟩, [], [], []⟩ := rfl

theorem walkCap_ok (walk_eq : walkCap space dev fuel = some final) :
    ∃ count, EndsAfter (space.link dev) 0 (space.capPtr dev) count ∧
      final.Covers space dev (List.iterate (space.link dev) (space.capPtr dev) count) := by
  rw [walkCap_eq] at walk_eq
  by_cases empty : space.capPtr dev = 0
  · rw [if_pos empty] at walk_eq
    cases walk_eq
    rw [empty]
    exact ⟨0, .zero, covers_nil _⟩
  · rw [if_neg empty] at walk_eq
    exact walkLoop_ok (covers_nil _) walk_eq

theorem walkCap_returns {count : Nat}
    (ends : EndsAfter (space.link dev) 0 (space.capPtr dev) count) :
    ∃ final, walkCap space dev (count + 1) = some final := by
  rw [walkCap_eq]
  by_cases empty : space.capPtr dev = 0
  · rw [if_pos empty]
    exact ⟨_, rfl⟩
  · rw [if_neg empty]
    exact walkLoop_returns (covers_nil _) ends

/-- A capability is found by the upper six bits of its pointer. -/
theorem link_congr (first second : BitVec 8)
    (same : (first >>> 2).toNat = (second >>> 2).toNat) :
    space.link dev first = space.link dev second := by
  have aligned (ptr : BitVec 8) : ptr &&& (0xFC : BitVec 8) = ptr >>> 2 <<< 2 := by
    rw [BitVec.shiftLeft_ushiftRight]
    rfl
  have register_eq : space.register dev first = space.register dev second := by
    refine space.register_congr ?_
    rw [aligned, aligned, BitVec.eq_of_toNat_eq same]
  rw [ConfigSpace.link, ConfigSpace.link, ConfigSpace.header, ConfigSpace.header, register_eq]

theorem key_lt (ptr : BitVec 8) : (ptr >>> 2).toNat < 64 := by
  rw [BitVec.toNat_ushiftRight, Nat.shiftRight_eq_div_pow]
  omega

/-- The last read is the farthest. -/
theorem forall_add_lt_iff {deltas : List (BitVec 8)} {last ptr : BitVec 8} (mem : last ∈ deltas)
    (le_last : ∀ delta ∈ deltas, delta.toNat ≤ last.toNat) :
    (∀ delta ∈ deltas, ptr.toNat + delta.toNat < 256) ↔ ptr.toNat + last.toNat < 256 := by
  refine ⟨fun inside => inside last mem, fun last_lt delta delta_mem => ?_⟩
  exact (Nat.add_le_add_left (le_last delta delta_mem) _).trans_lt last_lt

theorem fits_iff {ptr : BitVec 8} :
    space.Fits dev ptr ↔ ∀ delta ∈ space.deltas dev ptr, ptr.toNat + delta.toNat < 256 := by
  rw [ConfigSpace.Fits, ConfigSpace.deltas]
  by_cases virtio : readByteSlice (space.header dev ptr) 0 = 0x9
  · rw [if_pos virtio, imp_iff_right virtio]
    by_cases notify : readByteSlice (space.header dev ptr) 3 = 2
    · rw [if_pos notify, if_pos notify]
      have mem : (16 : BitVec 8) ∈ ([0, 4, 8, 12, 16] : List (BitVec 8)) := by decide
      exact (forall_add_lt_iff mem (by decide)).symm
    · rw [if_neg notify, if_neg notify]
      have mem : (12 : BitVec 8) ∈ ([0, 4, 8, 12] : List (BitVec 8)) := by decide
      exact (forall_add_lt_iff mem (by decide)).symm
  · rw [if_neg virtio]
    refine iff_of_true (fun other => absurd other virtio) fun delta delta_mem => ?_
    obtain rfl := List.mem_singleton.mp delta_mem
    exact ptr.isLt

/-- The walk ends, meets no pointer twice and stays inside the space exactly if the list does. -/
theorem walkCap_safe_iff (space : ConfigSpace) (dev : PCIDevice) :
    (∃ fuel walk, walkCap space dev fuel = some walk ∧ walk.visited.Nodup ∧
        ∀ ptr delta, (ptr, delta) ∈ walk.reads → ptr.toNat + delta.toNat < 256) ↔
      space.WellLinked dev := by
  constructor
  · rintro ⟨fuel, walk, walk_eq, -, inside⟩
    obtain ⟨count, ends, covers⟩ := walkCap_ok walk_eq
    refine ⟨⟨count, ends.count_le link_congr key_lt, ends.meets⟩, fun step unmet => ?_⟩
    have step_lt : step < count := by
      by_contra beyond
      exact unmet count (Nat.le_of_not_lt beyond) ends.meets
    refine fits_iff.mpr fun delta delta_mem => inside _ delta ?_
    rw [covers.reads_eq]
    exact List.mem_flatMap.mpr ⟨_, List.mem_iterate.mpr ⟨step, step_lt, rfl⟩,
      List.mem_map_of_mem delta_mem⟩
  · rintro ⟨⟨steps, -, meets⟩, fits⟩
    obtain ⟨count, -, ends⟩ := EndsAfter.exists_le meets
    obtain ⟨walk, walk_eq⟩ := walkCap_returns ends
    obtain ⟨count, ends, covers⟩ := walkCap_ok walk_eq
    refine ⟨_, walk, walk_eq, ?_, fun ptr delta mem => ?_⟩
    · rw [covers.visited_eq]
      exact (ends.keys_nodup link_congr).of_map
    · rw [covers.reads_eq] at mem
      obtain ⟨ptr, ptr_mem, pair_mem⟩ := List.mem_flatMap.mp mem
      obtain ⟨delta, delta_mem, pair_eq⟩ := List.mem_map.mp pair_mem
      cases pair_eq
      obtain ⟨step, step_lt, rfl⟩ := List.mem_iterate.mp ptr_mem
      exact fits_iff.mp (fits step fun before le => ends.before before (le.trans_lt step_lt)) delta
        delta_mem

/-- A space that is given by the words at its offsets. -/
def ofWords (words : BitVec 8 → BitVec 32) : ConfigSpace :=
  ⟨0, fun address => ⟨words (address.setWidth 8), 0⟩⟩

/-- A capability that is its own successor is walked for ever, and one at the end of the space is
read behind the end. -/
theorem capability_goes_round :
    (∀ fuel, walkCap (ofWords fun offset => if offset = 0x34 then 0x40 else 0x4005) ⟨0, 4, 0⟩
        fuel = none) ∧
      ∃ walk, walkCap (ofWords fun offset => if offset = 0x34 then 0xF8 else 0x09) ⟨0, 4, 0⟩ 2 =
        some walk ∧ (0xF8, 12) ∈ walk.reads := by
  refine ⟨fun fuel => ?_, _, rfl, by decide⟩
  refine Option.eq_none_iff_forall_ne_some.mpr fun walk walk_eq => ?_
  obtain ⟨count, ends, -⟩ := walkCap_ok walk_eq
  have fixed :
      (ofWords fun offset => if offset = 0x34 then 0x40 else 0x4005).link ⟨0, 4, 0⟩ 0x40 = 0x40 :=
    rfl
  have stays : (0x40 : BitVec 8) = 0 := (Function.iterate_fixed fixed count).symm.trans ends.meets
  exact absurd stays (by decide)

end WalkCap

end Pci
end Vespertine
