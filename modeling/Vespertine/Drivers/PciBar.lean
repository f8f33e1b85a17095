import Vespertine.Drivers.PciConfig
import Vespertine.Library.BitMask

/-!
# Base address registers

The size of a region is found by writing ones to its register: the address bits below the size
do not take them.  For a 32-bit memory register the mask that is read back is widened to 64 bits
before it is complemented, and the 32 upper bits of the result are set.
-/

namespace Vespertine

/-- Is the bit set? -/
def checkBit {width : Nat} (value : BitVec width) (bit : Nat) : Bool :=
  value &&& ((1 : BitVec width) <<< bit) != 0

namespace Pci

inductive PCIBar where
  | Memory (quad prefetchable : Bool) (addr size : BitVec 64)
  | IOSpace (addr : BitVec 32) (size : BitVec 64)
deriving DecidableEq

namespace ConfigSpace

/-- Write ones, read back what they have set, and write the contents back. -/
def probeBarSizeMask (space : ConfigSpace) (bus slot func offset : BitVec 8) (orig : BitVec 32) :
    BitVec 32 × ConfigSpace :=
  let space := space.pciConfigWrite32 bus slot func offset 0xFFFFFFFF
  let (mask, space) := space.pciConfigRead32 bus slot func offset
  (mask, space.pciConfigWrite32 bus slot func offset orig)

def getBar (space : ConfigSpace) (dev : PCIDevice) (barN : BitVec 8) : PCIBar × ConfigSpace :=
  let offset := 0x10 + barN * 4
  let (rawbar, space) := space.pciConfigRead32 dev.bus dev.slot dev.func offset
  if !checkBit rawbar 0 then
    let quad := (rawbar >>> 1) &&& 0b11 == 0x02
    let prefetchable := (rawbar >>> 3) &&& 0b1 == 1
    let addr := (rawbar &&& ~~~0xF).setWidth 64
    let (mask, space) := space.probeBarSizeMask dev.bus dev.slot dev.func offset rawbar
    let mask : BitVec 64 := mask.setWidth 64
    let (addr, mask, space) :=
      if quad then
        let offset := 0x10 + (barN + 1) * 4
        let (upper, space) := space.pciConfigRead32 dev.bus dev.slot dev.func offset
        let addr := addr ||| upper.setWidth 64 <<< 32
        let (himask, space) := space.probeBarSizeMask dev.bus dev.slot dev.func offset upper
        (addr, mask ||| himask.setWidth 64 <<< 32, space)
      else
        (addr, mask, space)
    let mask := mask &&& ~~~0xF
    let size := ~~~mask + 1
    (.Memory quad prefetchable addr size, space)
  else
    let addr := rawbar &&& ~~~0x3
    let (mask, space) := space.probeBarSizeMask dev.bus dev.slot dev.func offset rawbar
    let mask := mask &&& ~~~0x3
    let size := (~~~mask + 1).setWidth 64
    (.IOSpace addr size, space)

end ConfigSpace

/-! ## Regions -/

/-- What a device can ask for. -/
inductive RegionKind where
  | memory32 (prefetchable : Bool)
  | memory64 (prefetchable : Bool)
  | ioSpace
deriving DecidableEq

namespace RegionKind

/-- The fixed bits of the lower register. -/
def tag : RegionKind → BitVec 64
  | .memory32 prefetchable => if prefetchable then 0b1000 else 0b0000
  | .memory64 prefetchable => if prefetchable then 0b1100 else 0b0100
  | .ioSpace => 0b01

/-- How many bits are fixed. -/
def tagBits : RegionKind → Nat
  | .memory32 _ | .memory64 _ => 4
  | .ioSpace => 2

def addressBits : RegionKind → Nat
  | .memory64 _ => 64
  | .memory32 _ | .ioSpace => 32

theorem tag_lt (kind : RegionKind) : kind.tag.toNat < 2 ^ kind.tagBits := by
  cases kind with
  | memory32 prefetchable => cases prefetchable <;> decide
  | memory64 prefetchable => cases prefetchable <;> decide
  | ioSpace => decide

theorem tagBits_le_half (kind : RegionKind) : kind.tagBits ≤ 32 := by
  cases kind <;> simp [tagBits]

end RegionKind

/-- A region whose size is a power of two, at a multiple of its size. -/
structure Region where
  kind : RegionKind
  exponent : Nat
  base : BitVec 64
  tagBits_le : kind.tagBits ≤ exponent
  exponent_lt : exponent < kind.addressBits
  base_lt : base.toNat < 2 ^ kind.addressBits
  aligned : 2 ^ exponent ∣ base.toNat

namespace Region

variable (region : Region)

def size : BitVec 64 := BitVec.twoPow 64 region.exponent

/-- The contents of both registers. -/
def contents : BitVec 64 := region.base ||| region.kind.tag

/-- The address bits from the size on can be written. -/
def lower : ConfigRegister :=
  ⟨region.contents.setWidth 32, (highMask 64 region.exponent).setWidth 32⟩

def upper : ConfigRegister :=
  ⟨(region.contents >>> 32).setWidth 32, (highMask 64 region.exponent >>> 32).setWidth 32⟩

/-- The region as it should be reported. -/
def bar : PCIBar :=
  match region.kind with
  | .memory32 prefetchable => .Memory false prefetchable region.base region.size
  | .memory64 prefetchable => .Memory true prefetchable region.base region.size
  | .ioSpace => .IOSpace (region.base.setWidth 32) region.size

end Region

/-- The register of a region, or both of them for an address of 64 bits. -/
structure ConfigSpace.Holds (space : ConfigSpace) (dev : PCIDevice) (barN : BitVec 8)
    (region : Region) : Prop where
  lower : space.register dev (0x10 + barN * 4) = region.lower
  upper : region.kind.addressBits = 64 →
    space.register dev (0x10 + (barN + 1) * 4) = region.upper

/-! ## Probing -/

namespace ConfigSpace

variable {space : ConfigSpace} {dev : PCIDevice} {offset barN : BitVec 8}

/-- The space after a register was selected. -/
def select (space : ConfigSpace) (dev : PCIDevice) (offset : BitVec 8) : ConfigSpace :=
  { space with address := pciBuildAddr dev.bus dev.slot dev.func offset }

@[simp] theorem select_register (other : PCIDevice) (at' : BitVec 8) :
    (space.select dev offset).register other at' = space.register other at' := rfl

@[simp] theorem select_select (other : PCIDevice) (at' : BitVec 8) :
    (space.select dev offset).select other at' = space.select other at' := rfl

theorem pciConfigRead32_eq :
    space.pciConfigRead32 dev.bus dev.slot dev.func offset =
      ((space.register dev offset).value, space.select dev offset) := rfl

/-- A probe tells which bits can be written, and changes no register. -/
theorem probeBarSizeMask_eq {orig : BitVec 32}
    (orig_eq : (space.register dev offset).value = orig) :
    space.probeBarSizeMask dev.bus dev.slot dev.func offset orig =
      (orig ||| (space.register dev offset).writable, space.select dev offset) := by
  subst orig_eq
  simp only [probeBarSizeMask, pciConfigRead32, pciConfigWrite32, outl, inl, register, select,
    Function.update_self, Function.update_idem, ConfigRegister.write_ones,
    ConfigRegister.write_write, ConfigRegister.write_value, Function.update_eq_self]

/-- Every result that `get_bar` can have, for registers of any kind. -/
theorem getBar_of_io {lower : ConfigRegister}
    (lower_eq : space.register dev (0x10 + barN * 4) = lower)
    (io : checkBit lower.value 0 = true) :
    space.getBar dev barN =
      (.IOSpace (lower.value &&& ~~~0x3)
          ((~~~((lower.value ||| lower.writable) &&& ~~~0x3) + 1).setWidth 64),
        space.select dev (0x10 + barN * 4)) := by
  simp only [getBar, pciConfigRead32_eq, lower_eq, io, Bool.not_true, Bool.false_eq_true,
    if_false, probeBarSizeMask_eq, select_register, select_select]

theorem getBar_of_single {lower : ConfigRegister}
    (lower_eq : space.register dev (0x10 + barN * 4) = lower)
    (memory : checkBit lower.value 0 = false)
    (single : (lower.value >>> 1 &&& 0b11 == 0x02) = false) :
    space.getBar dev barN =
      (.Memory false (lower.value >>> 3 &&& 0b1 == 1) ((lower.value &&& ~~~0xF).setWidth 64)
          (~~~((lower.value ||| lower.writable).setWidth 64 &&& ~~~0xF) + 1),
        space.select dev (0x10 + barN * 4)) := by
  simp only [getBar, pciConfigRead32_eq, lower_eq, memory, single, Bool.not_false, if_true,
    Bool.false_eq_true, if_false, probeBarSizeMask_eq, select_register, select_select]

theorem getBar_of_quad {lower upper : ConfigRegister}
    (lower_eq : space.register dev (0x10 + barN * 4) = lower)
    (upper_eq : space.register dev (0x10 + (barN + 1) * 4) = upper)
    (memory : checkBit lower.value 0 = false)
    (quad : (lower.value >>> 1 &&& 0b11 == 0x02) = true) :
    space.getBar dev barN =
      (.Memory true (lower.value >>> 3 &&& 0b1 == 1)
          ((lower.value &&& ~~~0xF).setWidth 64 ||| upper.value.setWidth 64 <<< 32)
          (~~~(((lower.value ||| lower.writable).setWidth 64 |||
            (upper.value ||| upper.writable).setWidth 64 <<< 32) &&& ~~~0xF) + 1),
        space.select dev (0x10 + (barN + 1) * 4)) := by
  simp only [getBar, pciConfigRead32_eq, lower_eq, upper_eq, memory, quad, Bool.not_false,
    if_true, probeBarSizeMask_eq, select_register, select_select]

end ConfigSpace

namespace Region

variable (region : Region)

/-- The lower register, with its address bits apart from its tag. -/
theorem lower_value :
    region.lower.value = region.base.setWidth 32 ||| region.kind.tag.setWidth 32 := by
  rw [lower, contents, BitVec.setWidth_or]

theorem lower_writable : region.lower.writable = highMask 32 region.exponent := by
  rw [lower, setWidth_highMask (by decide)]

theorem tag32_lt : (region.kind.tag.setWidth 32).toNat < 2 ^ region.kind.tagBits := by
  rw [BitVec.toNat_setWidth]
  exact (Nat.mod_le ..).trans_lt region.kind.tag_lt

/-- The fixed bits are no address bits. -/
theorem base32_dvd : 2 ^ region.kind.tagBits ∣ (region.base.setWidth 32).toNat := by
  have base_dvd : 2 ^ region.kind.tagBits ∣ region.base.toNat :=
    (Nat.pow_dvd_pow 2 region.tagBits_le).trans region.aligned
  have half_dvd : 2 ^ region.kind.tagBits ∣ 2 ^ 32 :=
    Nat.pow_dvd_pow 2 region.kind.tagBits_le_half
  rw [BitVec.toNat_setWidth]
  exact (Nat.dvd_mod_iff half_dvd).mpr base_dvd

theorem lower_tag :
    region.lower.value &&& ~~~highMask 32 region.kind.tagBits = region.kind.tag.setWidth 32 := by
  rw [lower_value]
  exact or_and_not_highMask region.base32_dvd region.tag32_lt

theorem lower_base :
    region.lower.value &&& highMask 32 region.kind.tagBits = region.base.setWidth 32 := by
  rw [lower_value]
  exact or_and_highMask region.base32_dvd le_rfl region.tag32_lt

/-- A region below 4 GiB is described by the lower register alone. -/
theorem setWidth_base32 (narrow : region.kind.addressBits = 32) :
    (region.base.setWidth 32).setWidth 64 = region.base := by
  have base_lt := region.base_lt
  rw [narrow] at base_lt
  refine BitVec.eq_of_toNat_eq ?_
  rw [BitVec.toNat_setWidth, BitVec.toNat_setWidth, Nat.mod_eq_of_lt base_lt,
    Nat.mod_eq_of_lt region.base.isLt]

/-- The mask of such a region is read back without its tag. -/
theorem lower_mask (narrow : region.kind.addressBits = 32) :
    (region.lower.value ||| region.lower.writable) &&& highMask 32 region.kind.tagBits =
      highMask 32 region.exponent := by
  have base_lt := region.base_lt
  rw [narrow] at base_lt
  have aligned : 2 ^ region.exponent ∣ (region.base.setWidth 32).toNat := by
    rw [BitVec.toNat_setWidth, Nat.mod_eq_of_lt base_lt]
    exact region.aligned
  rw [region.lower_value, region.lower_writable]
  exact or_or_and_highMask aligned region.tagBits_le region.tag32_lt

/-- The masks of both registers, put together. -/
theorem joined_mask :
    ((region.lower.value ||| region.lower.writable).setWidth 64 |||
        (region.upper.value ||| region.upper.writable).setWidth 64 <<< 32) &&&
        highMask 64 region.kind.tagBits =
      highMask 64 region.exponent := by
  rw [lower, upper, ← BitVec.setWidth_or, ← BitVec.setWidth_or, ← BitVec.ushiftRight_or_distrib,
    join_halves]
  exact or_or_and_highMask region.aligned region.tagBits_le region.kind.tag_lt

/-- The addresses of both registers, put together. -/
theorem joined_base :
    (region.lower.value &&& highMask 32 region.kind.tagBits).setWidth 64 |||
        region.upper.value.setWidth 64 <<< 32 =
      region.base := by
  have tag_upper : region.kind.tag >>> 32 = 0#64 := by
    cases region.kind with
    | memory32 prefetchable => cases prefetchable <;> rfl
    | memory64 prefetchable => cases prefetchable <;> rfl
    | ioSpace => rfl
  have upper_value : region.upper.value = (region.base >>> 32).setWidth 32 := by
    rw [upper, contents, BitVec.ushiftRight_or_distrib, tag_upper, BitVec.or_zero]
  rw [region.lower_base, upper_value, join_halves]

/-! The fields of the tag are read off the lower register. -/

theorem lower_check : checkBit region.lower.value 0 = checkBit (region.kind.tag.setWidth 32) 0 := by
  have inside :
      ~~~highMask 32 region.kind.tagBits &&& (1 : BitVec 32) <<< 0 = (1 : BitVec 32) <<< 0 := by
    cases region.kind with
    | memory32 prefetchable | memory64 prefetchable =>
        show ~~~highMask 32 4 &&& (1 : BitVec 32) <<< 0 = (1 : BitVec 32) <<< 0
        decide
    | ioSpace => decide
  rw [checkBit, checkBit, ← region.lower_tag, BitVec.and_assoc, inside]

theorem lower_field {field : BitVec 32} {shift : Nat}
    (inside : (~~~highMask 32 region.kind.tagBits) >>> shift &&& field = field) :
    region.lower.value >>> shift &&& field =
      region.kind.tag.setWidth 32 >>> shift &&& field := by
  rw [← region.lower_tag, BitVec.ushiftRight_and_distrib, BitVec.and_assoc, inside]

section Memory

variable {region} {prefetchable : Bool}
  (memory : region.kind = .memory32 prefetchable ∨ region.kind = .memory64 prefetchable)

include memory

theorem tagBits_of_memory : region.kind.tagBits = 4 := by
  rcases memory with kind_eq | kind_eq <;> rw [kind_eq] <;> rfl

theorem not_io_of_memory : checkBit region.lower.value 0 = false := by
  rw [region.lower_check]
  rcases memory with kind_eq | kind_eq <;> rw [kind_eq] <;> cases prefetchable <;> rfl

theorem prefetchable_of_memory : (region.lower.value >>> 3 &&& 0b1 == 1) = prefetchable := by
  rw [region.lower_field (by rw [tagBits_of_memory memory]; decide)]
  rcases memory with kind_eq | kind_eq <;> rw [kind_eq] <;> cases prefetchable <;> rfl

omit memory

theorem quad_of_memory64 (kind_eq : region.kind = .memory64 prefetchable) :
    (region.lower.value >>> 1 &&& 0b11 == 0x02) = true := by
  rw [region.lower_field (by rw [tagBits_of_memory (.inr kind_eq)]; decide), kind_eq]
  cases prefetchable <;> rfl

theorem single_of_memory32 (kind_eq : region.kind = .memory32 prefetchable) :
    (region.lower.value >>> 1 &&& 0b11 == 0x02) = false := by
  rw [region.lower_field (by rw [tagBits_of_memory (.inl kind_eq)]; decide), kind_eq]
  cases prefetchable <;> rfl

end Memory

end Region

/-! ## What is reported -/

namespace ConfigSpace

variable {space : ConfigSpace} {dev : PCIDevice} {barN : BitVec 8} {region : Region}

theorem getBar_ioSpace (kind_eq : region.kind = .ioSpace) (holds : space.Holds dev barN region) :
    space.getBar dev barN = (region.bar, space.select dev (0x10 + barN * 4)) := by
  have io : checkBit region.lower.value 0 = true := by
    rw [region.lower_check, kind_eq]
    rfl
  have base := region.lower_base
  have mask := region.lower_mask (by rw [kind_eq]; rfl)
  have exponent_lt := region.exponent_lt
  rw [kind_eq] at base mask exponent_lt
  have low_bits : ~~~(0x3 : BitVec 32) = highMask 32 RegionKind.ioSpace.tagBits := by decide
  have size_eq : (BitVec.twoPow 32 region.exponent).setWidth 64 = region.size := by
    refine BitVec.eq_of_toNat_eq ?_
    have narrow : region.exponent < 32 := exponent_lt
    have wide : region.exponent < 64 := narrow.trans (by decide)
    rw [Region.size, BitVec.toNat_setWidth_of_le (by decide), BitVec.toNat_twoPow_of_lt narrow,
      BitVec.toNat_twoPow_of_lt wide]
  rw [getBar_of_io holds.lower io, low_bits, base, mask, not_highMask_add_one, size_eq, Region.bar,
    kind_eq]

theorem getBar_memory64 {prefetchable : Bool} (kind_eq : region.kind = .memory64 prefetchable)
    (holds : space.Holds dev barN region) :
    space.getBar dev barN = (region.bar, space.select dev (0x10 + (barN + 1) * 4)) := by
  have memory := Region.not_io_of_memory (.inr kind_eq)
  have quad := Region.quad_of_memory64 kind_eq
  have prefetchable_eq := Region.prefetchable_of_memory (.inr kind_eq)
  have tagBits_eq := Region.tagBits_of_memory (.inr kind_eq)
  have upper := holds.upper (by rw [kind_eq]; rfl)
  have base := region.joined_base
  have mask := region.joined_mask
  rw [tagBits_eq] at base mask
  have low_bits : ~~~(0xF : BitVec 32) = highMask 32 4 := by decide
  have low_bits64 : ~~~(0xF : BitVec 64) = highMask 64 4 := by decide
  rw [getBar_of_quad holds.lower upper memory quad, prefetchable_eq, low_bits, base, low_bits64,
    mask, not_highMask_add_one, Region.bar, kind_eq, Region.size]

/-- The 32 upper bits of the size are set. -/
theorem getBar_memory32 {prefetchable : Bool} (kind_eq : region.kind = .memory32 prefetchable)
    (holds : space.Holds dev barN region) :
    space.getBar dev barN =
      (.Memory false prefetchable region.base (~~~(highMask 32 region.exponent).setWidth 64 + 1),
        space.select dev (0x10 + barN * 4)) := by
  have memory := Region.not_io_of_memory (.inl kind_eq)
  have single := Region.single_of_memory32 kind_eq
  have prefetchable_eq := Region.prefetchable_of_memory (.inl kind_eq)
  have tagBits_eq := Region.tagBits_of_memory (.inl kind_eq)
  have narrow : region.kind.addressBits = 32 := by rw [kind_eq]; rfl
  have base := region.lower_base
  have mask := region.lower_mask narrow
  rw [tagBits_eq] at base mask
  have low_bits : ~~~(0xF : BitVec 32) = highMask 32 4 := by decide
  have low_bits64 : ~~~(0xF : BitVec 64) = highMask 64 4 := by decide
  rw [getBar_of_single holds.lower memory single, prefetchable_eq, low_bits, base,
    region.setWidth_base32 narrow, low_bits64, setWidth_and_highMask, mask]

/-- That is 2^64 - 2^32 too much. -/
theorem toNat_widened_size {exponent : Nat} (exponent_lt : exponent < 32) :
    (~~~(highMask 32 exponent).setWidth 64 + 1).toNat = 2 ^ 64 - 2 ^ 32 + 2 ^ exponent := by
  have pow_lt : 2 ^ exponent < 2 ^ 32 := Nat.pow_lt_pow_right Nat.one_lt_two exponent_lt
  have pow_pos : 0 < 2 ^ exponent := Nat.two_pow_pos exponent
  have negated : -(highMask 32 exponent).setWidth 64 = ~~~(highMask 32 exponent).setWidth 64 + 1 :=
    BitVec.neg_eq_not_add _
  rw [← negated, BitVec.toNat_neg, BitVec.toNat_setWidth_of_le (by decide),
    toNat_highMask exponent_lt, Nat.mod_eq_of_lt (by omega)]
  omega

/-- A base address register is reported with its kind, its base and its size unless it is a memory
register of 32 bits.  No register is changed. -/
theorem getBar_reports_iff (holds : space.Holds dev barN region) :
    ((space.getBar dev barN).1 = region.bar ∧
        (space.getBar dev barN).2.registers = space.registers) ↔
      ∀ prefetchable, region.kind ≠ .memory32 prefetchable := by
  cases kind_eq : region.kind with
  | memory32 prefetchable =>
      refine iff_of_false (fun reports => ?_) fun other => other prefetchable rfl
      have bar_eq := reports.1
      rw [getBar_memory32 kind_eq holds, Region.bar, kind_eq] at bar_eq
      obtain ⟨-, -, -, size_eq⟩ := PCIBar.Memory.inj bar_eq
      have bits_eq : region.kind.addressBits = 32 := by rw [kind_eq]; rfl
      have narrow : region.exponent < 32 := bits_eq ▸ region.exponent_lt
      have wide : region.exponent < 64 := narrow.trans (by decide)
      have widened := toNat_widened_size narrow
      rw [size_eq, Region.size, BitVec.toNat_twoPow_of_lt wide] at widened
      omega
  | memory64 prefetchable =>
      rw [getBar_memory64 kind_eq holds]
      exact iff_of_true ⟨rfl, rfl⟩ nofun
  | ioSpace =>
      rw [getBar_ioSpace kind_eq holds]
      exact iff_of_true ⟨rfl, rfl⟩ nofun

/-- 16 KiB above 4 GiB. -/
def highRegion : Region where
  kind := .memory64 true
  exponent := 14
  base := 0xFE00004000
  tagBits_le := by decide
  exponent_lt := by decide
  base_lt := by decide
  aligned := by decide

/-- 4 KiB below 4 GiB. -/
def lowRegion : Region where
  kind := .memory32 false
  exponent := 12
  base := 0xFEBD1000
  tagBits_le := by decide
  exponent_lt := by decide
  base_lt := by decide
  aligned := by decide

/-- A space in which two registers describe a region. -/
def ofRegion (dev : PCIDevice) (barN : BitVec 8) (region : Region) : ConfigSpace :=
  ⟨0, fun address =>
    if address = pciBuildAddr dev.bus dev.slot dev.func (0x10 + barN * 4) then region.lower
    else region.upper⟩

/-- Every region can be described by every pair of registers. -/
theorem holds_ofRegion (dev : PCIDevice) (barN : BitVec 8) (region : Region) :
    (ofRegion dev barN region).Holds dev barN region := by
  have apart : ∀ number : BitVec 8,
      (0x10 + (number + 1) * 4) &&& 0xFC ≠ (0x10 + number * 4) &&& 0xFC := by
    decide +kernel
  exact ⟨if_pos rfl, fun _ => if_neg fun same => apart barN (pciBuildAddr_inj same)⟩

theorem getBar_reports_iff_high :
    ((ofRegion ⟨0, 4, 0⟩ 4 highRegion).getBar ⟨0, 4, 0⟩ 4).1 =
        .Memory true true 0xFE00004000 0x4000 ∧
      ((ofRegion ⟨0, 4, 0⟩ 4 highRegion).getBar ⟨0, 4, 0⟩ 4).2.registers =
        (ofRegion ⟨0, 4, 0⟩ 4 highRegion).registers :=
  (getBar_reports_iff (holds_ofRegion ⟨0, 4, 0⟩ 4 highRegion)).mpr nofun

/-- A region of 4 KiB is reported with nearly 16 EiB. -/
theorem low_region_widened :
    (ofRegion ⟨0, 4, 0⟩ 0 lowRegion).Holds ⟨0, 4, 0⟩ 0 lowRegion ∧
      lowRegion.bar = .Memory false false 0xFEBD1000 0x1000 ∧
      ((ofRegion ⟨0, 4, 0⟩ 0 lowRegion).getBar ⟨0, 4, 0⟩ 0).1 =
        .Memory false false 0xFEBD1000 0xFFFFFFFF00001000 :=
  ⟨holds_ofRegion ⟨0, 4, 0⟩ 0 lowRegion, rfl, by decide +kernel⟩

end ConfigSpace

end Pci
end Vespertine
