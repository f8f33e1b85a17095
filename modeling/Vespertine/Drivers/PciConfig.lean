import Mathlib.Logic.Function.Basic

/-!
# PCI configuration space

A register is reached through two ports: its address is written to one, and the other then reads
or writes it.  A device decides for each bit of a register whether it can be written.
-/

namespace Vespertine
namespace Pci

/-- A register with the bits that can be written. -/
structure ConfigRegister where
  value : BitVec 32
  writable : BitVec 32

/-- Take over the bits that can be written. -/
def ConfigRegister.write (register : ConfigRegister) (value : BitVec 32) : ConfigRegister :=
  { register with
    value := (register.value &&& ~~~register.writable) ||| (value &&& register.writable) }

inductive Port where
  /-- 0xCF8 -/
  | configAddress
  /-- 0xCFC -/
  | configData

/-- The address that was last written, and the registers behind all addresses. -/
structure ConfigSpace where
  address : BitVec 32
  registers : BitVec 32 → ConfigRegister

structure PCIDevice where
  bus : BitVec 8
  slot : BitVec 8
  func : BitVec 8

def pciBuildAddr (bus slot func offset : BitVec 8) : BitVec 32 :=
  bus.setWidth 32 <<< 16 ||| slot.setWidth 32 <<< 11 ||| func.setWidth 32 <<< 8 |||
    (offset &&& 0xFC).setWidth 32 ||| 0x80000000

namespace ConfigSpace

def outl (space : ConfigSpace) (value : BitVec 32) : Port → ConfigSpace
  | .configAddress => { space with address := value }
  | .configData =>
      { space with
        registers := Function.update space.registers space.address
          ((space.registers space.address).write value) }

def inl (space : ConfigSpace) : Port → BitVec 32
  | .configAddress => space.address
  | .configData => (space.registers space.address).value

def pciConfigRead32 (space : ConfigSpace) (bus slot func offset : BitVec 8) :
    BitVec 32 × ConfigSpace :=
  let addr := pciBuildAddr bus slot func offset
  let space := space.outl addr .configAddress
  (space.inl .configData, space)

def pciConfigWrite32 (space : ConfigSpace) (bus slot func offset : BitVec 8)
    (value : BitVec 32) : ConfigSpace :=
  let addr := pciBuildAddr bus slot func offset
  let space := space.outl addr .configAddress
  space.outl value .configData

/-- The register behind an offset of a device. -/
def register (space : ConfigSpace) (dev : PCIDevice) (offset : BitVec 8) : ConfigRegister :=
  space.registers (pciBuildAddr dev.bus dev.slot dev.func offset)

end ConfigSpace

/-! ## Registers -/

namespace ConfigRegister

variable (register : ConfigRegister)

/-- All bits that can be written are set by writing ones. -/
theorem write_ones : (register.write 0xFFFFFFFF).value = register.value ||| register.writable := by
  refine BitVec.eq_of_getLsbD_eq fun bit inside => ?_
  rw [write, show (0xFFFFFFFF : BitVec 32) = BitVec.allOnes 32 from rfl, BitVec.allOnes_and,
    BitVec.getLsbD_or, BitVec.getLsbD_or, BitVec.getLsbD_and, BitVec.getLsbD_not]
  cases register.writable.getLsbD bit with
  | false => simp [inside]
  | true => simp

/-- Only the last value that is written counts. -/
theorem write_write (first second : BitVec 32) :
    (register.write first).write second = register.write second := by
  rw [write, write, write]
  congr 1
  refine BitVec.eq_of_getLsbD_eq fun bit inside => ?_
  simp only [BitVec.getLsbD_or, BitVec.getLsbD_and, BitVec.getLsbD_not]
  cases register.writable.getLsbD bit with
  | false => simp [inside]
  | true => simp

/-- The contents are written back without effect. -/
theorem write_value : register.write register.value = register := by
  rw [write, ← BitVec.and_or_distrib_left, BitVec.or_comm, BitVec.or_not_self, BitVec.and_allOnes]

end ConfigRegister

/-! ## Addresses -/

/-- The offset is found in the low byte of an address. -/
theorem setWidth_pciBuildAddr (bus slot func offset : BitVec 8) :
    (pciBuildAddr bus slot func offset).setWidth 8 = offset &&& 0xFC := by
  refine BitVec.eq_of_getLsbD_eq fun bit inside => ?_
  have unshifted : bit < 16 ∧ bit < 11 ∧ bit < 32 := by omega
  have unset : (0x80000000 : BitVec 32).getLsbD bit = false := by
    rw [show (0x80000000 : BitVec 32) = BitVec.twoPow 32 31 from rfl, BitVec.getLsbD_twoPow]
    simp [show 31 ≠ bit by omega]
  simp only [pciBuildAddr, BitVec.getLsbD_setWidth, BitVec.getLsbD_or, BitVec.getLsbD_shiftLeft,
    unset, unshifted, inside, decide_true, Bool.not_true, Bool.and_false, Bool.false_and,
    Bool.false_or, Bool.or_false, Bool.true_and]

/-- Registers of one device are told apart by their aligned offsets. -/
theorem pciBuildAddr_inj {bus slot func first second : BitVec 8}
    (same : pciBuildAddr bus slot func first = pciBuildAddr bus slot func second) :
    first &&& 0xFC = second &&& 0xFC := by
  rw [← setWidth_pciBuildAddr bus slot func first, same, setWidth_pciBuildAddr]

/-- The two low bits of an offset do not matter. -/
theorem ConfigSpace.register_congr {space : ConfigSpace} {dev : PCIDevice}
    {first second : BitVec 8} (same : first &&& 0xFC = second &&& 0xFC) :
    space.register dev first = space.register dev second := by
  rw [register, register, pciBuildAddr, pciBuildAddr, same]

end Pci
end Vespertine
