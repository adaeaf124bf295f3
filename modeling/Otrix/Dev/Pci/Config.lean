import Mathlib.Algebra.Group.Nat.Defs

/-!
# The configuration space of a PCI device

`pci_config_read32` and `pci_config_read8` of `dev/pci.cpp`. A register is read as a word of four bytes
at an aligned address, and a byte is taken out of the word.
-/

namespace Otrix.Dev

/-- The configuration space of a device: 256 bytes. -/
structure ConfigSpace where
  byte : UInt8 → UInt8

namespace ConfigSpace

/-- `pci_config_read32`. The two low bits of the register number are not sent. -/
def read32 (space : ConfigSpace) (reg : UInt8) : Nat :=
  let base := reg &&& 0xFC
  (space.byte base).toNat + 2 ^ 8 * (space.byte (base + 1)).toNat +
    2 ^ 16 * (space.byte (base + 2)).toNat + 2 ^ 24 * (space.byte (base + 3)).toNat

/-- `pci_config_read8`. -/
def read8 (space : ConfigSpace) (addr : UInt8) : UInt8 :=
  let data := space.read32 (addr &&& 0xFC)
  UInt8.ofNat (data / 2 ^ (8 * (addr.toNat % 4)))

theorem toNat_and_fc (addr : UInt8) : (addr &&& 0xFC).toNat = addr.toNat / 4 * 4 := by
  have hall : ∀ n < 256, n &&& 0xFC = n / 4 * 4 := by decide +kernel
  rw [UInt8.toNat_and]
  exact hall addr.toNat addr.toNat_lt

/-- An address is its aligned address and an offset in the word. -/
theorem and_fc_add {addr offset : UInt8} (hoffset : addr.toNat % 4 = offset.toNat) :
    (addr &&& 0xFC) + offset = addr := by
  refine UInt8.toNat_inj.mp ?_
  rw [UInt8.toNat_add, toNat_and_fc]
  have hlt := addr.toNat_lt
  omega

/-- `read8` selects the byte of its word. -/
theorem read8_eq (space : ConfigSpace) (addr : UInt8) : space.read8 addr = space.byte addr := by
  have hsame : (addr &&& 0xFC) &&& 0xFC = addr &&& 0xFC := by
    refine UInt8.toNat_inj.mp ?_
    rw [toNat_and_fc, toNat_and_fc]
    omega
  have hfirst := (space.byte (addr &&& 0xFC)).toNat_lt
  have hsecond := (space.byte ((addr &&& 0xFC) + 1)).toNat_lt
  have hthird := (space.byte ((addr &&& 0xFC) + 2)).toNat_lt
  have hfourth := (space.byte ((addr &&& 0xFC) + 3)).toNat_lt
  refine UInt8.toNat_inj.mp ?_
  simp only [read8, read32, hsame, UInt8.toNat_ofNat']
  have hcases : addr.toNat % 4 = 0 ∨ addr.toNat % 4 = 1 ∨ addr.toNat % 4 = 2 ∨ addr.toNat % 4 = 3 := by
    omega
  -- the byte of the word that is kept is the one at the address
  have hbyte : ∀ offset : UInt8, addr.toNat % 4 = offset.toNat →
      space.byte addr = space.byte ((addr &&& 0xFC) + offset) :=
    fun offset hoffset => by rw [and_fc_add hoffset]
  rcases hcases with hmod | hmod | hmod | hmod
  · rw [hbyte 0 hmod, hmod, UInt8.add_zero]
    omega
  · rw [hbyte 1 hmod, hmod]
    omega
  · rw [hbyte 2 hmod, hmod]
    omega
  · rw [hbyte 3 hmod, hmod]
    omega

end ConfigSpace

end Otrix.Dev
