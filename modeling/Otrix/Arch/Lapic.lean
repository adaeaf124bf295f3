import Mathlib.Logic.Function.Basic
import Otrix.Common.Word

/-!
# The local APIC

`get_active_irq` of `arch/x86_64/lapic.cpp` over the model specific registers. The in-service register
is eight words long, and the words of the trigger mode register follow it. The scan starts one word
behind the in-service register, and takes the lowest set bit of the first word that is not zero.
-/

namespace Otrix.Arch

/-- `IA32_MSR_X2APIC_MMIO`. -/
def ia32MsrX2apicMmio : Nat := 0x800

/-- `lapic_eoi_reg`. -/
def lapicEoiReg : Nat := 0x0B

/-- `lapic_isr`. -/
def lapicIsr : Nat := 0x10

/-- The register behind the in-service register: the first word of the trigger mode register. -/
def lapicTmr : Nat := 0x18

/-- The local APIC, by its model specific registers. -/
structure LocalApic where
  msr : Nat → UInt64

/-- `__builtin_ffs`: the number of the lowest set bit, counted from one, or zero. -/
def ffs (word : UInt32) : Nat :=
  match (List.range 32).find? word.toNat.testBit with
  | some bit => bit + 1
  | none => 0

namespace LocalApic

/-- `read32`. -/
def read32 (apic : LocalApic) (reg : Nat) : UInt32 :=
  (apic.msr (ia32MsrX2apicMmio + reg)).toUInt32

/-- `write32`. -/
def write32 (apic : LocalApic) (reg : Nat) (value : UInt32) : LocalApic :=
  ⟨Function.update apic.msr (ia32MsrX2apicMmio + reg) value.toUInt64⟩

/-- `signal_eoi`. -/
def signalEoi (apic : LocalApic) : LocalApic :=
  apic.write32 lapicEoiReg 0

/-- The loop of `get_active_irq`, from this word downwards. -/
def scanIsr (apic : LocalApic) : Nat → Int
  | 0 => -1
  | i + 1 =>
    let isr := apic.read32 (lapicIsr + (i + 1))
    if isr ≠ 0 then 32 * (i + 1) + ffs isr - 1 else scanIsr apic i

/-- `get_active_irq`. -/
def getActiveIrq (apic : LocalApic) : Int :=
  apic.scanIsr 8

/-- The in-service bit of a vector. -/
def inService (apic : LocalApic) (vector : Nat) : Bool :=
  (apic.read32 (lapicIsr + vector / 32)).toNat.testBit (vector % 32)

/-- The number of the highest vector in service, or `-1` if there is none. -/
def IsHighestInService (apic : LocalApic) (irq : Int) : Prop :=
  (∃ vector : Nat, irq = vector ∧ 32 ≤ vector ∧ vector ≤ 255 ∧ apic.inService vector ∧
    ∀ other, 32 ≤ other → other ≤ 255 → apic.inService other → other ≤ vector) ∨
  irq = -1 ∧ ∀ vector, 32 ≤ vector → vector ≤ 255 → ¬ apic.inService vector

/-- Of the vectors in service, only one is in the word of the highest. -/
def OneInTopWord (apic : LocalApic) : Prop :=
  ∀ vector other, 32 ≤ vector → vector ≤ 255 → apic.inService vector → apic.inService other →
    other / 32 = vector / 32 →
    (∀ higher, vector / 32 < higher / 32 → higher ≤ 255 → ¬ apic.inService higher) → other = vector

end LocalApic

theorem exists_test_bit {word : UInt32} (hne : word ≠ 0) : ∃ bit < 32, word.toNat.testBit bit := by
  by_contra hnone
  refine hne (UInt32.toNat_inj.mp (Nat.eq_of_testBit_eq fun bit => ?_))
  rw [UInt32.toNat_zero, Nat.zero_testBit]
  by_cases hlt : bit < 32
  · exact Bool.eq_false_iff.mpr fun hset => hnone ⟨bit, hlt, hset⟩
  · exact Nat.testBit_lt_two_pow (Nat.lt_of_lt_of_le word.toNat_lt
      (Nat.pow_le_pow_right (by decide) (Nat.le_of_not_lt hlt)))

/-- `ffs` of a word that is not zero is the lowest set bit. -/
theorem ffs_eq {word : UInt32} (hne : word ≠ 0) :
    ∃ bit < 32, ffs word = bit + 1 ∧ word.toNat.testBit bit ∧
      ∀ lower < bit, ¬ word.toNat.testBit lower := by
  obtain ⟨some, hlt, hset⟩ := exists_test_bit hne
  cases hfind : (List.range 32).find? word.toNat.testBit with
  | none =>
    exact absurd hset (List.find?_eq_none.mp hfind some (List.mem_range.mpr hlt))
  | some bit =>
    obtain ⟨hbit, hmem, hbefore⟩ := List.find?_range_eq_some.mp hfind
    refine ⟨bit, List.mem_range.mp hmem, ?_, hbit, fun lower hlower hset => ?_⟩
    · simp only [ffs, hfind]
    · have hclear := hbefore lower hlower
      rw [hset] at hclear
      cases hclear

namespace LocalApic

variable {apic : LocalApic}

theorem in_service_eq {word bit : Nat} (hbit : bit < 32) :
    apic.inService (32 * word + bit) = (apic.read32 (lapicIsr + word)).toNat.testBit bit := by
  have hword : (32 * word + bit) / 32 = word := by omega
  have hmod : (32 * word + bit) % 32 = bit := by omega
  rw [inService, hword, hmod]

theorem not_in_service {vector : Nat} (hzero : apic.read32 (lapicIsr + vector / 32) = 0) :
    ¬ apic.inService vector := by
  rw [inService, hzero]
  simp

/-- The scan stops at the highest word that is not zero. -/
theorem scan_isr_cases (apic : LocalApic) (words : Nat) :
    (apic.scanIsr words = -1 ∧ ∀ i, 1 ≤ i → i ≤ words → apic.read32 (lapicIsr + i) = 0) ∨
    ∃ i, 1 ≤ i ∧ i ≤ words ∧ apic.read32 (lapicIsr + i) ≠ 0 ∧
      (∀ j, i < j → j ≤ words → apic.read32 (lapicIsr + j) = 0) ∧
      apic.scanIsr words = 32 * i + ffs (apic.read32 (lapicIsr + i)) - 1 := by
  induction words with
  | zero => exact Or.inl ⟨rfl, fun i hlow hhigh => by omega⟩
  | succ words ih =>
    by_cases hzero : apic.read32 (lapicIsr + (words + 1)) = 0
    · have hscan : apic.scanIsr (words + 1) = apic.scanIsr words := by
        rw [scanIsr, if_neg (not_not.mpr hzero)]
      have habove : ∀ j, ¬ j ≤ words → j ≤ words + 1 → apic.read32 (lapicIsr + j) = 0 := by
        intro j hlow hhigh
        obtain rfl : j = words + 1 := by omega
        exact hzero
      rw [hscan]
      rcases ih with ⟨hnone, hall⟩ | ⟨i, hpos, hle, hne, hhigher, hresult⟩
      · refine Or.inl ⟨hnone, fun i hlow hhigh => ?_⟩
        by_cases hle : i ≤ words
        · exact hall i hlow hle
        · exact habove i hle hhigh
      · refine Or.inr ⟨i, hpos, Nat.le_succ_of_le hle, hne, fun j hlow hhigh => ?_, hresult⟩
        by_cases hle' : j ≤ words
        · exact hhigher j hlow hle'
        · exact habove j hle' hhigh
    · refine Or.inr ⟨words + 1, by omega, Nat.le_refl _, hzero, fun j hlow hhigh => by omega, ?_⟩
      rw [scanIsr, if_pos hzero]
      rfl

/-- When the trigger mode word is zero and a word `i` of the in-service register is the highest that is
not, the result is the highest vector in service exactly if the word has a single set bit. -/
theorem highest_iff_of_top {i bit : Nat} (hpos : 1 ≤ i) (hle : i ≤ 7) (hbit : bit < 32)
    (hset : (apic.read32 (lapicIsr + i)).toNat.testBit bit)
    (hlowest : ∀ lower < bit, ¬ (apic.read32 (lapicIsr + i)).toNat.testBit lower)
    (hhigher : ∀ j, i < j → j ≤ 7 → apic.read32 (lapicIsr + j) = 0) :
    apic.IsHighestInService (32 * i + bit : Nat) ↔ apic.OneInTopWord := by
  have hserved : apic.inService (32 * i + bit) := by rwa [in_service_eq hbit]
  have habove : ∀ vector, i < vector / 32 → vector ≤ 255 → ¬ apic.inService vector :=
    fun vector hlow hhigh => not_in_service (hhigher _ hlow (by omega))
  -- the bit is the lowest of its word
  have hleast : ∀ vector, vector / 32 = i → apic.inService vector → 32 * i + bit ≤ vector := by
    intro vector hword hin
    by_contra hlt
    refine hlowest (vector % 32) (by omega) ?_
    rw [inService, hword] at hin
    exact hin
  constructor
  · rintro (⟨vector, heq, _, _, _, hgreatest⟩ | ⟨hnone, _⟩)
    · obtain rfl : 32 * i + bit = vector := by omega
      have hunique : ∀ vector, vector / 32 = i → apic.inService vector → vector = 32 * i + bit :=
        fun vector hword hin =>
          Nat.le_antisymm (hgreatest vector (by omega) (by omega) hin) (hleast vector hword hin)
      intro vector other hlow hhigh hin hother hsame htop
      have hword : vector / 32 = i := by
        rcases Nat.lt_trichotomy (vector / 32) i with hlt | heq | hgt
        · exact absurd hserved (htop (32 * i + bit) (by omega) (by omega))
        · exact heq
        · exact absurd hin (habove vector hgt hhigh)
      rw [hunique vector hword hin, hunique other (hsame.trans hword) hother]
    · omega
  · intro hone
    refine Or.inl ⟨32 * i + bit, rfl, by omega, by omega, hserved, fun other hlow hhigh hin => ?_⟩
    rcases Nat.lt_trichotomy (other / 32) i with hlt | heq | hgt
    · omega
    · have hsame := hone (32 * i + bit) other (by omega) (by omega) hserved hin (by omega)
        fun higher hgt hbound => habove higher (by omega) hbound
      exact Nat.le_of_eq hsame
    · exact absurd hin (habove other hgt hhigh)

/-- The result of `get_active_irq` is a vector behind the table exactly if the trigger mode word is not
zero, and the highest vector in service exactly if also the word of the highest holds no other. -/
theorem active_irq_cases (apic : LocalApic) :
    apic.read32 lapicTmr ≠ 0 ∧ 256 ≤ apic.getActiveIrq ∨
    apic.read32 lapicTmr = 0 ∧ apic.getActiveIrq < 256 ∧
      (apic.IsHighestInService apic.getActiveIrq ↔ apic.OneInTopWord) := by
  rcases apic.scan_isr_cases 8 with ⟨hnone, hall⟩ | ⟨i, hpos, hle, hne, hhigher, hresult⟩
  · have hclear : ∀ vector, 32 ≤ vector → vector ≤ 255 → ¬ apic.inService vector :=
      fun vector hlow hhigh => not_in_service (hall _ (by omega) (by omega))
    refine Or.inr ⟨hall 8 (by decide) (by decide), ?_, ?_⟩
    · rw [getActiveIrq, hnone]
      decide
    · refine iff_of_true (Or.inr ⟨hnone, hclear⟩) ?_
      intro vector other hlow hhigh hin
      exact absurd hin (hclear vector hlow hhigh)
  · obtain ⟨bit, hbit, hffs, hset, hlowest⟩ := ffs_eq hne
    have hirq : apic.getActiveIrq = (32 * i + bit : Nat) := by
      rw [getActiveIrq, hresult, hffs]
      omega
    rcases Nat.lt_or_ge i 8 with hlt | hge
    · have htop := highest_iff_of_top hpos (by omega) hbit hset hlowest
        fun j hlow hhigh => hhigher j hlow (by omega)
      refine Or.inr ⟨hhigher 8 hlt (Nat.le_refl 8), by omega, ?_⟩
      rw [hirq]
      exact htop
    · obtain rfl : i = 8 := by omega
      exact Or.inl ⟨hne, by omega⟩

end LocalApic

end Otrix.Arch
