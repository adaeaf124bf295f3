import Otrix.Arch.Lapic

/-!
# Interrupt requests

`irq_table` of `arch/x86_64/irq_manager.cpp`: `request_irq` takes the first entry that is not allocated,
`free_irq` gives it back, and `irq_handler` calls the handler of the interrupt that the local APIC
reports. The table has `NUM_IRQ` entries, and `irq_handler` does not compare the number with it.
Handlers, owners and contexts are addresses.
-/

namespace Otrix.Arch

/-- `NUM_IRQ`. -/
def numIrq : Nat := 256

/-- `FIRST_USER_IRQ_NUM`. -/
def firstUserIrqNum : Nat := 32

/-- `irq_entry`. -/
structure IrqEntry where
  allocated : Bool
  counter : UInt32
  owner : Nat
  handler : Nat
  context : Nat

/-- `irq_table`. -/
structure IrqTable where
  entry : Nat → IrqEntry

namespace IrqTable

/-- An interrupt number that `request_irq` may return. -/
def Available (table : IrqTable) (irq : Nat) : Prop :=
  firstUserIrqNum ≤ irq ∧ irq < numIrq ∧ (table.entry irq).allocated = false
  deriving Decidable

/-- The search of `request_irq`. -/
def firstAvailable (table : IrqTable) : Option Nat :=
  (List.range' firstUserIrqNum (numIrq - firstUserIrqNum)).find? fun i => !(table.entry i).allocated

/-- `request_irq`. -/
def requestIrq (table : IrqTable) (handler owner context : Nat) : IrqTable × Int :=
  match table.firstAvailable with
  | some i => (⟨Function.update table.entry i ⟨true, 0, owner, handler, context⟩⟩, i)
  | none => (table, -1)

/-- `free_irq`. -/
def freeIrq (table : IrqTable) (irq : Int) : IrqTable :=
  if firstUserIrqNum ≤ irq ∧ irq < numIrq then
    ⟨Function.update table.entry irq.toNat { table.entry irq.toNat with allocated := false }⟩
  else table

/-- `init`: no entry is allocated. -/
def init (table : IrqTable) : IrqTable :=
  ⟨fun i => { table.entry i with allocated := false }⟩

/-- `irq_handler`: the handler that is called and its context. It is undefined when the entry is not
in the table. -/
def irqHandler (table : IrqTable) (apic : LocalApic) :
    Option (IrqTable × LocalApic × Option (Nat × Nat)) :=
  let irq := apic.getActiveIrq
  let apic := apic.signalEoi
  if irq < 0 then some (table, apic, none)
  else if numIrq ≤ irq then none
  else
    let entry := table.entry irq.toNat
    if entry.allocated then
      some (⟨Function.update table.entry irq.toNat { entry with counter := entry.counter + 1 }⟩, apic,
        if entry.handler ≠ 0 then some (entry.handler, entry.context) else none)
    else some (table, apic, none)

variable {table : IrqTable}

theorem available_of_first_available {irq : Nat} (hfind : table.firstAvailable = some irq) :
    table.Available irq := by
  have hmem := List.mem_range'_1.mp (List.mem_of_find?_eq_some hfind)
  have hfree := List.find?_some hfind
  refine ⟨hmem.1, ?_, ?_⟩
  · have hlt := hmem.2
    simp only [firstUserIrqNum, numIrq] at hlt ⊢
    omega
  · simpa using hfree

/-- `firstAvailable` finds nothing when no interrupt is available. -/
theorem first_available_eq_none_iff :
    table.firstAvailable = none ↔ ∀ irq, ¬ table.Available irq := by
  rw [firstAvailable, List.find?_eq_none]
  constructor
  · rintro hnone irq ⟨hlow, hhigh, hfree⟩
    refine hnone irq (List.mem_range'_1.mpr ⟨hlow, ?_⟩) (by rw [hfree]; rfl)
    simp only [firstUserIrqNum, numIrq] at hhigh ⊢
    omega
  · intro hnone irq hmem hfree
    obtain ⟨hlow, hhigh⟩ := List.mem_range'_1.mp hmem
    refine hnone irq ⟨hlow, ?_, by simpa using hfree⟩
    simp only [firstUserIrqNum, numIrq] at hhigh ⊢
    omega

theorem request_irq_cases (table : IrqTable) (handler owner context : Nat) :
    (∃ irq : Nat, table.Available irq ∧ table.requestIrq handler owner context =
      (IrqTable.mk (Function.update table.entry irq ⟨true, 0, owner, handler, context⟩), (irq : Int))) ∨
    (∀ irq, ¬ table.Available irq) ∧ table.requestIrq handler owner context = (table, -1) := by
  unfold requestIrq
  cases hfind : table.firstAvailable with
  | some irq => exact Or.inl ⟨irq, available_of_first_available hfind, rfl⟩
  | none => exact Or.inr ⟨first_available_eq_none_iff.mp hfind, rfl⟩

theorem available_init_iff (table : IrqTable) (irq : Nat) :
    table.init.Available irq ↔ firstUserIrqNum ≤ irq ∧ irq < numIrq :=
  and_congr_right fun _ => and_iff_left rfl

/-- `free_irq` makes an interrupt available again, and leaves the others as they are. -/
theorem available_free_irq_iff (table : IrqTable) {irq : Nat} (hlow : firstUserIrqNum ≤ irq)
    (hhigh : irq < numIrq) (other : Nat) :
    (table.freeIrq irq).Available other ↔ other = irq ∨ table.Available other := by
  have hrange : (firstUserIrqNum : Int) ≤ irq ∧ (irq : Int) < numIrq :=
    ⟨Int.ofNat_le.mpr hlow, Int.ofNat_lt.mpr hhigh⟩
  rw [freeIrq, if_pos hrange, Int.toNat_natCast]
  by_cases heq : other = irq
  · subst heq
    refine iff_of_true ⟨hlow, hhigh, ?_⟩ (Or.inl rfl)
    simp only [Function.update_self]
  · rw [or_iff_right heq, Available, Available]
    simp only [Function.update_of_ne heq]

/-- `irq_handler` uses an entry of the table exactly if the interrupt number is below `NUM_IRQ`. -/
theorem irq_handler_is_some_iff (table : IrqTable) (apic : LocalApic) :
    (table.irqHandler apic).isSome ↔ apic.getActiveIrq < numIrq := by
  unfold irqHandler
  by_cases hneg : apic.getActiveIrq < 0
  · simp only [if_pos hneg, Option.isSome_some, true_iff]
    exact Int.lt_trans hneg (by decide)
  · by_cases hbound : (numIrq : Int) ≤ apic.getActiveIrq
    · simp only [if_neg hneg, if_pos hbound, Option.isSome_none, Bool.false_eq_true, false_iff]
      exact Int.not_lt.mpr hbound
    · simp only [if_neg hneg, if_neg hbound]
      refine iff_of_true ?_ (Int.not_le.mp hbound)
      split <;> rfl

end IrqTable

/-- The handler gets the highest vector in service exactly if the trigger mode word behind the in-service
register is zero and the word of the highest vector holds no other vector in service. It stays inside
the table exactly if the trigger mode word is zero. -/
theorem active_irq_correct_iff (table : IrqTable) (apic : LocalApic) :
    (apic.IsHighestInService apic.getActiveIrq ∧ (table.irqHandler apic).isSome ↔
      apic.read32 lapicTmr = 0 ∧ apic.OneInTopWord) ∧
    ((table.irqHandler apic).isSome ↔ apic.read32 lapicTmr = 0) := by
  rw [table.irq_handler_is_some_iff apic]
  rcases apic.active_irq_cases with ⟨htmr, hbeyond⟩ | ⟨htmr, hbelow, htop⟩
  · have hnot : ¬ apic.getActiveIrq < numIrq := Int.not_lt.mpr hbeyond
    exact ⟨iff_of_false (fun h => hnot h.2) (fun h => htmr h.1), iff_of_false hnot htmr⟩
  · have hin : apic.getActiveIrq < numIrq := hbelow
    exact ⟨by rw [htop, and_iff_left hin, and_iff_right htmr], iff_of_true hin htmr⟩

/-- With the vectors 32 and 33 in service the result is 32. With a level-triggered vector among the
first 32 the result is behind the table. -/
theorem active_irq_is_not_highest :
    (∃ apic : LocalApic, apic.read32 lapicTmr = 0 ∧ apic.inService 33 ∧ apic.getActiveIrq = 32) ∧
    ∃ apic : LocalApic, (∀ vector, ¬ apic.inService vector ∨ 256 ≤ vector) ∧
      apic.getActiveIrq = 256 ∧ ∀ table : IrqTable, table.irqHandler apic = none := by
  refine ⟨⟨⟨fun reg => if reg = 0x811 then 3 else 0⟩, by decide, by decide, by decide⟩, ?_⟩
  refine ⟨⟨fun reg => if reg = 0x818 then 1 else 0⟩, fun vector => ?_, by decide, fun table => ?_⟩
  · by_cases hbound : 256 ≤ vector
    · exact Or.inr hbound
    · refine Or.inl (LocalApic.not_in_service ?_)
      have hne : ¬ ia32MsrX2apicMmio + (lapicIsr + vector / 32) = 0x818 := by
        simp only [ia32MsrX2apicMmio, lapicIsr]
        omega
      simp only [LocalApic.read32, if_neg hne]
      rfl
  · have hirq : (⟨fun reg => if reg = 0x818 then 1 else 0⟩ : LocalApic).getActiveIrq = 256 := by decide
    simp [IrqTable.irqHandler, hirq, numIrq]

end Otrix.Arch
