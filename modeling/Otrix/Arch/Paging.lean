import Otrix.Common.Word
import Otrix.Foundation.PageWalk
import Otrix.Foundation.Run

/-!
# The identity mapping of `arch/x86_64/paging.cpp`

`init_identity_mapping` fills one page map, one page directory pointer table and
four page directories with pages of 2 MiB, and loads `cr3`. The tables are
static arrays: the linker places them, and their entries are clear when the
kernel is loaded. The kernel runs with physical addresses equal to virtual ones,
so that a pointer to a table is its physical address.

The theorem at the end is about the walk that the processor makes from then on:
exactly the addresses below 4 GiB are mapped, each to itself.
-/

namespace Otrix.Arch

open Bytes Paging

/-- `page_table_alignment`. -/
def pageTableAlignment : Nat := 4096

/-- `PAGE_PRESENT`. -/
def pagePresent : Nat := 1 <<< 0

/-- `PAGE_RW`. -/
def pageRw : Nat := 1 <<< 1

/-- `PAGE_HUGE`. -/
def pageHuge : Nat := 1 <<< 7

/-- `make_p4_entry`. -/
def makeP4Entry (p3Addr : Nat) : Nat :=
  pagePresent ||| pageRw ||| p3Addr

/-- `make_p3_entry`. -/
def makeP3Entry (p2Addr : Nat) : Nat :=
  pagePresent ||| pageRw ||| p2Addr

/-- `make_p2_entry_huge`. -/
def makeP2EntryHuge (physAddr : Nat) : Nat :=
  pagePresent ||| pageRw ||| pageHuge ||| physAddr

/-- A place for `p4_table`, `p3_table` and `p2_tables`: three arrays of 1, 1 and 4 tables, aligned as
they are declared, within the physical address space and apart from each other. -/
structure PageTables where
  p4Table : Nat
  p3Table : Nat
  p2Tables : Nat
  p4_aligned : pageTableAlignment ∣ p4Table
  p3_aligned : pageTableAlignment ∣ p3Table
  p2_aligned : pageTableAlignment ∣ p2Tables
  p4_below : p4Table + 8 * 512 ≤ 2 ^ 52
  p3_below : p3Table + 8 * 512 ≤ 2 ^ 52
  p2_below : p2Tables + 4 * (8 * 512) ≤ 2 ^ 52
  p4_p3 : p4Table + 8 * 512 ≤ p3Table ∨ p3Table + 8 * 512 ≤ p4Table
  p4_p2 : p4Table + 8 * 512 ≤ p2Tables ∨ p2Tables + 4 * (8 * 512) ≤ p4Table
  p3_p2 : p3Table + 8 * 512 ≤ p2Tables ∨ p2Tables + 4 * (8 * 512) ≤ p3Table

namespace PageTables

/-- `p2_tables[i]`. -/
def p2Table (tables : PageTables) (i : Nat) : Nat :=
  tables.p2Tables + 8 * 512 * i

/-- The inner loop of `init_identity_mapping`, on the memory and the running physical address. -/
def fillP2Table (tables : PageTables) (i : Nat) (state : Mem × Nat) : Mem × Nat :=
  (List.range 512).foldl (fun (memory, phys) j =>
    (memory.store (tables.p2Table i + 8 * j) (makeP2EntryHuge phys) 8, u64 (phys + 2 <<< 20))) state

/-- One turn of the outer loop. -/
def fillRow (tables : PageTables) (state : Mem × Nat) (i : Nat) : Mem × Nat :=
  let filled := tables.fillP2Table i state
  (filled.1.store (tables.p3Table + 8 * i) (makeP3Entry (tables.p2Table i)) 8, filled.2)

end PageTables

/-- What the walk of the processor depends on. -/
structure Mmu where
  memory : Mem
  cr3 : Nat

/-- `init_identity_mapping`. -/
def initIdentityMapping (tables : PageTables) (memory : Mem) : Mmu :=
  let filled := (List.range 4).foldl tables.fillRow (memory, 0)
  ⟨filled.1.store tables.p4Table (makeP4Entry tables.p3Table) 8, tables.p4Table⟩

/-- The entries that `init_identity_mapping` does not write are clear. They are so when the kernel is
loaded, since the tables are static, and nothing else writes to them. -/
structure PageTables.Clear (tables : PageTables) (memory : Mem) : Prop where
  p4 : ∀ j, 0 < j → j < 512 → memory.load (tables.p4Table + 8 * j) 8 = 0
  p3 : ∀ i, 4 ≤ i → i < 512 → memory.load (tables.p3Table + 8 * i) 8 = 0

/-- The tables of a kernel that has just been loaded are clear. -/
theorem PageTables.clear_of_static {tables : PageTables} {memory : Mem}
    (hp4 : ∀ a, tables.p4Table ≤ a → a < tables.p4Table + 8 * 512 → memory.byte a = 0)
    (hp3 : ∀ a, tables.p3Table ≤ a → a < tables.p3Table + 8 * 512 → memory.byte a = 0) :
    tables.Clear memory := by
  constructor
  · intro j _ hj
    exact Mem.load_eq_zero fun a hlow hhigh => hp4 a (by omega) (by omega)
  · intro i _ hi
    exact Mem.load_eq_zero fun a hlow hhigh => hp3 a (by omega) (by omega)

/-! ## The loops -/

theorem load_store_entry (memory : Mem) (address : Nat) {entry : Nat} (h : entry < 2 ^ 52) :
    (memory.store address entry 8).load address 8 = entry := by
  rw [Mem.load_store_same, Nat.mod_eq_of_lt (Nat.lt_of_lt_of_le h (by decide))]

/-- After `count` turns of the inner loop: the entries so far continue the physical address that the loop
started with, and nothing outside the table has changed. -/
structure PageTables.RowFilled (tables : PageTables) (i : Nat) (start : Mem × Nat) (count : Nat)
    (state : Mem × Nat) : Prop where
  phys : state.2 = start.2 + 2 ^ 21 * count
  entries : ∀ j < count,
    state.1.load (tables.p2Table i + 8 * j) 8 = makeP2EntryHuge (start.2 + 2 ^ 21 * j)
  frame : ∀ address, address + 8 ≤ tables.p2Table i ∨ tables.p2Table i + 8 * 512 ≤ address →
    state.1.load address 8 = start.1.load address 8

theorem PageTables.fill_p2_table (tables : PageTables) (i : Nat) (start : Mem × Nat)
    (hphys : start.2 + 2 ^ 30 ≤ 2 ^ 52) :
    tables.RowFilled i start 512 (tables.fillP2Table i start) := by
  refine Machine.counted_invariant (tables.RowFilled i start) _ ⟨rfl, by simp, fun _ _ => rfl⟩ 512 ?_
  rintro j hj ⟨memory, phys⟩ h
  obtain rfl : phys = start.2 + 2 ^ 21 * j := h.phys
  have hstep : (2 <<< 20 : Nat) = 2 ^ 21 := rfl
  have hentry : makeP2EntryHuge (start.2 + 2 ^ 21 * j) < 2 ^ 52 :=
    Nat.or_lt_two_pow (by decide) (by omega)
  refine ⟨?_, ?_, ?_⟩
  · show u64 (start.2 + 2 ^ 21 * j + 2 <<< 20) = _
    rw [hstep, u64_of_lt (by omega)]
    omega
  · intro k hk
    by_cases heq : k = j
    · rw [heq]
      exact load_store_entry memory _ hentry
    · show (memory.store _ _ 8).load _ 8 = _
      rw [Mem.load_store_other (by omega)]
      exact h.entries k (by omega)
  · intro address haddress
    show (memory.store _ _ 8).load _ 8 = _
    rw [Mem.load_store_other (by omega)]
    exact h.frame address haddress

/-- After `count` turns of the outer loop. -/
structure PageTables.Filled (tables : PageTables) (start : Mem) (count : Nat) (state : Mem × Nat) :
    Prop where
  phys : state.2 = 2 ^ 30 * count
  p2 : ∀ i < count, ∀ j < 512,
    state.1.load (tables.p2Table i + 8 * j) 8 = makeP2EntryHuge (2 ^ 30 * i + 2 ^ 21 * j)
  p3 : ∀ i < count, state.1.load (tables.p3Table + 8 * i) 8 = makeP3Entry (tables.p2Table i)
  frame : ∀ address, address + 8 ≤ tables.p2Tables ∨ tables.p2Table 4 ≤ address →
    address + 8 ≤ tables.p3Table ∨ tables.p3Table + 8 * count ≤ address →
    state.1.load address 8 = start.load address 8

/-- One turn of the outer loop, behind a turn of the inner loop. -/
theorem PageTables.filled_fill_row {tables : PageTables} {start : Mem} {i : Nat} {before row : Mem × Nat}
    (hi : i < 4) (h : tables.Filled start i before) (hrow : tables.RowFilled i before 512 row) :
    tables.Filled start (i + 1)
      (row.1.store (tables.p3Table + 8 * i) (makeP3Entry (tables.p2Table i)) 8, row.2) := by
  have hbelow := tables.p2_below
  have happart := tables.p3_p2
  have hphys := h.phys
  have hfour : tables.p2Table 4 = tables.p2Tables + 8 * 512 * 4 := rfl
  obtain ⟨hnext, hentries, hframe⟩ := hrow
  have hentry : makeP3Entry (tables.p2Table i) < 2 ^ 52 := by
    refine Nat.or_lt_two_pow (by decide) ?_
    unfold PageTables.p2Table
    omega
  unfold PageTables.p2Table at hentries hframe
  refine ⟨?_, ?_, ?_, ?_⟩
  · show row.2 = 2 ^ 30 * (i + 1)
    omega
  · intro k hk j hj
    unfold PageTables.p2Table
    rw [Mem.load_store_other (by omega)]
    by_cases heq : k = i
    · rw [heq, hentries j hj, hphys]
    · rw [hframe _ (by omega)]
      exact h.p2 k (by omega) j hj
  · intro k hk
    by_cases heq : k = i
    · rw [heq]
      exact load_store_entry _ _ hentry
    · rw [Mem.load_store_other (by omega), hframe _ (by omega)]
      exact h.p3 k (by omega)
  · intro address hp2 hp3
    rw [Mem.load_store_other (by omega), hframe _ (by omega)]
    exact h.frame address hp2 (by omega)

/-- The outer loop writes the four tables and the entries that point to them. -/
theorem PageTables.fill_rows (tables : PageTables) (start : Mem) :
    tables.Filled start 4 ((List.range 4).foldl tables.fillRow (start, 0)) := by
  refine Machine.counted_invariant (tables.Filled start) _ ⟨rfl, by simp, by simp, fun _ _ _ => rfl⟩ 4 ?_
  intro i hi before h
  have hphys := h.phys
  exact filled_fill_row hi h (tables.fill_p2_table i before (by omega))

/-- What the page tables hold once the mapping has been initialised. -/
structure PageTables.Identity (tables : PageTables) (memory : Mem) : Prop where
  p2 : ∀ i < 4, ∀ j < 512,
    memory.load (tables.p2Table i + 8 * j) 8 = makeP2EntryHuge (2 ^ 30 * i + 2 ^ 21 * j)
  p3 : ∀ i < 4, memory.load (tables.p3Table + 8 * i) 8 = makeP3Entry (tables.p2Table i)
  p4 : memory.load tables.p4Table 8 = makeP4Entry tables.p3Table
  clear : tables.Clear memory

/-- `init_identity_mapping` writes every entry of the mapping and no other one. -/
theorem init_identity_mapping_entries {tables : PageTables} {memory : Mem} (hclear : tables.Clear memory) :
    tables.Identity (initIdentityMapping tables memory).memory := by
  have h := tables.fill_rows memory
  have hp3 := tables.p4_p3
  have hp2 := tables.p4_p2
  have hp3p2 := tables.p3_p2
  have hbelow := tables.p3_below
  have hfour : tables.p2Table 4 = tables.p2Tables + 8 * 512 * 4 := rfl
  have hmemory : (initIdentityMapping tables memory).memory =
      ((List.range 4).foldl tables.fillRow (memory, 0)).1.store tables.p4Table
        (makeP4Entry tables.p3Table) 8 := rfl
  rw [hmemory]
  refine ⟨?_, ?_, ?_, ?_, ?_⟩
  · intro i hi j hj
    rw [Mem.load_store_other (by unfold PageTables.p2Table; omega)]
    exact h.p2 i hi j hj
  · intro i hi
    rw [Mem.load_store_other (by omega)]
    exact h.p3 i hi
  · exact load_store_entry _ _ (Nat.or_lt_two_pow (by decide) (by omega))
  · intro j hpos hj
    rw [Mem.load_store_other (by omega), h.frame _ (by omega) (by omega)]
    exact hclear.p4 j hpos hj
  · intro i hlow hi
    rw [Mem.load_store_other (by omega), h.frame _ (by omega) (by omega)]
    exact hclear.p3 i hlow hi

/-! ## The walk -/

/-- The access that the entries of the mapping leave: the pages are writable and executable, for the
kernel only. -/
def kernelAccess : Access :=
  ⟨true, false, true⟩

section

variable {tables : PageTables} {memory : Mem} {address : Nat}

/-- The walk starts from the page map, whose address is loaded without flags. -/
theorem p4_target (tables : PageTables) : target 12 tables.p4Table = tables.p4Table := by
  have hbelow := tables.p4_below
  have hroot := @target_or 12 0 tables.p4Table (by decide) (by decide) tables.p4_aligned (by omega)
  rwa [Nat.zero_or] at hroot

/-- Addresses below 512 GiB go through the first entry of the page map. -/
theorem walk_below_p4 (h : tables.Identity memory) (haddress : address < 2 ^ 39) :
    walk memory tables.p4Table address = walkTable memory address 2 tables.p3Table kernelAccess := by
  have hcanonical : Canonical address := Or.inl (by omega)
  have hindex : index 3 address = 0 := by
    unfold index shift
    omega
  have hbelow := tables.p3_below
  have hentry : memory.load (tables.p4Table + 8 * index 3 address) 8 =
      (pagePresent ||| pageRw) ||| tables.p3Table := by
    rw [hindex]
    exact h.p4
  have haccess : Access.all.behind (pagePresent ||| pageRw) = kernelAccess := by decide
  rw [walk, if_pos hcanonical, p4_target, walkTable_next hentry (by decide) tables.p3_aligned (by omega)
    (by decide) (by decide), haccess]

/-- Addresses below 4 GiB go on through one of the four page directories. -/
theorem walk_below_p3 (h : tables.Identity memory) (haddress : address < 2 ^ 32) :
    walkTable memory address 2 tables.p3Table kernelAccess =
      walkTable memory address 1 (tables.p2Table (index 2 address)) kernelAccess := by
  have hindex : index 2 address < 4 := by
    unfold index shift
    omega
  have hbelow := tables.p2_below
  have haligned : 2 ^ 12 ∣ tables.p2Table (index 2 address) :=
    Nat.dvd_add tables.p2_aligned (Nat.dvd_mul_right _ _)
  have hlt : tables.p2Table (index 2 address) < 2 ^ 52 := by
    unfold PageTables.p2Table
    omega
  have haccess : kernelAccess.behind (pagePresent ||| pageRw) = kernelAccess := by decide
  rw [walkTable_next (h.p3 _ hindex) (by decide) haligned hlt (by decide) (by decide), haccess]

/-- The page directories map every address below 4 GiB to itself. -/
theorem walk_below_p2 (h : tables.Identity memory) (haddress : address < 2 ^ 32) :
    walkTable memory address 1 (tables.p2Table (index 2 address)) kernelAccess =
      .mapped ⟨address, 2 ^ 21, kernelAccess⟩ := by
  have hrow : index 2 address < 4 := by
    unfold index shift
    omega
  have hcolumn : index 1 address < 512 := by
    unfold index
    omega
  have hdvd : 2 ^ shift 1 ∣ 2 ^ 30 * index 2 address + 2 ^ 21 * index 1 address := by
    unfold shift
    omega
  have hlt : 2 ^ 30 * index 2 address + 2 ^ 21 * index 1 address < 2 ^ 52 := by omega
  have haccess : kernelAccess.behind (pagePresent ||| pageRw ||| pageHuge) = kernelAccess := by decide
  -- the two indices and the offset are the digits of the address
  have hdigits : 2 ^ 30 * index 2 address + 2 ^ 21 * index 1 address + address % 2 ^ shift 1 =
      address := by
    unfold index shift
    omega
  rw [walkTable_page (by decide) (h.p2 _ hrow _ hcolumn) (by decide) hdvd hlt (by decide)
    (by decide), haccess, hdigits]
  rfl

/-- From 4 GiB to 512 GiB the walk ends in the page directory pointer table. -/
theorem walk_above_p3 (h : tables.Identity memory) (hlow : 2 ^ 32 ≤ address) (hhigh : address < 2 ^ 39) :
    walkTable memory address 2 tables.p3Table kernelAccess = .notPresent 2 := by
  refine walkTable_clear (h.clear.p3 _ ?_ ?_)
  · unfold index shift
    omega
  · unfold index shift
    omega

/-- From 512 GiB on the walk of a canonical address ends in the page map. -/
theorem walk_above_p4 (h : tables.Identity memory) (hlow : 2 ^ 39 ≤ address)
    (hcanonical : Canonical address) :
    walk memory tables.p4Table address = .notPresent 3 := by
  rw [walk, if_pos hcanonical, p4_target]
  unfold Canonical at hcanonical
  refine walkTable_clear (h.clear.p4 _ ?_ ?_)
  · unfold index shift
    omega
  · unfold index shift
    omega

end

/-- The translation that the processor makes. -/
def Mmu.translate (mmu : Mmu) (address : Nat) : Translation :=
  walk mmu.memory mmu.cr3 address

/-- After `init_identity_mapping` every address below 4 GiB is mapped to itself by a writable page of
2 MiB, and the walk of every other canonical address ends at an entry that is not present. -/
theorem identity_mapping_exact (tables : PageTables) (memory : Mem) (hclear : tables.Clear memory) :
    (∀ address < 2 ^ 32, (initIdentityMapping tables memory).translate address =
      .mapped ⟨address, 2 ^ 21, ⟨true, false, true⟩⟩) ∧
    ∀ address, 2 ^ 32 ≤ address → Canonical address →
      (initIdentityMapping tables memory).translate address =
        .notPresent (if address < 2 ^ 39 then 2 else 3) := by
  have h := init_identity_mapping_entries hclear
  have htranslate : ∀ address, (initIdentityMapping tables memory).translate address =
      walk (initIdentityMapping tables memory).memory tables.p4Table address := fun _ => rfl
  constructor
  · intro address haddress
    calc (initIdentityMapping tables memory).translate address
        = walkTable _ address 2 tables.p3Table kernelAccess := by
          rw [htranslate, walk_below_p4 h (by omega)]
      _ = walkTable _ address 1 (tables.p2Table (index 2 address)) kernelAccess :=
          walk_below_p3 h haddress
      _ = .mapped ⟨address, 2 ^ 21, kernelAccess⟩ := walk_below_p2 h haddress
  · intro address hlow hcanonical
    rw [htranslate]
    by_cases hhigh : address < 2 ^ 39
    · rw [if_pos hhigh, walk_below_p4 h hhigh]
      exact walk_above_p3 h hlow hhigh
    · rw [if_neg hhigh]
      exact walk_above_p4 h (by omega) hcanonical

/-- The tables one behind another from 2 MiB on. -/
def consecutiveTables : PageTables where
  p4Table := 0x200000
  p3Table := 0x201000
  p2Tables := 0x202000
  p4_aligned := by decide
  p3_aligned := by decide
  p2_aligned := by decide
  p4_below := by decide
  p3_below := by decide
  p2_below := by decide
  p4_p3 := by decide
  p4_p2 := by decide
  p3_p2 := by decide

/-- The address of the local APIC stays where it is, and the next address behind 4 GiB is not mapped. -/
theorem identity_mapping_lapic :
    consecutiveTables.Clear ⟨fun _ => 0⟩ ∧
      (initIdentityMapping consecutiveTables ⟨fun _ => 0⟩).translate 0xFEE00000 =
        .mapped ⟨0xFEE00000, 2 ^ 21, ⟨true, false, true⟩⟩ ∧
      (initIdentityMapping consecutiveTables ⟨fun _ => 0⟩).translate (2 ^ 32) = .notPresent 2 := by
  have hclear : consecutiveTables.Clear ⟨fun _ => 0⟩ :=
    PageTables.clear_of_static (fun _ _ _ => rfl) (fun _ _ _ => rfl)
  obtain ⟨hbelow, habove⟩ := identity_mapping_exact consecutiveTables ⟨fun _ => 0⟩ hclear
  exact ⟨hclear, hbelow 0xFEE00000 (by decide), habove (2 ^ 32) (Nat.le_refl _) (by decide)⟩

end Otrix.Arch
