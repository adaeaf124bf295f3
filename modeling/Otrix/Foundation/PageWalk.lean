import Otrix.Foundation.ByteMemory
import Mathlib.Algebra.Group.Nat.Defs

/-!
# The page walk of the x86-64 architecture

Translation of a virtual address through four levels of page tables in physical
memory. Level 3 is the page map, level 0 the last table. A table has 512 entries
of eight bytes, and each level takes nine bits of the address as its index.

An entry with bit 0 clear ends the walk. On the levels 1 and 2 an entry with bit 7
set maps a page of its own; elsewhere it points to the next table. A page may be
written, used in user mode or executed only if every entry on the way says so.
Physical addresses have 52 bits.

The rules at the end run the walk through entries that are composed with `|||`
from an aligned address and flags below it.
-/

namespace Paging

open Bytes

/-- An address whose upper bits repeat bit 47. -/
def Canonical (address : Nat) : Prop :=
  address < 2 ^ 47 ∨ 2 ^ 64 - 2 ^ 47 ≤ address ∧ address < 2 ^ 64
  deriving Decidable

/-- The number of address bits that an entry of the level leaves open. -/
def shift (level : Nat) : Nat :=
  12 + 9 * level

/-- The entry of a table of the level that the walk of an address reads. -/
def index (level address : Nat) : Nat :=
  address / 2 ^ shift level % 2 ^ 9

/-- The physical address in an entry, from bit `low` up. -/
def target (low entry : Nat) : Nat :=
  entry / 2 ^ low % 2 ^ (52 - low) * 2 ^ low

/-- What the entries on the way allow. -/
structure Access where
  writable : Bool
  user : Bool
  executable : Bool
  deriving DecidableEq

/-- No entry has been read yet. -/
def Access.all : Access :=
  ⟨true, true, true⟩

/-- What is still allowed behind an entry. -/
def Access.behind (access : Access) (entry : Nat) : Access where
  writable := access.writable && entry.testBit 1
  user := access.user && entry.testBit 2
  executable := access.executable && !entry.testBit 63

/-- A page, with the physical address that the translated address has in it. -/
structure Page where
  physical : Nat
  size : Nat
  access : Access
  deriving DecidableEq

/-- How a walk ends. The levels are those of the entry that ends it. -/
inductive Translation where
  | nonCanonical
  | notPresent (level : Nat)
  | reserved (level : Nat)
  | mapped (page : Page)
  deriving DecidableEq

/-- The page that an entry of the level maps. -/
def pageAt (level entry address : Nat) (access : Access) : Page where
  physical := target (shift level) entry + address % 2 ^ shift level
  size := 2 ^ shift level
  access := access.behind entry

/-- A present entry with a reserved bit set: the page map has no pages, and the address of a large
page has no bits below its size. -/
def Malformed (level entry : Nat) : Prop :=
  entry.testBit 7 = true ∧ (level = 3 ∨ entry / 2 ^ 13 % 2 ^ (shift level - 13) ≠ 0)
  deriving Decidable

/-- The walk from a table of the level on. -/
def walkTable (memory : Mem) (address : Nat) : Nat → Nat → Access → Translation
  | 0, table, access =>
    let entry := memory.load (table + 8 * index 0 address) 8
    if entry.testBit 0 = false then .notPresent 0
    else .mapped (pageAt 0 entry address access)
  | level + 1, table, access =>
    let entry := memory.load (table + 8 * index (level + 1) address) 8
    if entry.testBit 0 = false then .notPresent (level + 1)
    else if Malformed (level + 1) entry then .reserved (level + 1)
    else if entry.testBit 7 = true then .mapped (pageAt (level + 1) entry address access)
    else walkTable memory address level (target 12 entry) (access.behind entry)

/-- The walk from the page map in `cr3`. -/
def walk (memory : Mem) (cr3 address : Nat) : Translation :=
  if Canonical address then walkTable memory address 3 (target 12 cr3) .all else .nonCanonical

/-! ## Entries made of an address and flags -/

section Entries

variable {low flags base : Nat}

theorem or_eq_add (hflags : flags < 2 ^ low) (hbase : 2 ^ low ∣ base) : flags ||| base = base + flags := by
  obtain ⟨page, rfl⟩ := hbase
  rw [Nat.or_comm, Nat.two_pow_add_eq_or_of_lt hflags]

theorem testBit_or_of_lt {bit : Nat} (hbit : bit < low) (hbase : 2 ^ low ∣ base) :
    (flags ||| base).testBit bit = flags.testBit bit := by
  obtain ⟨page, rfl⟩ := hbase
  rw [Nat.testBit_or, Nat.testBit_two_pow_mul, decide_eq_false (Nat.not_le_of_lt hbit), Bool.false_and,
    Bool.or_false]

theorem target_or (hlow : low ≤ 52) (hflags : flags < 2 ^ low) (hbase : 2 ^ low ∣ base)
    (hlt : base < 2 ^ 52) : target low (flags ||| base) = base := by
  rw [target, or_eq_add hflags hbase]
  obtain ⟨page, rfl⟩ := hbase
  have hpage : page < 2 ^ (52 - low) := by
    rw [← Nat.add_sub_cancel' hlow, Nat.pow_add] at hlt
    exact Nat.lt_of_mul_lt_mul_left hlt
  rw [Nat.mul_add_div (Nat.two_pow_pos low), Nat.div_eq_of_lt hflags, Nat.add_zero,
    Nat.mod_eq_of_lt hpage, Nat.mul_comm]

theorem behind_or (access : Access) (hflags : flags < 2 ^ 12) (hbase : 2 ^ 12 ∣ base)
    (hlt : base < 2 ^ 52) : access.behind (flags ||| base) = access.behind flags := by
  have hhigh : ∀ word : Nat, word < 2 ^ 52 → word.testBit 63 = false := by
    intro word hword
    exact Nat.testBit_lt_two_pow (Nat.lt_of_lt_of_le hword (by decide))
  have hsmall : flags < 2 ^ 52 := Nat.lt_of_lt_of_le hflags (by decide)
  simp only [Access.behind, testBit_or_of_lt (show 1 < 12 by decide) hbase,
    testBit_or_of_lt (show 2 < 12 by decide) hbase, hhigh _ (Nat.or_lt_two_pow hsmall hlt), hhigh _ hsmall]

end Entries

/-! ## Rules of the walk -/

section Rules

variable {memory : Mem} {address level table flags base : Nat} {access : Access}

theorem walkTable_clear (hload : memory.load (table + 8 * index level address) 8 = 0) :
    walkTable memory address level table access = .notPresent level := by
  cases level with
  | zero => simp [walkTable, hload]
  | succ level => simp [walkTable, hload]

/-- The walk goes on in the table that an entry points to. -/
theorem walkTable_next
    (hload : memory.load (table + 8 * index (level + 1) address) 8 = flags ||| base)
    (hflags : flags < 2 ^ 12) (hbase : 2 ^ 12 ∣ base) (hlt : base < 2 ^ 52)
    (hpresent : flags.testBit 0 = true) (hsize : flags.testBit 7 = false) :
    walkTable memory address (level + 1) table access =
      walkTable memory address level base (access.behind flags) := by
  have hbit : ∀ bit < 12, (flags ||| base).testBit bit = flags.testBit bit :=
    fun bit hbit => testBit_or_of_lt hbit hbase
  have hformed : ¬ Malformed (level + 1) (flags ||| base) := by
    rintro ⟨hset, _⟩
    rw [hbit 7 (by decide), hsize] at hset
    cases hset
  simp only [walkTable, hload, hbit 0 (by decide), hbit 7 (by decide), hpresent, hsize, hformed,
    target_or (by decide) hflags hbase hlt, behind_or access hflags hbase hlt, if_false,
    Bool.true_eq_false, Bool.false_eq_true]

/-- The walk ends at an entry that maps a large page. -/
theorem walkTable_page (hlevel : level < 2)
    (hload : memory.load (table + 8 * index (level + 1) address) 8 = flags ||| base)
    (hflags : flags < 2 ^ 12) (hbase : 2 ^ shift (level + 1) ∣ base) (hlt : base < 2 ^ 52)
    (hpresent : flags.testBit 0 = true) (hsize : flags.testBit 7 = true) :
    walkTable memory address (level + 1) table access =
      .mapped ⟨base + address % 2 ^ shift (level + 1), 2 ^ shift (level + 1), access.behind flags⟩ := by
  have hwide : 12 ≤ shift (level + 1) := Nat.le_add_right 12 _
  have hpage : 2 ^ 12 ∣ base := (Nat.pow_dvd_pow 2 hwide).trans hbase
  have hbelow : flags < 2 ^ shift (level + 1) :=
    Nat.lt_of_lt_of_le hflags (Nat.pow_le_pow_right (by decide) hwide)
  have hbit : ∀ bit < 12, (flags ||| base).testBit bit = flags.testBit bit :=
    fun bit hbit => testBit_or_of_lt hbit hpage
  have hformed : ¬ Malformed (level + 1) (flags ||| base) := by
    rintro ⟨_, hmap | hset⟩
    · omega
    · -- neither the flags nor the address has a bit from 13 up to the size of the page
      refine hset ?_
      rw [or_eq_add hbelow hbase]
      obtain ⟨page, rfl⟩ := hbase
      have hsplit : 2 ^ shift (level + 1) = 2 ^ 13 * 2 ^ (shift (level + 1) - 13) := by
        rw [← Nat.pow_add]
        congr 1
        unfold shift
        omega
      rw [hsplit, Nat.mul_assoc, Nat.mul_add_div (by decide), Nat.div_eq_of_lt (by omega), Nat.add_zero,
        Nat.mul_mod_right]
  have hshift : shift (level + 1) ≤ 52 := by
    unfold shift
    omega
  simp only [walkTable, pageAt, hload, hbit 0 (by decide), hbit 7 (by decide), hpresent, hsize, hformed,
    target_or hshift hbelow hbase hlt, behind_or access hflags hpage hlt, if_false, if_true,
    Bool.true_eq_false]

end Rules

end Paging
