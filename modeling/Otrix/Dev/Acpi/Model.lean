import Otrix.Common.Word
import Otrix.Foundation.ByteMemory

/-!
# The tables of the firmware

`dev/acpi.cpp`. `acpi_init` searches the area of the BIOS for the root pointer, and goes through the tables
that it names. The one that matters is the table of interrupt controllers, which `acpi_parse_madt` takes
apart entry by entry. Each entry tells its length in a byte.

Where the source reads a table, the model notes the address and the number of bytes.
-/

namespace Otrix.Dev.Acpi

open Bytes

/-- `acpi_context`. -/
structure Context where
  ioapicBase : Nat
  ioapicId : Nat
  lapicBase : Nat
  deriving DecidableEq

/-- Subtraction of `uint32_t`. -/
def sub32 (first second : Nat) : Nat :=
  (first + 2 ^ 32 - second) % 2 ^ 32

/-- `sizeof(acpi_sdt_hdr)`. -/
def sdtHdrBytes : Nat := 36

/-- `sizeof(acpi_madt)`. -/
def madtBytes : Nat := 44

/-- `acpi_sdt_hdr::length`. -/
def tableLength (memory : Mem) (table : Nat) : Nat := memory.load (table + 4) 4

/-- `acpi_validate_checksum`. -/
def validateChecksum (memory : Mem) (table : Nat) : Kerror :=
  let checksum := (List.range (tableLength memory table)).foldl
    (fun sum i => sum + memory.byte (table + i)) 0
  if checksum = 0 then .ok else .inval

/-! ## The interrupt controllers -/

/-- `ACPI_MADT_IOAPIC`. -/
def madtIoapic : UInt8 := 1

/-- `ACPI_MADT_LAPIC_OVERRIDE`. -/
def madtLapicOverride : UInt8 := 5

/-- `acpi_madt_entry_hdr::type`. -/
def entryType (memory : Mem) (entry : Nat) : UInt8 := memory.byte entry

/-- `acpi_madt_entry_hdr::length`. -/
def entryLength (memory : Mem) (entry : Nat) : Nat := (memory.byte (entry + 1)).toNat

/-- `acpi_madt_ioapic::ioapic_id`. -/
def ioapicId (memory : Mem) (entry : Nat) : Nat := (memory.byte (entry + 2)).toNat

/-- `acpi_madt_ioapic::ioapic_base`. -/
def ioapicBase (memory : Mem) (entry : Nat) : Nat := memory.load (entry + 4) 4

/-- `acpi_madt_lapic_override::lapic_address`. -/
def lapicAddress (memory : Mem) (entry : Nat) : Nat := memory.load (entry + 4) 8

/-- `acpi_madt::local_apic_address`. -/
def localApicAddress (memory : Mem) (madt : Nat) : Nat := memory.load (madt + 36) 4

/-- The `switch` over the type of an entry. -/
def applyEntry (memory : Mem) (context : Context) (entry : Nat) : Context :=
  if entryType memory entry = madtLapicOverride then
    { context with lapicBase := lapicAddress memory entry }
  else if entryType memory entry = madtIoapic then
    { context with ioapicBase := ioapicBase memory entry, ioapicId := ioapicId memory entry }
  else context

/-- What an iteration reads: the header of the entry, and the fields that its type has. -/
def entryReads (memory : Mem) (entry : Nat) : List (Nat × Nat) :=
  if entryType memory entry = madtLapicOverride then [(entry, 2), (entry + 4, 8)]
  else if entryType memory entry = madtIoapic then [(entry, 2), (entry + 4, 4), (entry + 2, 1)]
  else [(entry, 2)]

/-- The loop of `acpi_parse_madt`. -/
def madtLoop (memory : Mem) :
    Nat → Nat → Nat → Context → List (Nat × Nat) → Option (Context × List (Nat × Nat))
  | 0, _, len, context, reads => if len = 0 then some (context, reads) else none
  | fuel + 1, entry, len, context, reads =>
    if len = 0 then some (context, reads)
    else
      let length := entryLength memory entry
      madtLoop memory fuel (entry + length) (sub32 len length) (applyEntry memory context entry)
        (reads ++ entryReads memory entry)

/-- `acpi_parse_madt`: the context, and what was read. -/
def parseMadt (memory : Mem) (madt : Nat) (context : Context) (fuel : Nat) :
    Option (Context × List (Nat × Nat)) :=
  madtLoop memory fuel (madt + madtBytes) (sub32 (tableLength memory madt) madtBytes)
    { context with lapicBase := localApicAddress memory madt } [(madt + 4, 4), (madt + 36, 4)]

/-! ## The root table -/

/-- `memcmp` of the bytes at an address with a text, for equality. -/
def matchesText (memory : Mem) (address : Nat) (text : List UInt8) : Bool :=
  memory.read address text.length = text

/-- `madt_signature`. -/
def madtSignature : List UInt8 := [0x41, 0x50, 0x49, 0x43]

/-- `rsdt_signature`. -/
def rsdtSignature : List UInt8 := [0x52, 0x53, 0x44, 0x54]

/-- `acpi_parse_sdt_entry`. -/
def parseSdtEntry (memory : Mem) (fuel : Nat) (context : Context) (table : Nat) :
    Option (Kerror × Context) :=
  if validateChecksum memory table ≠ .ok then some (.inval, context)
  else if matchesText memory table madtSignature then
    (parseMadt memory table context fuel).map fun result => (.ok, result.1)
  else some (.ok, context)

/-- The loop of `acpi_parse_rsdt`. -/
def sdtLoop (memory : Mem) (fuel : Nat) : Context → List Nat → Option (Kerror × Context)
  | context, [] => some (.ok, context)
  | context, pointer :: pointers => do
    let (ret, context) ← parseSdtEntry memory fuel context (memory.load pointer 4)
    if ret ≠ .ok then some (ret, context) else sdtLoop memory fuel context pointers

/-- `num_entries`: a difference of 64 bits that is divided and then narrowed to an `int`. -/
def numEntries (memory : Mem) (rsdt : Nat) : Int :=
  Int.bmod (sub64 (tableLength memory rsdt) sdtHdrBytes / 4) (2 ^ 32)

/-- `acpi_parse_rsdt`. -/
def parseRsdt (memory : Mem) (fuel : Nat) (context : Context) (rsdt : Nat) : Option (Kerror × Context) :=
  if validateChecksum memory rsdt ≠ .ok then some (.inval, context)
  else if ¬ matchesText memory rsdt rsdtSignature then some (.inval, context)
  else
    sdtLoop memory fuel context
      ((List.range (numEntries memory rsdt).toNat).map fun i => rsdt + sdtHdrBytes + 4 * i)

/-! ## The root pointer -/

/-- `ACPI_BIOS_AREA_START`. -/
def biosAreaStart : Nat := 0xE0000

/-- `ACPI_BIOS_AREA_END`. -/
def biosAreaEnd : Nat := 0xFFFFF

/-- `rsdp_signature`, which is compared without a space at its end. -/
def rsdpSignature : List UInt8 := [0x52, 0x53, 0x44, 0x20, 0x50, 0x54, 0x52]

/-- The loop of `acpi_init`: the root pointer that is found, and the addresses that were looked at. -/
def rsdpLoop (memory : Mem) : Nat → Nat → List Nat → Option (Option Nat × List Nat)
  | 0, ptr, looked => if ptr = biosAreaEnd then some (none, looked) else none
  | fuel + 1, ptr, looked =>
    if ptr = biosAreaEnd then some (none, looked)
    else if matchesText memory ptr rsdpSignature then some (some ptr, looked ++ [ptr])
    else rsdpLoop memory fuel (u64 (ptr + 8)) (looked ++ [ptr])

/-- The search of `acpi_init`. -/
def findRsdp (memory : Mem) (fuel : Nat) : Option (Option Nat × List Nat) :=
  rsdpLoop memory fuel biosAreaStart []

/-- The table that a root pointer names, by its revision. -/
def rootTable (memory : Mem) (rsdp : Nat) : Nat :=
  if memory.byte (rsdp + 15) = 0 then memory.load (rsdp + 16) 4 else memory.load (rsdp + 24) 8

/-- `acpi_init`. -/
def acpiInit (memory : Mem) (fuel : Nat) (context : Context) : Option (Kerror × Context) := do
  match ← findRsdp memory fuel with
  | (none, _) => some (.nodev, context)
  | (some rsdp, _) => parseRsdt memory fuel context (rootTable memory rsdp)

end Otrix.Dev.Acpi
