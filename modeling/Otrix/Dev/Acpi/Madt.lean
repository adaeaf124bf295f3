import Otrix.Dev.Acpi.Model
import Otrix.Foundation.Records

/-!
# The table of interrupt controllers

The loop of `acpi_parse_madt` subtracts the length of each entry from what remains of the table. It has no
way to notice an entry of length zero, which it reads for ever, or an entry that is longer than the rest of
the table, after which the remainder wraps around and the loop goes on behind the table. The fields of an
entry are read whether the entry is long enough for them or not.
-/

namespace Otrix.Dev.Acpi

open Bytes Records

variable {memory : Mem} {madt : Nat}

/-- The bytes of the table. -/
def Inside (memory : Mem) (madt : Nat) (read : Nat × Nat) : Prop :=
  madt ≤ read.1 ∧ read.1 + read.2 ≤ madt + tableLength memory madt

/-- The number of bytes up to the last one that is read of an entry. -/
def neededBytes (memory : Mem) (entry : Nat) : Nat :=
  if entryType memory entry = madtLapicOverride then 12
  else if entryType memory entry = madtIoapic then 8
  else 2

/-- The entries are a chain to the end of the table. -/
def Tiles (memory : Mem) (madt : Nat) (entries : List Nat) : Prop :=
  Chain (entryLength memory) (madt + madtBytes) entries (madt + tableLength memory madt)
  deriving Decidable

/-- The entries fill the table, none is empty, and what is read of them is in the table. -/
def Contained (memory : Mem) (madt : Nat) : Prop :=
  ∃ entries, Tiles memory madt entries ∧ ∀ entry ∈ entries, 0 < entryLength memory entry ∧
    entry + neededBytes memory entry ≤ madt + tableLength memory madt

/-- The value of a field that the entries of a kind set. -/
def lastOf {α : Type*} (kind : Nat → Bool) (value : Nat → α) (initial : α) (entries : List Nat) : α :=
  match (entries.filter kind).getLast? with
  | some entry => value entry
  | none => initial

/-- The context that the entries of a table describe: the last override, or the address in the header, and
the last I/O controller. -/
def Describes (memory : Mem) (madt : Nat) (initial : Context) (entries : List Nat) (context : Context) :
    Prop :=
  context.lapicBase = lastOf (fun entry => entryType memory entry == madtLapicOverride)
    (lapicAddress memory) (localApicAddress memory madt) entries ∧
  context.ioapicBase = lastOf (fun entry => entryType memory entry == madtIoapic)
    (ioapicBase memory) initial.ioapicBase entries ∧
  context.ioapicId = lastOf (fun entry => entryType memory entry == madtIoapic)
    (ioapicId memory) initial.ioapicId entries

/-! ## One iteration -/

theorem sub32_of_le {first second : Nat} (hle : second ≤ first) (hlt : first < 2 ^ 32) :
    sub32 first second = first - second := by
  unfold sub32
  omega

/-- Subtraction that wraps by less than a byte leaves something. -/
theorem sub32_ne_zero {first second : Nat} (hlt : first < second) (hbyte : second < 256) :
    sub32 first second ≠ 0 := by
  unfold sub32
  omega

theorem entry_length_lt (memory : Mem) (entry : Nat) : entryLength memory entry < 256 :=
  (memory.byte (entry + 1)).toNat_lt

theorem madt_loop_zero (fuel entry : Nat) (context : Context) (reads : List (Nat × Nat)) :
    madtLoop memory fuel entry 0 context reads = some (context, reads) := by
  cases fuel with
  | zero => rw [madtLoop, if_pos rfl]
  | succ fuel => rw [madtLoop, if_pos rfl]

theorem madt_loop_succ (fuel entry : Nat) {len : Nat} (hlen : len ≠ 0) (context : Context)
    (reads : List (Nat × Nat)) :
    madtLoop memory (fuel + 1) entry len context reads =
      madtLoop memory fuel (entry + entryLength memory entry) (sub32 len (entryLength memory entry))
        (applyEntry memory context entry) (reads ++ entryReads memory entry) := by
  rw [madtLoop, if_neg hlen]

/-- What is read of an entry is in the table exactly if the last byte is. -/
theorem entry_reads_inside_iff {entry : Nat} (hle : madt ≤ entry) :
    (∀ read ∈ entryReads memory entry, Inside memory madt read) ↔
      entry + neededBytes memory entry ≤ madt + tableLength memory madt := by
  unfold entryReads neededBytes Inside
  split
  · simp only [List.forall_mem_cons, List.not_mem_nil, false_implies, implies_true, and_true]
    omega
  · split
    · simp only [List.forall_mem_cons, List.not_mem_nil, false_implies, implies_true, and_true]
      omega
    · simp only [List.forall_mem_cons, List.not_mem_nil, false_implies, implies_true, and_true]
      omega

theorem header_reads_inside (hlength : madtBytes ≤ tableLength memory madt) {read : Nat × Nat}
    (hin : read ∈ [(madt + 4, 4), (madt + 36, 4)]) : Inside memory madt read := by
  unfold madtBytes at hlength
  unfold Inside
  simp only [List.mem_cons, List.not_mem_nil, or_false] at hin
  rcases hin with rfl | rfl
  · exact ⟨Nat.le_add_right _ _, by omega⟩
  · exact ⟨Nat.le_add_right _ _, by omega⟩

/-! ## The loop -/

/-- Over a chain of entries the loop does for each of them what it does for one. -/
theorem madt_loop_chain {entries : List Nat} {start stop len : Nat}
    (hchain : Chain (entryLength memory) start entries stop) (hlen : start + len = stop)
    (hlt : len < 2 ^ 32) (hpos : ∀ entry ∈ entries, 0 < entryLength memory entry) (context : Context)
    (reads : List (Nat × Nat)) :
    madtLoop memory entries.length start len context reads =
      some (entries.foldl (applyEntry memory) context, reads ++ entries.flatMap (entryReads memory)) := by
  induction entries generalizing start len context reads with
  | nil =>
    obtain rfl : len = 0 := by
      have hend : start = stop := hchain
      omega
    rw [madt_loop_zero, List.flatMap_nil, List.append_nil, List.foldl_nil]
  | cons entry entries ih =>
    obtain ⟨rfl, hrest⟩ := hchain
    have hlength := hpos entry List.mem_cons_self
    have hle := hrest.start_le_stop
    rw [List.length_cons, madt_loop_succ _ _ (by omega), sub32_of_le (by omega) hlt,
      ih hrest (by omega) (by omega) fun other hin => hpos other (List.mem_cons_of_mem entry hin),
      List.flatMap_cons, List.append_assoc, List.foldl_cons]

variable {result : Context × List (Nat × Nat)} {reads : List (Nat × Nat)} {context : Context}
  {fuel entry len : Nat}

theorem mem_reads_of_madt_loop
    (hloop : madtLoop memory fuel entry len context reads = some result) {read : Nat × Nat}
    (hread : read ∈ reads) : read ∈ result.2 := by
  induction fuel generalizing entry len context reads with
  | zero =>
    by_cases hlen : len = 0
    · rw [hlen, madt_loop_zero] at hloop
      obtain rfl := Option.some.inj hloop
      exact hread
    · rw [madtLoop, if_neg hlen] at hloop
      cases hloop
  | succ fuel ih =>
    by_cases hlen : len = 0
    · rw [hlen, madt_loop_zero] at hloop
      obtain rfl := Option.some.inj hloop
      exact hread
    · rw [madt_loop_succ _ _ hlen] at hloop
      exact ih hloop (List.mem_append_left _ hread)

/-- A loop that has come to its end with something remaining has read the entry. -/
theorem entry_reads_of_madt_loop (hlen : len ≠ 0)
    (hloop : madtLoop memory fuel entry len context reads = some result) :
    ∃ rest, fuel = rest + 1 ∧
      madtLoop memory rest (entry + entryLength memory entry) (sub32 len (entryLength memory entry))
        (applyEntry memory context entry) (reads ++ entryReads memory entry) = some result ∧
      ∀ read ∈ entryReads memory entry, read ∈ result.2 := by
  cases fuel with
  | zero =>
    rw [madtLoop, if_neg hlen] at hloop
    cases hloop
  | succ fuel =>
    rw [madt_loop_succ _ _ hlen] at hloop
    exact ⟨fuel, rfl, hloop, fun read hin =>
      mem_reads_of_madt_loop hloop (List.mem_append_right _ hin)⟩

/-- After an entry that is longer than the rest of the table, the loop reads behind the table. -/
theorem length_le_of_inside (hle : madt ≤ entry)
    (hlen : entry + len = madt + tableLength memory madt)
    (hrest : madtLoop memory fuel (entry + entryLength memory entry) (sub32 len (entryLength memory entry))
      context reads = some result)
    (hinside : ∀ read ∈ result.2, Inside memory madt read) : entryLength memory entry ≤ len := by
  by_contra hnot
  have hwrap := sub32_ne_zero (Nat.lt_of_not_le hnot) (entry_length_lt memory entry)
  obtain ⟨_, _, _, hbehind⟩ := entry_reads_of_madt_loop hwrap hrest
  have hnext := (entry_reads_inside_iff (Nat.le_trans hle (Nat.le_add_right _ _))).mp
    fun read hin => hinside read (hbehind read hin)
  omega

/-- An entry of length zero would be the first of the entries behind it. -/
theorem length_pos_of_chain {entry stop : Nat} {entries : List Nat} (hlt : entry < stop)
    (hchain : Chain (entryLength memory) (entry + entryLength memory entry) entries stop)
    (hpos : ∀ other ∈ entries, 0 < entryLength memory other) : 0 < entryLength memory entry := by
  by_contra hnot
  have hsame : entry + entryLength memory entry = entry := by omega
  rw [hsame] at hchain
  cases entries with
  | nil => exact absurd hchain (Nat.ne_of_lt hlt)
  | cons other entries =>
    obtain ⟨rfl, _⟩ := hchain
    exact hnot (hpos other List.mem_cons_self)

/-- A loop that ends and reads nothing outside of the table has gone over a chain of entries. -/
theorem chain_of_madt_loop (fuel : Nat) {entry len : Nat}
    (hloop : madtLoop memory fuel entry len context reads = some result) (hle : madt ≤ entry)
    (hlen : entry + len = madt + tableLength memory madt) (hlt : len < 2 ^ 32)
    (hinside : ∀ read ∈ result.2, Inside memory madt read) :
    ∃ entries, Chain (entryLength memory) entry entries (madt + tableLength memory madt) ∧
      ∀ other ∈ entries, 0 < entryLength memory other ∧
        other + neededBytes memory other ≤ madt + tableLength memory madt := by
  induction fuel using Nat.strong_induction_on generalizing entry len context reads with
  | _ fuel ih =>
    by_cases hzero : len = 0
    · exact ⟨[], by rw [← hlen, hzero]; rfl, fun other hin => absurd hin List.not_mem_nil⟩
    · obtain ⟨rest, rfl, hrest, hreads⟩ := entry_reads_of_madt_loop hzero hloop
      have hneeded := (entry_reads_inside_iff hle).mp fun read hin => hinside read (hreads read hin)
      have hfits := length_le_of_inside hle hlen hrest hinside
      rw [sub32_of_le hfits hlt] at hrest
      obtain ⟨entries, hchain, hentries⟩ :=
        ih rest (Nat.lt_succ_self rest) hrest (by omega) (by omega) (by omega)
      have hpos := length_pos_of_chain (by omega) hchain fun other hin => (hentries other hin).1
      refine ⟨entry :: entries, ⟨rfl, hchain⟩, fun other hin => ?_⟩
      rcases List.mem_cons.mp hin with rfl | hin
      · exact ⟨hpos, hneeded⟩
      · exact hentries other hin

theorem madt_loop_of_empty_entry (fuel : Nat) {entry len : Nat} (hzero : entryLength memory entry = 0)
    (hlen : len ≠ 0) (hlt : len < 2 ^ 32) (context : Context) (reads : List (Nat × Nat)) :
    madtLoop memory fuel entry len context reads = none := by
  induction fuel generalizing context reads with
  | zero => rw [madtLoop, if_neg hlen]
  | succ fuel ih =>
    rw [madt_loop_succ _ _ hlen, hzero, sub32_of_le (Nat.zero_le _) hlt]
    exact ih _ _

theorem describes_foldl (memory : Mem) (madt : Nat) (initial : Context) (entries : List Nat) :
    Describes memory madt initial entries (entries.foldl (applyEntry memory)
      { initial with lapicBase := localApicAddress memory madt }) := by
  have hdistinct : madtIoapic ≠ madtLapicOverride := by decide
  refine ⟨foldl_field (applyEntry memory) Context.lapicBase _ _ (fun context entry => ?_) _ entries,
    foldl_field (applyEntry memory) Context.ioapicBase _ _ (fun context entry => ?_) _ entries,
    foldl_field (applyEntry memory) Context.ioapicId _ _ (fun context entry => ?_) _ entries⟩
  all_goals
    unfold applyEntry
    by_cases hoverride : entryType memory entry = madtLapicOverride
    · simp [hoverride, hdistinct.symm]
    · by_cases hioapic : entryType memory entry = madtIoapic
      · simp [hioapic, hdistinct]
      · simp [hoverride, hioapic]

/-- `acpi_parse_madt` ends and reads nothing outside of the table exactly if the entries fill the table,
none is empty, and what is read of them is in the table. When the entries fill the table and have room for
their headers, it ends with what the last entries say. -/
theorem madt_parsed_iff (context : Context) (hlength : madtBytes ≤ tableLength memory madt) :
    ((∃ fuel result, parseMadt memory madt context fuel = some result ∧
        ∀ read ∈ result.2, Inside memory madt read) ↔ Contained memory madt) ∧
    ∀ entries, Tiles memory madt entries → (∀ entry ∈ entries, 2 ≤ entryLength memory entry) →
      ∃ fuel result, parseMadt memory madt context fuel = some result ∧
        Describes memory madt context entries result.1 := by
  have htable : tableLength memory madt < 2 ^ 32 := Mem.load_lt memory (madt + 4) 4
  have hlen : sub32 (tableLength memory madt) madtBytes = tableLength memory madt - madtBytes :=
    sub32_of_le hlength htable
  have hrest : madt + madtBytes + (tableLength memory madt - madtBytes) =
      madt + tableLength memory madt := by omega
  refine ⟨⟨?_, ?_⟩, ?_⟩
  · rintro ⟨fuel, result, hparse, hinside⟩
    rw [parseMadt, hlen] at hparse
    exact chain_of_madt_loop fuel hparse (Nat.le_add_right _ _) hrest (by omega) hinside
  · rintro ⟨entries, htiles, hentries⟩
    have hloop := madt_loop_chain htiles hrest (by omega) (fun entry hin => (hentries entry hin).1)
      { context with lapicBase := localApicAddress memory madt } [(madt + 4, 4), (madt + 36, 4)]
    refine ⟨entries.length, _, by rw [parseMadt, hlen]; exact hloop, fun read hin => ?_⟩
    rcases List.mem_append.mp hin with hheader | hentry
    · exact header_reads_inside hlength hheader
    · obtain ⟨entry, hmem, hread⟩ := List.mem_flatMap.mp hentry
      have hle : madt ≤ entry := Nat.le_trans (Nat.le_add_right _ _) (htiles.start_le hmem)
      exact (entry_reads_inside_iff hle).mpr (hentries entry hmem).2 read hread
  · intro entries htiles hroom
    have hloop := madt_loop_chain htiles hrest (by omega)
      (fun entry hin => Nat.lt_of_lt_of_le Nat.two_pos (hroom entry hin))
      { context with lapicBase := localApicAddress memory madt } [(madt + 4, 4), (madt + 36, 4)]
    exact ⟨entries.length, _, by rw [parseMadt, hlen]; exact hloop,
      describes_foldl memory madt context entries⟩

/-- A table at 0x1000 with an I/O controller and an override. -/
def twoEntries : Mem :=
  ⟨fun address =>
    if address = 0x1004 then 68 else if address = 0x1026 then 0xE0 else if address = 0x1027 then 0xFE
    else if address = 0x102C then 1 else if address = 0x102D then 12 else if address = 0x102E then 2
    else if address = 0x1032 then 0xC0 else if address = 0x1033 then 0xFE
    else if address = 0x1038 then 5 else if address = 0x1039 then 12 else if address = 0x103E then 0xD0
    else 0⟩

/-- A table that is parsed as it should be. -/
theorem madt_parsed_two_entries :
    (∃ fuel result, parseMadt twoEntries 0x1000 ⟨0, 0, 0⟩ fuel = some result ∧
      ∀ read ∈ result.2, Inside twoEntries 0x1000 read) ∧
    ∃ fuel result, parseMadt twoEntries 0x1000 ⟨0, 0, 0⟩ fuel = some result ∧
      Describes twoEntries 0x1000 ⟨0, 0, 0⟩ [0x102C, 0x1038] result.1 := by
  have hparsed := madt_parsed_iff ⟨0, 0, 0⟩
    (show madtBytes ≤ tableLength twoEntries 0x1000 by decide +kernel)
  refine ⟨hparsed.1.mpr ⟨[0x102C, 0x1038], by decide +kernel, ?_⟩,
    hparsed.2 [0x102C, 0x1038] (by decide +kernel) ?_⟩
  all_goals decide +kernel

/-- A table at 0x1000 with one entry of which only the header is there. -/
def oneHeader (checksum type length : UInt8) : Mem :=
  ⟨fun address =>
    if address = 0x1004 then 46 else if address = 0x1009 then checksum
    else if address = 0x102C then type else if address = 0x102D then length else 0⟩

/-- An entry of length zero keeps the loop for ever. An override of two bytes, which fills its table, is read
from behind the table. Both tables have a valid checksum. -/
theorem madt_entry_is_not_checked :
    (validateChecksum (oneHeader 210 0 0) 0x1000 = .ok ∧
      ∀ context fuel, parseMadt (oneHeader 210 0 0) 0x1000 context fuel = none) ∧
    validateChecksum (oneHeader 203 5 2) 0x1000 = .ok ∧ Tiles (oneHeader 203 5 2) 0x1000 [0x102C] ∧
      ∃ result, parseMadt (oneHeader 203 5 2) 0x1000 ⟨0, 0, 0⟩ 1 = some result ∧
        (0x1030, 8) ∈ result.2 ∧ tableLength (oneHeader 203 5 2) 0x1000 = 46 := by
  refine ⟨⟨by decide +kernel, fun context fuel => ?_⟩, by decide +kernel, by decide +kernel, ?_⟩
  · exact madt_loop_of_empty_entry fuel (by decide +kernel) (by decide +kernel) (by decide +kernel) _ _
  · have hresult : (parseMadt (oneHeader 203 5 2) 0x1000 ⟨0, 0, 0⟩ 1).any
        (fun result => decide ((0x1030, 8) ∈ result.2)) = true := by decide +kernel
    obtain ⟨result, hparse, hread⟩ := (Option.any_eq_true _ _).mp hresult
    exact ⟨result, hparse, of_decide_eq_true hread, by decide +kernel⟩

end Otrix.Dev.Acpi
