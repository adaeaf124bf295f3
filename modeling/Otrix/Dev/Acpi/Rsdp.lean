import Otrix.Dev.Acpi.Model

/-!
# The search for the root pointer

The loop of `acpi_init` goes from the beginning of the BIOS area in steps of eight bytes, until its cursor is
the address of the last byte of the area. That address is odd, and the cursor is always a multiple of
eight. So the loop never ends without a signature, and goes through the rest of the memory when there is
none in the area.
-/

namespace Otrix.Dev.Acpi

open Bytes

variable {memory : Mem}

/-- The cursor of the search after this many steps. -/
def cursor (k : Nat) : Nat :=
  u64 (biosAreaStart + 8 * k)

/-- There is a signature at the address. -/
def SignatureAt (memory : Mem) (ptr : Nat) : Prop :=
  matchesText memory ptr rsdpSignature = true

/-- The signature would be inside the BIOS area. -/
def InArea (ptr : Nat) : Prop :=
  biosAreaStart ≤ ptr ∧ ptr + rsdpSignature.length ≤ biosAreaEnd + 1

/-- An aligned signature in the BIOS area. -/
def IsRsdp (memory : Mem) (ptr : Nat) : Prop :=
  InArea ptr ∧ ptr % 8 = 0 ∧ SignatureAt memory ptr

/-- The first aligned signature in the BIOS area. -/
def IsFirstRsdp (memory : Mem) (ptr : Nat) : Prop :=
  IsRsdp memory ptr ∧ ∀ other, IsRsdp memory other → ptr ≤ other

theorem cursor_succ (k : Nat) : cursor (k + 1) = u64 (cursor k + 8) := by
  simp only [cursor, u64]
  omega

theorem cursor_mod (k : Nat) : cursor k % 8 = 0 := by
  simp only [cursor, u64, biosAreaStart]
  omega

theorem cursor_ne_end (k : Nat) : cursor k ≠ biosAreaEnd := by
  intro heq
  have hmod := cursor_mod k
  rw [heq] at hmod
  exact absurd hmod (by decide)

theorem cursor_of_le {k : Nat} (hle : k ≤ 0x4000) : cursor k = biosAreaStart + 8 * k := by
  simp only [cursor, u64, biosAreaStart]
  omega

variable {ptr : Nat}

theorem exists_cursor (harea : InArea ptr) (haligned : ptr % 8 = 0) :
    ∃ k < 0x4000, cursor k = ptr := by
  obtain ⟨hlow, hhigh⟩ := harea
  simp only [biosAreaStart, biosAreaEnd, rsdpSignature, List.length_cons, List.length_nil] at hlow hhigh
  refine ⟨(ptr - biosAreaStart) / 8, ?_, ?_⟩
  · simp only [biosAreaStart]
    omega
  · rw [cursor_of_le (by simp only [biosAreaStart]; omega)]
    simp only [biosAreaStart]
    omega

theorem cursor_in_area {k : Nat} (hlt : k < 0x4000) : InArea (cursor k) := by
  rw [cursor_of_le (Nat.le_of_lt hlt)]
  simp only [InArea, biosAreaStart, biosAreaEnd, rsdpSignature, List.length_cons, List.length_nil]
  omega

/-- The loop stops at the first signature, and nowhere else. -/
theorem rsdp_loop_cases (fuel k : Nat) (looked : List Nat) :
    (∃ n < fuel, SignatureAt memory (cursor (k + n)) ∧
      (∀ i < n, ¬ SignatureAt memory (cursor (k + i))) ∧
      rsdpLoop memory fuel (cursor k) looked =
        some (some (cursor (k + n)), looked ++ (List.range' k (n + 1)).map cursor)) ∨
    (∀ i < fuel, ¬ SignatureAt memory (cursor (k + i))) ∧
      rsdpLoop memory fuel (cursor k) looked = none := by
  induction fuel generalizing k looked with
  | zero => exact Or.inr ⟨fun i hlt => absurd hlt (Nat.not_lt_zero i), if_neg (cursor_ne_end k)⟩
  | succ fuel ih =>
    by_cases hsignature : matchesText memory (cursor k) rsdpSignature = true
    · refine Or.inl ⟨0, Nat.succ_pos fuel, hsignature, fun i hlt => absurd hlt (Nat.not_lt_zero i), ?_⟩
      rw [rsdpLoop, if_neg (cursor_ne_end k), if_pos hsignature]
      rfl
    · have hloop : rsdpLoop memory (fuel + 1) (cursor k) looked =
          rsdpLoop memory fuel (cursor (k + 1)) (looked ++ [cursor k]) := by
        rw [rsdpLoop, if_neg (cursor_ne_end k), if_neg hsignature, cursor_succ]
      -- what holds of the first step and of the later ones holds of all
      have hall : ∀ n, (∀ i < n, ¬ SignatureAt memory (cursor (k + 1 + i))) →
          ∀ i < n + 1, ¬ SignatureAt memory (cursor (k + i)) := by
        intro n hlater i hlt
        cases i with
        | zero => exact hsignature
        | succ i =>
          have hnot := hlater i (Nat.lt_of_succ_lt_succ hlt)
          rwa [Nat.add_right_comm] at hnot
      rw [hloop]
      rcases ih (k + 1) (looked ++ [cursor k]) with ⟨n, hlt, hfound, hbefore, heq⟩ | ⟨hnone, heq⟩
      · rw [Nat.add_right_comm] at hfound heq
        refine Or.inl ⟨n + 1, Nat.succ_lt_succ hlt, hfound, hall n hbefore, ?_⟩
        rw [heq, List.append_assoc]
        rfl
      · exact Or.inr ⟨hall fuel hnone, heq⟩

/-- The search stops at the first signature, and nowhere else. -/
theorem find_rsdp_cases (memory : Mem) (fuel : Nat) :
    (∃ n < fuel, SignatureAt memory (cursor n) ∧ (∀ i < n, ¬ SignatureAt memory (cursor i)) ∧
      findRsdp memory fuel = some (some (cursor n), (List.range (n + 1)).map cursor)) ∨
    (∀ i < fuel, ¬ SignatureAt memory (cursor i)) ∧ findRsdp memory fuel = none := by
  have h := @rsdp_loop_cases memory fuel 0 []
  simp only [Nat.zero_add, List.nil_append, ← List.range_eq_range'] at h
  exact h

theorem find_rsdp_of_first (hfirst : IsFirstRsdp memory ptr) :
    ∃ n < 0x4000, cursor n = ptr ∧ ∀ fuel, n < fuel →
      findRsdp memory fuel = some (some ptr, (List.range (n + 1)).map cursor) := by
  obtain ⟨⟨harea, haligned, hsignature⟩, hleast⟩ := hfirst
  obtain ⟨n, hlt, rfl⟩ := exists_cursor harea haligned
  have hbefore : ∀ i < n, ¬ SignatureAt memory (cursor i) := by
    intro i hi hsig
    have hle := hleast (cursor i) ⟨cursor_in_area (Nat.lt_trans hi hlt), cursor_mod i, hsig⟩
    rw [cursor_of_le (by omega), cursor_of_le (by omega)] at hle
    omega
  refine ⟨n, hlt, rfl, fun fuel hfuel => ?_⟩
  rcases find_rsdp_cases memory fuel with ⟨m, hm, hfound, hclear, heq⟩ | ⟨hnone, _⟩
  · obtain rfl : m = n := by
      rcases Nat.lt_trichotomy m n with hless | heq | hmore
      · exact absurd hfound (hbefore m hless)
      · exact heq
      · exact absurd hsignature (hclear n hmore)
    exact heq
  · exact absurd hsignature (hnone n hfuel)

theorem exists_first_rsdp (h : IsRsdp memory ptr) : ∃ first, IsFirstRsdp memory first := by
  classical
  have hexists : ∃ ptr, IsRsdp memory ptr := ⟨ptr, h⟩
  exact ⟨Nat.find hexists, Nat.find_spec hexists, fun other hother => Nat.find_min' hexists hother⟩

/-! ## The result of `acpi_init` -/

variable {context context' : Context} {ret : Kerror}

/-- The entries of the root table are parsed, or found to be invalid. -/
theorem parse_sdt_entry_ne_nodev {fuel table : Nat}
    (h : parseSdtEntry memory fuel context table = some (ret, context')) : ret ≠ .nodev := by
  unfold parseSdtEntry at h
  split at h
  · obtain ⟨rfl, _⟩ := Prod.mk.inj (Option.some.inj h)
    decide
  · split at h
    · obtain ⟨_, _, heq⟩ := Option.map_eq_some_iff.mp h
      obtain ⟨rfl, _⟩ := Prod.mk.inj heq
      decide
    · obtain ⟨rfl, _⟩ := Prod.mk.inj (Option.some.inj h)
      decide

/-- A root table is parsed, or found to be invalid. -/
theorem sdt_loop_ne_nodev {fuel : Nat} {pointers : List Nat}
    (h : sdtLoop memory fuel context pointers = some (ret, context')) : ret ≠ .nodev := by
  induction pointers generalizing context with
  | nil =>
    obtain ⟨rfl, _⟩ := Prod.mk.inj (Option.some.inj h)
    decide
  | cons pointer pointers ih =>
    obtain ⟨⟨first, middle⟩, hentry, hrest⟩ := Option.bind_eq_some_iff.mp h
    by_cases hok : first ≠ .ok
    · simp only [if_pos hok] at hrest
      obtain ⟨rfl, _⟩ := Prod.mk.inj (Option.some.inj hrest)
      exact parse_sdt_entry_ne_nodev hentry
    · simp only [if_neg hok] at hrest
      exact ih hrest

/-- `acpi_parse_rsdt` never reports that there is no device. -/
theorem parse_rsdt_ne_nodev {fuel rsdt : Nat}
    (h : parseRsdt memory fuel context rsdt = some (ret, context')) : ret ≠ .nodev := by
  unfold parseRsdt at h
  split at h
  · obtain ⟨rfl, _⟩ := Prod.mk.inj (Option.some.inj h)
    decide
  · split at h
    · obtain ⟨rfl, _⟩ := Prod.mk.inj (Option.some.inj h)
      decide
    · exact sdt_loop_ne_nodev h

/-- `acpi_init` does not report that there is no device: the search ends with a signature or not at all. -/
theorem acpi_init_ne_nodev (memory : Mem) (fuel : Nat) (context context' : Context) :
    acpiInit memory fuel context ≠ some (.nodev, context') := by
  intro h
  rcases find_rsdp_cases memory fuel with ⟨n, _, _, _, hfind⟩ | ⟨_, hfind⟩
  · rw [acpiInit, hfind] at h
    exact parse_rsdt_ne_nodev h rfl
  · rw [acpiInit, hfind] at h
    cases h

/-- The search ends, looks only at the BIOS area, and finds the first signature or tells that there is none,
exactly if there is an aligned signature in the area. Then the table that the first one names is parsed.
The result is never `E_NODEV`. -/
theorem rsdp_search_iff (memory : Mem) :
    ((∃ fuel found looked, findRsdp memory fuel = some (found, looked) ∧ (∀ ptr ∈ looked, InArea ptr) ∧
        (∀ ptr, found = some ptr → IsFirstRsdp memory ptr) ∧
        (found = none → ∀ ptr, ¬ IsRsdp memory ptr)) ↔ ∃ ptr, IsRsdp memory ptr) ∧
    (∀ ptr, IsFirstRsdp memory ptr → ∃ least, ∀ fuel context, least ≤ fuel →
      acpiInit memory fuel context = parseRsdt memory fuel context (rootTable memory ptr)) ∧
    ∀ fuel context context', acpiInit memory fuel context ≠ some (.nodev, context') := by
  refine ⟨⟨?_, ?_⟩, fun ptr hfirst => ?_, acpi_init_ne_nodev memory⟩
  · rintro ⟨fuel, found, looked, hfind, harea, _, _⟩
    rcases find_rsdp_cases memory fuel with ⟨n, _, hsignature, _, heq⟩ | ⟨_, heq⟩
    · obtain ⟨_, rfl⟩ := Prod.mk.inj (Option.some.inj (hfind.symm.trans heq))
      refine ⟨cursor n, harea _ (List.mem_map.mpr ⟨n, ?_, rfl⟩), cursor_mod n, hsignature⟩
      exact List.mem_range.mpr (Nat.lt_succ_self n)
    · rw [hfind] at heq
      cases heq
  · rintro ⟨ptr, hrsdp⟩
    obtain ⟨first, hfirst⟩ := exists_first_rsdp hrsdp
    obtain ⟨n, hlt, _, hfind⟩ := find_rsdp_of_first hfirst
    refine ⟨n + 1, some first, _, hfind (n + 1) (Nat.lt_succ_self n), ?_, ?_, nofun⟩
    · intro ptr hin
      obtain ⟨i, hi, rfl⟩ := List.mem_map.mp hin
      have hle := List.mem_range.mp hi
      exact cursor_in_area (by omega)
    · intro ptr heq
      rwa [← Option.some.inj heq]
  · obtain ⟨n, _, _, hfind⟩ := find_rsdp_of_first hfirst
    refine ⟨n + 1, fun fuel context hle => ?_⟩
    rw [acpiInit, hfind fuel hle]
    rfl

/-- In a memory of zeros there is no signature, and the search never ends. -/
theorem empty_area_is_never_left :
    (∀ ptr, ¬ IsRsdp ⟨fun _ => 0⟩ ptr) ∧
    ∀ fuel context, findRsdp ⟨fun _ => 0⟩ fuel = none ∧ acpiInit ⟨fun _ => 0⟩ fuel context = none := by
  have hnone : ∀ ptr, ¬ SignatureAt ⟨fun _ => 0⟩ ptr := by
    intro ptr hsignature
    have hread := of_decide_eq_true hsignature
    exact absurd (List.cons.inj hread).1 (show ¬ (0 : UInt8) = 0x52 by decide)
  refine ⟨fun ptr h => hnone ptr h.2.2, fun fuel context => ?_⟩
  rcases find_rsdp_cases ⟨fun _ => 0⟩ fuel with ⟨n, _, hsignature, _⟩ | ⟨_, hfind⟩
  · exact absurd hsignature (hnone (cursor n))
  · exact ⟨hfind, by rw [acpiInit, hfind]; rfl⟩

end Otrix.Dev.Acpi
