import Otrix.Dev.Pci.Config
import Otrix.Foundation.Walk

/-!
# The walk over the capabilities

`pci_dev::read_capabilities` follows the pointers that the device gives, and stores what is not a null
capability, until a pointer is zero or the array is full. The pointer in the register is followed
without a look at it. `pci_dev::get_cap` searches the array.

The device is free to give any pointers. Null capabilities are not counted, so a cycle of them is never
left. `Trapped` says that the walk reaches one.
-/

namespace Otrix.Dev

/-- `MAX_CAPABILITIES`. -/
def maxCapabilities : Nat := 16

/-- `capabilities_`: identifiers and offsets. -/
structure Capabilities where
  slot : Nat → UInt8 × UInt8

namespace Capabilities

/-- A new array, where everything is zero. -/
def empty : Capabilities := ⟨fun _ => (0, 0)⟩

/-- A capability is written to a slot of the array. -/
def store (capabilities : Capabilities) (cap : Nat) (id pointer : UInt8) : Capabilities :=
  ⟨Function.update capabilities.slot cap (id, pointer)⟩

theorem store_self (capabilities : Capabilities) (cap : Nat) (id pointer : UInt8) :
    (capabilities.store cap id pointer).slot cap = (id, pointer) :=
  Function.update_self ..

theorem store_of_ne (capabilities : Capabilities) {cap i : Nat} (id pointer : UInt8) (hne : i ≠ cap) :
    (capabilities.store cap id pointer).slot i = capabilities.slot i :=
  Function.update_of_ne hne _ _

/-- `get_cap`. -/
def getCap (capabilities : Capabilities) (id : UInt8) : UInt8 :=
  match (List.range maxCapabilities).find? fun i => (capabilities.slot i).1 = id with
  | some i => (capabilities.slot i).2
  | none => 0

end Capabilities

namespace ConfigSpace

/-- `PCI_REG_GET_CAP_PTR` of the register `PCI_REG_CAP_PTR`. -/
def firstPointer (space : ConfigSpace) : UInt8 :=
  UInt8.ofNat (space.read32 0x34) &&& 0xFC

/-- The loop of `read_capabilities`, for this many iterations. -/
def capLoop (space : ConfigSpace) : Nat → Nat → UInt8 → Capabilities → Option Capabilities
  | 0, _, _, _ => none
  | fuel + 1, cap, next, capabilities =>
    let id := space.read8 next
    let capabilities := capabilities.store cap id next
    let next := space.read8 (next + 1)
    let cap := if id ≠ 0 then cap + 1 else cap
    if next ≠ 0 ∧ cap < maxCapabilities then capLoop space fuel cap next capabilities
    else some capabilities

/-- `read_capabilities`. -/
def readCapabilities (space : ConfigSpace) (fuel : Nat) : Option Capabilities :=
  space.capLoop fuel 0 space.firstPointer Capabilities.empty

/-! ## The chain -/

/-- The pointer that follows a capability. -/
def nextPointer (space : ConfigSpace) (pointer : UInt8) : UInt8 :=
  space.byte (pointer + 1)

/-- The pointers of the chain, in order. -/
def pointer (space : ConfigSpace) (k : Nat) : UInt8 :=
  space.nextPointer^[k] space.firstPointer

/-- The identifier of a capability of the chain. -/
def capId (space : ConfigSpace) (k : Nat) : UInt8 :=
  space.byte (space.pointer k)

/-- The number of capabilities before this one that are not null. -/
def stored (space : ConfigSpace) (k : Nat) : Nat :=
  Nat.count (fun j => space.byte (space.nextPointer^[j] space.firstPointer) ≠ 0) k

/-- A capability is in the chain when there is no zero pointer up to it. -/
def InChain (space : ConfigSpace) (k : Nat) : Prop :=
  ∀ j ≤ k, space.pointer j ≠ 0

/-- The offset of the first capability with this identifier, among the first that are not null, or
zero. -/
def IsFirstCap (space : ConfigSpace) (id offset : UInt8) : Prop :=
  (∃ k, space.InChain k ∧ space.stored k < maxCapabilities ∧ space.capId k = id ∧
    (∀ j < k, space.capId j ≠ id) ∧ offset = space.pointer k) ∨
  (∀ k, space.InChain k → space.stored k < maxCapabilities → space.capId k ≠ id) ∧ offset = 0

/-- The walk reaches a cycle of null capabilities. -/
def Trapped (space : ConfigSpace) : Prop :=
  ∃ first last, first < last ∧ space.pointer first = space.pointer last ∧
    (∀ k, 0 < k → k ≤ last → space.pointer k ≠ 0) ∧ space.stored first < maxCapabilities ∧
    ∀ k, first ≤ k → k < last → space.capId k = 0

/-- The walk goes on after this capability. -/
def Goes (space : ConfigSpace) (k : Nat) : Prop :=
  space.pointer (k + 1) ≠ 0 ∧ space.stored (k + 1) < maxCapabilities

/-- If the first pointer is zero, nothing is found but what has the identifier of offset zero. -/
def Quiet (space : ConfigSpace) : Prop :=
  space.pointer 0 = 0 → ∀ k, (∀ j < k, space.Goes j) → space.capId k = 0 ∨ space.capId k = space.capId 0

variable {space : ConfigSpace} {k : Nat}

theorem pointer_succ : space.pointer (k + 1) = space.read8 (space.pointer k + 1) := by
  rw [pointer, Function.iterate_succ_apply', read8_eq]
  rfl

theorem capId_eq : space.capId k = space.read8 (space.pointer k) :=
  (space.read8_eq _).symm

theorem stored_succ : space.stored (k + 1) =
    if space.capId k ≠ 0 then space.stored k + 1 else space.stored k := by
  rw [stored, Nat.count_succ]
  show _ + (if space.capId k ≠ 0 then 1 else 0) = _
  split <;> rfl

theorem stored_mono {first last : Nat} (hle : first ≤ last) : space.stored first ≤ space.stored last :=
  Nat.count_monotone _ hle

/-- The walk goes on for ever exactly if it is trapped. -/
theorem forall_goes_iff : (∀ k, space.Goes k) ↔ space.Trapped := by
  have : Finite UInt8 := Finite.of_injective UInt8.toFin fun _ _ => UInt8.toFin_inj.mp
  have h := Walk.forall_iff_exists_cycle space.nextPointer space.firstPointer (fun pointer => pointer ≠ 0)
    (fun pointer => space.byte pointer ≠ 0) maxCapabilities
  simp only [not_not] at h
  exact h

/-- What the array holds after `k` iterations. -/
structure Recorded (space : ConfigSpace) (k : Nat) (capabilities : Capabilities) : Prop where
  entry : ∀ j < k, space.capId j ≠ 0 → capabilities.slot (space.stored j) = (space.capId j, space.pointer j)
  source : ∀ i < space.stored k, ∃ j < k, space.capId j ≠ 0 ∧ space.stored j = i
  rest : ∀ i, space.stored k ≤ i → (capabilities.slot i).1 = 0

namespace Recorded

variable {capabilities : Capabilities}

theorem empty (space : ConfigSpace) : space.Recorded 0 Capabilities.empty where
  entry := fun j hlt => absurd hlt (Nat.not_lt_zero j)
  source := fun i hlt => absurd hlt (Nat.not_lt_zero i)
  rest := fun _ _ => rfl

theorem stored_lt {j : Nat} (hlt : j < k) (hid : space.capId j ≠ 0) :
    space.stored j < space.stored k := by
  have hle := space.stored_mono (show j + 1 ≤ k from hlt)
  rw [stored_succ, if_pos hid] at hle
  exact hle

/-- One more capability of the list is recorded. -/
theorem succ (h : space.Recorded k capabilities) :
    space.Recorded (k + 1)
      (capabilities.store (space.stored k) (space.capId k) (space.pointer k)) := by
  refine ⟨fun j hlt hid => ?_, fun i hlt => ?_, fun i hle => ?_⟩
  · rcases Nat.lt_succ_iff_lt_or_eq.mp hlt with hbefore | rfl
    · rw [Capabilities.store_of_ne _ _ _ (Nat.ne_of_lt (stored_lt hbefore hid))]
      exact h.entry j hbefore hid
    · exact Capabilities.store_self ..
  · by_cases hbefore : i < space.stored k
    · obtain ⟨j, hj, hid, hstored⟩ := h.source i hbefore
      exact ⟨j, Nat.lt_succ_of_lt hj, hid, hstored⟩
    · have hid : space.capId k ≠ 0 := by
        intro hnull
        rw [stored_succ, if_neg (not_not.mpr hnull)] at hlt
        exact hbefore hlt
      rw [stored_succ, if_pos hid] at hlt
      exact ⟨k, Nat.lt_succ_self k, hid, by omega⟩
  · by_cases hid : space.capId k = 0
    · rw [stored_succ, if_neg (not_not.mpr hid)] at hle
      by_cases heq : i = space.stored k
      · rw [heq, Capabilities.store_self]
        exact hid
      · rw [Capabilities.store_of_ne _ _ _ heq]
        exact h.rest i hle
    · rw [stored_succ, if_pos hid] at hle
      rw [Capabilities.store_of_ne _ _ _ (by omega)]
      exact h.rest i (by omega)

/-- `get_cap` returns the first capability with the identifier. -/
theorem get_cap_eq (h : space.Recorded k capabilities) (hfit : space.stored k ≤ maxCapabilities)
    {j : Nat} (hlt : j < k) (hid : space.capId j ≠ 0) (hfirst : ∀ i < j, space.capId i ≠ space.capId j) :
    capabilities.getCap (space.capId j) = space.pointer j := by
  have hfind : (List.range maxCapabilities).find? (fun i => (capabilities.slot i).1 = space.capId j) =
      some (space.stored j) := by
    refine List.find?_range_eq_some.mpr ⟨?_, ?_, fun i hi => ?_⟩
    · rw [h.entry j hlt hid]
      exact decide_eq_true rfl
    · exact List.mem_range.mpr (Nat.lt_of_lt_of_le (stored_lt hlt hid) hfit)
    · obtain ⟨other, hother, hother', hstored⟩ := h.source i (Nat.lt_trans hi (stored_lt hlt hid))
      have hbefore : other < j := by
        by_contra hnot
        have hle := space.stored_mono (Nat.le_of_not_lt hnot)
        omega
      rw [← hstored, h.entry other hother hother']
      simpa using hfirst other hbefore
  simp only [Capabilities.getCap, hfind, h.entry j hlt hid]

/-- `get_cap` returns zero for an identifier that was not found. -/
theorem get_cap_eq_zero (h : space.Recorded k capabilities) {id : UInt8} (hid : id ≠ 0)
    (hnone : ∀ j < k, space.capId j ≠ id) : capabilities.getCap id = 0 := by
  have hfind : (List.range maxCapabilities).find? (fun i => (capabilities.slot i).1 = id) = none := by
    refine List.find?_eq_none.mpr fun i _ heq => ?_
    have hentry : (capabilities.slot i).1 = id := of_decide_eq_true heq
    by_cases hlt : i < space.stored k
    · obtain ⟨j, hj, hnull, hstored⟩ := h.source i hlt
      rw [← hstored, h.entry j hj hnull] at hentry
      exact hnone j hj hentry
    · exact hid (hentry.symm.trans (h.rest i (Nat.le_of_not_lt hlt)))
  simp only [Capabilities.getCap, hfind]

end Recorded

/-! ## The loop -/

/-- The loop ends after the first capability where the walk does not go on. -/
theorem cap_loop_cases (fuel : Nat) {k : Nat} {capabilities : Capabilities}
    (h : space.Recorded k capabilities) :
    (∃ last, k ≤ last ∧ (∀ j, k ≤ j → j < last → space.Goes j) ∧ ¬ space.Goes last ∧
      ∃ final, space.capLoop fuel (space.stored k) (space.pointer k) capabilities = some final ∧
        space.Recorded (last + 1) final) ∨
    space.capLoop fuel (space.stored k) (space.pointer k) capabilities = none ∧
      ∀ j, k ≤ j → j < k + fuel → space.Goes j := by
  induction fuel generalizing k capabilities with
  | zero => exact Or.inr ⟨rfl, fun j hle hlt => absurd hle (Nat.not_le.mpr hlt)⟩
  | succ fuel ih =>
    have hloop : space.capLoop (fuel + 1) (space.stored k) (space.pointer k) capabilities =
        if space.pointer (k + 1) ≠ 0 ∧ space.stored (k + 1) < maxCapabilities then
          space.capLoop fuel (space.stored (k + 1)) (space.pointer (k + 1))
            (capabilities.store (space.stored k) (space.capId k) (space.pointer k))
        else some (capabilities.store (space.stored k) (space.capId k) (space.pointer k)) := by
      rw [pointer_succ, stored_succ, capId_eq]
      rfl
    rw [hloop]
    by_cases hgoes : space.pointer (k + 1) ≠ 0 ∧ space.stored (k + 1) < maxCapabilities
    · rw [if_pos hgoes]
      rcases ih h.succ with ⟨last, hle, hbefore, hstop, hfinal⟩ | ⟨hnone, hall⟩
      · refine Or.inl ⟨last, by omega, fun j hlow hhigh => ?_, hstop, hfinal⟩
        rcases Nat.eq_or_lt_of_le hlow with rfl | hlt
        · exact hgoes
        · exact hbefore j hlt hhigh
      · refine Or.inr ⟨hnone, fun j hlow hhigh => ?_⟩
        rcases Nat.eq_or_lt_of_le hlow with rfl | hlt
        · exact hgoes
        · exact hall j hlt (by omega)
    · rw [if_neg hgoes]
      exact Or.inl ⟨k, Nat.le_refl k, fun j hlow hhigh => absurd hlow (Nat.not_le.mpr hhigh), hgoes,
        _, rfl, h.succ⟩

/-- `read_capabilities` runs for as long as the walk goes on. -/
theorem read_capabilities_cases (space : ConfigSpace) (fuel : Nat) :
    (∃ last, (∀ j < last, space.Goes j) ∧ ¬ space.Goes last ∧
      ∃ final, space.readCapabilities fuel = some final ∧ space.Recorded (last + 1) final) ∨
    space.readCapabilities fuel = none ∧ ∀ j < fuel, space.Goes j := by
  rcases cap_loop_cases fuel (Recorded.empty space) with ⟨last, _, hbefore, hstop, hfinal⟩ | ⟨hnone, hall⟩
  · exact Or.inl ⟨last, fun j => hbefore j (Nat.zero_le j), hstop, hfinal⟩
  · exact Or.inr ⟨hnone, fun j hlt => hall j (Nat.zero_le j) (by omega)⟩

/-- A walk that is not trapped ends, and any greater number of iterations will do. -/
theorem read_capabilities_of_not_trapped (hnot : ¬ space.Trapped) :
    ∃ least, ∀ fuel, least ≤ fuel → (space.readCapabilities fuel).isSome := by
  rw [← forall_goes_iff] at hnot
  obtain ⟨last, hstop⟩ := Classical.not_forall.mp hnot
  refine ⟨last + 1, fun fuel hle => ?_⟩
  rcases space.read_capabilities_cases fuel with ⟨_, _, _, final, hfinal, _⟩ | ⟨_, hall⟩
  · rw [hfinal]
    rfl
  · exact absurd (hall last hle) hstop

/-- `read_capabilities` ends exactly if the walk is not trapped. -/
theorem read_capabilities_ends_iff (space : ConfigSpace) :
    (∃ fuel, (space.readCapabilities fuel).isSome) ↔ ¬ space.Trapped := by
  constructor
  · rintro ⟨fuel, hsome⟩ htrapped
    rcases space.read_capabilities_cases fuel with ⟨last, _, hstop, _⟩ | ⟨hnone, _⟩
    · exact hstop (forall_goes_iff.mpr htrapped last)
    · rw [hnone] at hsome
      cases hsome
  · intro hnot
    obtain ⟨least, hends⟩ := read_capabilities_of_not_trapped hnot
    exact ⟨least, hends least (Nat.le_refl least)⟩

section Ended

variable {last : Nat} (hbefore : ∀ j < last, space.Goes j) (hstop : ¬ space.Goes last)
include hstop in
/-- What comes after the last capability is not in the chain, or too late. -/
theorem le_last {k : Nat} (hchain : ∀ j, 0 < j → j ≤ k → space.pointer j ≠ 0)
    (hstored : space.stored k < maxCapabilities) : k ≤ last := by
  by_contra hnot
  have hlt : last + 1 ≤ k := Nat.lt_of_not_le hnot
  exact hstop ⟨hchain (last + 1) (Nat.succ_pos last) hlt,
    Nat.lt_of_le_of_lt (space.stored_mono hlt) hstored⟩

include hbefore

theorem pointer_ne_zero {j : Nat} (hpos : 0 < j) (hle : j ≤ last) : space.pointer j ≠ 0 := by
  have hgoes := (hbefore (j - 1) (by omega)).1
  rwa [Nat.sub_add_cancel hpos] at hgoes

/-- The array had a place for every capability that was looked at. -/
theorem stored_lt_max {j : Nat} (hle : j ≤ last) : space.stored j < maxCapabilities := by
  cases j with
  | zero => exact show 0 < maxCapabilities by decide
  | succ j => exact (hbefore j hle).2

theorem stored_le_max : space.stored (last + 1) ≤ maxCapabilities := by
  have hlt := stored_lt_max hbefore (Nat.le_refl last)
  rw [stored_succ]
  split <;> omega

variable {capabilities : Capabilities} (h : space.Recorded (last + 1) capabilities)
include h

/-- `get_cap` returns the first capability of the walk that has the identifier. -/
theorem get_cap_cases {id : UInt8} (hid : id ≠ 0) :
    (∃ k ≤ last, space.capId k = id ∧ (∀ j < k, space.capId j ≠ id) ∧
      capabilities.getCap id = space.pointer k) ∨
    (∀ k ≤ last, space.capId k ≠ id) ∧ capabilities.getCap id = 0 := by
  by_cases hfound : ∃ k, k ≤ last ∧ space.capId k = id
  · obtain ⟨hle, hk⟩ := Nat.find_spec hfound
    have hfirst : ∀ j < Nat.find hfound, space.capId j ≠ id := fun j hlt heq =>
      Nat.find_min hfound hlt ⟨Nat.le_trans (Nat.le_of_lt hlt) hle, heq⟩
    refine Or.inl ⟨Nat.find hfound, hle, hk, hfirst, ?_⟩
    have hget := h.get_cap_eq (stored_le_max hbefore) (Nat.lt_succ_of_le hle) (by rwa [hk])
      (by rwa [hk])
    rwa [hk] at hget
  · have hnone : ∀ k ≤ last, space.capId k ≠ id := fun k hle heq => hfound ⟨k, hle, heq⟩
    exact Or.inr ⟨hnone, h.get_cap_eq_zero hid fun j hlt => hnone j (Nat.le_of_lt_succ hlt)⟩

include hstop

/-- A chain that has a first pointer is searched. -/
theorem first_cap_of_pointer (hpointer : space.pointer 0 ≠ 0) {id : UInt8} (hid : id ≠ 0) :
    space.IsFirstCap id (capabilities.getCap id) := by
  have hchain : ∀ k ≤ last, space.InChain k := by
    intro k hle j hj
    cases j with
    | zero => exact hpointer
    | succ j => exact pointer_ne_zero hbefore (Nat.succ_pos j) (Nat.le_trans hj hle)
  rcases get_cap_cases hbefore h hid with ⟨k, hle, hk, hfirst, hget⟩ | ⟨hnone, hget⟩
  · exact Or.inl ⟨k, hchain k hle, stored_lt_max hbefore hle, hk, hfirst, hget⟩
  · refine Or.inr ⟨fun k hin hstored => hnone k ?_, hget⟩
    exact le_last hstop (fun j _ hj => hin j hj) hstored

/-- Without a first pointer there is no chain, and `get_cap` tells so exactly if the walk is quiet. -/
theorem first_cap_of_no_pointer (hpointer : space.pointer 0 = 0) :
    (∀ id, id ≠ 0 → space.IsFirstCap id (capabilities.getCap id)) ↔
      ∀ k, (∀ j < k, space.Goes j) → space.capId k = 0 ∨ space.capId k = space.capId 0 := by
  have hempty : ∀ k, ¬ space.InChain k := fun k hin => hin 0 (Nat.zero_le k) hpointer
  have hzero : ∀ id offset, space.IsFirstCap id offset ↔ offset = 0 := by
    intro id offset
    constructor
    · rintro (⟨k, hin, _⟩ | ⟨_, heq⟩)
      · exact absurd hin (hempty k)
      · exact heq
    · exact fun heq => Or.inr ⟨fun k hin => absurd hin (hempty k), heq⟩
  simp only [hzero]
  constructor
  · intro hall k hgoes
    by_cases hid : space.capId k = 0
    · exact Or.inl hid
    · refine Or.inr ?_
      have hle : k ≤ last := by
        by_contra hnot
        exact hstop (hgoes last (Nat.lt_of_not_le hnot))
      rcases get_cap_cases hbefore h hid with ⟨j, hj, heq, _, hget⟩ | ⟨hnone, _⟩
      · cases j with
        | zero => exact heq.symm
        | succ j =>
          exact absurd (hget.symm.trans (hall _ hid)) (pointer_ne_zero hbefore (Nat.succ_pos j) hj)
      · exact absurd rfl (hnone k hle)
  · intro hquiet id hid
    rcases get_cap_cases hbefore h hid with ⟨k, hle, hk, hfirst, hget⟩ | ⟨_, hget⟩
    · rcases hquiet k fun j hlt => hbefore j (Nat.lt_of_lt_of_le hlt hle) with hnull | hsame
      · exact absurd (hk.symm.trans hnull) hid
      · cases k with
        | zero => exact hget.trans hpointer
        | succ k => exact absurd (hsame.symm.trans hk) (hfirst 0 (Nat.succ_pos k))
    · exact hget

end Ended

/-- `read_capabilities` ends and `get_cap` finds the first capabilities exactly if the walk does not reach
a cycle of null capabilities, and, where the device has no first pointer, comes to nothing. It ends exactly
if the walk does not reach such a cycle. -/
theorem capabilities_found_iff (space : ConfigSpace) :
    ((∃ fuel capabilities, space.readCapabilities fuel = some capabilities ∧
        ∀ id, id ≠ 0 → space.IsFirstCap id (capabilities.getCap id)) ↔
      ¬ space.Trapped ∧ space.Quiet) ∧
    ((∃ fuel, (space.readCapabilities fuel).isSome) ↔ ¬ space.Trapped) := by
  refine ⟨?_, space.read_capabilities_ends_iff⟩
  rw [← space.read_capabilities_ends_iff]
  constructor
  · rintro ⟨fuel, capabilities, hread, hcorrect⟩
    refine ⟨⟨fuel, by rw [hread]; rfl⟩, fun hpointer => ?_⟩
    rcases space.read_capabilities_cases fuel with ⟨last, hbefore, hstop, final, hfinal, h⟩ | ⟨hnone, _⟩
    · obtain rfl := Option.some.inj (hread.symm.trans hfinal)
      exact (first_cap_of_no_pointer hbefore hstop h hpointer).mp hcorrect
    · rw [hread] at hnone
      cases hnone
  · rintro ⟨⟨fuel, hsome⟩, hquiet⟩
    rcases space.read_capabilities_cases fuel with ⟨last, hbefore, hstop, final, hfinal, h⟩ | ⟨hnone, _⟩
    · refine ⟨fuel, final, hfinal, ?_⟩
      by_cases hpointer : space.pointer 0 = 0
      · exact (first_cap_of_no_pointer hbefore hstop h hpointer).mpr (hquiet hpointer)
      · exact fun id hid => first_cap_of_pointer hbefore hstop h hpointer hid
    · rw [hnone] at hsome
      cases hsome

/-- A null capability that points to itself keeps the loop for ever. Without a first pointer the bytes of
the vendor are taken for a capability, and 0x1A for the offset of the next. -/
theorem null_capability_is_never_left :
    (∀ fuel, ConfigSpace.readCapabilities
      ⟨fun addr => if addr = 0x34 then 0x40 else if addr = 0x41 then 0x40 else 0⟩ fuel = none) ∧
    ∃ capabilities, ConfigSpace.readCapabilities
        ⟨fun addr => if addr = 0 then 0xF4 else if addr = 1 then 0x1A else if addr = 0x1A then 0x11 else 0⟩
        2 = some capabilities ∧ capabilities.getCap 0x11 = 0x1A := by
  refine ⟨fun fuel => ?_, ⟨_, rfl, by decide⟩⟩
  rcases read_capabilities_cases
      ⟨fun addr => if addr = 0x34 then 0x40 else if addr = 0x41 then 0x40 else 0⟩ fuel with
    ⟨last, _, hstop, _⟩ | ⟨hnone, _⟩
  · refine absurd (forall_goes_iff.mpr ⟨0, 1, by decide, by decide, ?_, by decide, ?_⟩ last) hstop
    · intro k hpos hle
      obtain rfl : k = 1 := by omega
      decide
    · intro k _ hlt
      obtain rfl : k = 0 := by omega
      decide
  · exact hnone

end ConfigSpace

end Otrix.Dev
