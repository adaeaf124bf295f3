import Otrix.Common.Word
import Otrix.Dev.Pci.Capabilities
import Otrix.Foundation.Scan

/-!
# Discovery of devices

`pci_dev::find_devices` scans the buses for the devices of a list of targets. The bounds of its loops are
`PCI_ADDR_MAX_BUSES - 1` and `PCI_ADDR_MAX_DEVICES - 1`, and both constants are the largest number already:
the last two buses and the last two device numbers of each bus are left out. A device is constructed when
a target without one has its identifiers, and the constructor walks over the capabilities.
-/

namespace Otrix.Dev

/-- `pci_dev`, without its table of vectors. -/
structure PciDev where
  bus : Nat
  dev : Nat
  function : Nat
  deviceId : UInt16
  vendorId : UInt16
  bar : Nat → Nat
  capabilities : Capabilities

/-- `descriptor_t`. -/
structure Descriptor where
  deviceId : UInt16
  vendorId : UInt16
  dev : Option PciDev

/-- The two identifiers of a target. -/
def Descriptor.ids (target : Descriptor) : UInt16 × UInt16 :=
  (target.deviceId, target.vendorId)

/-- The configuration spaces by bus, device and function. Where there is no device, all bytes are 0xFF. -/
structure PciBus where
  space : Nat → Nat → Nat → ConfigSpace

namespace PciBus

/-- The configuration space that `PCI_CFG_REG` selects. -/
def config (pci : PciBus) (bus dev function : Nat) : ConfigSpace :=
  pci.space (bus % 256) (dev % 32) (function % 4)

/-- `pci_dev::pci_dev`. -/
def newDev (pci : PciBus) (fuel : Nat) (bus dev function : Nat) (deviceId vendorId : UInt16) :
    Option PciDev :=
  let space := pci.config bus dev function
  let bar := fun i =>
    let value := space.read32 (UInt8.ofNat (0x10 + i * 4))
    if value.testBit 0 then value &&& 0xFFFC else value
  let status := space.read32 0x04 / 2 ^ 16
  if status.testBit 4 then
    (space.readCapabilities fuel).map (PciDev.mk bus dev function deviceId vendorId bar)
  else some ⟨bus, dev, function, deviceId, vendorId, bar, Capabilities.empty⟩

/-- The register with the identifiers of a device. -/
def devVend (pci : PciBus) (slot : Nat × Nat) : Nat :=
  (pci.config slot.1 slot.2 0).read32 0x00

/-- The identifiers of a device. -/
def ids (pci : PciBus) (slot : Nat × Nat) : UInt16 × UInt16 :=
  (UInt16.ofNat (pci.devVend slot / 2 ^ 16), UInt16.ofNat (pci.devVend slot))

/-- There is a device. -/
def present (pci : PciBus) (slot : Nat × Nat) : Bool :=
  pci.devVend slot % 2 ^ 16 ≠ 0xFFFF

/-- The loop over the targets: the first one with the identifiers gets the device, if it has none. -/
def offer (device : Option PciDev) (ids : UInt16 × UInt16) : List Descriptor → Option (List Descriptor)
  | [] => some []
  | target :: targets =>
    if target.ids = ids then
      if target.dev.isNone then device.map fun d => { target with dev := some d } :: targets
      else some (target :: targets)
    else (offer device ids targets).map (target :: ·)

/-- The body of the loops over buses and devices. -/
def visit (pci : PciBus) (fuel : Nat) (targets : List Descriptor) (slot : Nat × Nat) :
    Option (List Descriptor) :=
  if pci.present slot then
    offer (pci.newDev fuel slot.1 slot.2 0 (pci.ids slot).1 (pci.ids slot).2) (pci.ids slot) targets
  else some targets

/-- The buses and devices of the loops, in order. -/
@[irreducible]
def scanned : List (Nat × Nat) :=
  (List.range (0xFF - 1)).flatMap fun bus => (List.range (0x1F - 1)).map fun dev => (bus, dev)

/-- `find_devices`. There are no targets for a null pointer. -/
def findDevices (pci : PciBus) (fuel : Nat) : Option (List Descriptor) → Option (Kerror × List Descriptor)
  | none | some [] => some (.inval, [])
  | some (target :: targets) =>
    (scanned.foldlM (pci.visit fuel) (target :: targets)).map fun result => (.ok, result)

/-! ## What is asked -/

/-- A device with the identifiers of the target. -/
def Here (pci : PciBus) (target : Descriptor) (slot : Nat × Nat) : Prop :=
  slot.1 < 256 ∧ slot.2 < 32 ∧ pci.present slot = true ∧ pci.ids slot = target.ids

/-- The place of a slot in the order of buses and devices. -/
def slotNumber (slot : Nat × Nat) : Nat :=
  32 * slot.1 + slot.2

/-- The first device with the identifiers of the target. -/
def IsFirst (pci : PciBus) (target : Descriptor) (slot : Nat × Nat) : Prop :=
  pci.Here target slot ∧ ∀ other, pci.Here target other → slotNumber slot ≤ slotNumber other

/-- A target before and after: it keeps its device, or has the first one with its identifiers. -/
def Found (pci : PciBus) (target result : Descriptor) : Prop :=
  result.ids = target.ids ∧
  (target.dev.isSome → result.dev = target.dev) ∧
  (target.dev = none → result.dev = none ∧ (∀ slot, ¬ pci.Here target slot) ∨
    ∃ slot device, pci.IsFirst target slot ∧ result.dev = some device ∧
      (device.bus, device.dev) = slot ∧ device.function = 0)

/-- The constructor of the device ends. -/
def Constructible (pci : PciBus) (slot : Nat × Nat) : Prop :=
  ((pci.config slot.1 slot.2 0).read32 0x04 / 2 ^ 16).testBit 4 = true →
    ¬ (pci.config slot.1 slot.2 0).Trapped

/-- The first device for each target without one is in the range of the loops, and is constructed. -/
def Covered (pci : PciBus) (targets : List Descriptor) : Prop :=
  ∀ target ∈ targets, target.dev = none → ∀ slot, pci.IsFirst target slot →
    slot.1 < 0xFF - 1 ∧ slot.2 < 0x1F - 1 ∧ pci.Constructible slot

/-! ## One target -/

/-- What a visit does to one target. -/
def visitOne (pci : PciBus) (fuel : Nat) (target : Descriptor) (slot : Nat × Nat) : Option Descriptor :=
  if pci.present slot ∧ target.ids = pci.ids slot ∧ target.dev.isNone then
    (pci.newDev fuel slot.1 slot.2 0 (pci.ids slot).1 (pci.ids slot).2).map fun d =>
      { target with dev := some d }
  else some target

variable {pci : PciBus} {fuel : Nat}

variable {slot : Nat × Nat}

theorem visit_one_ids {target result : Descriptor}
    (h : pci.visitOne fuel target slot = some result) : result.ids = target.ids := by
  unfold visitOne at h
  split at h
  · obtain ⟨device, _, rfl⟩ := Option.map_eq_some_iff.mp h
    rfl
  · rw [Option.some.inj h]

variable {target : Descriptor}

theorem scan_one_of_some (slots : List (Nat × Nat)) (hdev : target.dev.isSome) :
    slots.foldlM (pci.visitOne fuel) target = some target := by
  induction slots with
  | nil => rfl
  | cons slot slots ih =>
    have hvisit : pci.visitOne fuel target slot = some target := by
      refine if_neg fun h => ?_
      rw [Option.isNone_iff_eq_none.mp h.2.2] at hdev
      cases hdev
    rw [List.foldlM_cons, hvisit]
    exact ih

/-- A target without a device gets the first one that matches. -/
theorem scan_one_of_none (slots : List (Nat × Nat)) (hdev : target.dev = none) :
    slots.foldlM (pci.visitOne fuel) target =
      match slots.find? fun slot => pci.present slot ∧ target.ids = pci.ids slot with
      | some slot => (pci.newDev fuel slot.1 slot.2 0 (pci.ids slot).1 (pci.ids slot).2).map fun d =>
        { target with dev := some d }
      | none => some target := by
  induction slots with
  | nil => rfl
  | cons slot slots ih =>
    rw [List.foldlM_cons, List.find?_cons]
    by_cases hmatch : pci.present slot ∧ target.ids = pci.ids slot
    · have hvisit : pci.visitOne fuel target slot =
          (pci.newDev fuel slot.1 slot.2 0 (pci.ids slot).1 (pci.ids slot).2).map fun d =>
            { target with dev := some d } :=
        if_pos ⟨hmatch.1, hmatch.2, by rw [hdev]; rfl⟩
      simp only [hvisit, decide_eq_true hmatch]
      cases pci.newDev fuel slot.1 slot.2 0 (pci.ids slot).1 (pci.ids slot).2 with
      | none => rfl
      | some device => exact scan_one_of_some slots rfl
    · have hvisit : pci.visitOne fuel target slot = some target :=
        if_neg fun h => hmatch ⟨h.1, h.2.1⟩
      simp only [hvisit, decide_eq_false hmatch]
      exact ih

/-! ## All targets -/

/-- The first target with the identifiers gets the device. -/
theorem offer_cons_of_eq (hpresent : pci.present slot)
    (hids : target.ids = pci.ids slot) (targets : List Descriptor) :
    offer (pci.newDev fuel slot.1 slot.2 0 (pci.ids slot).1 (pci.ids slot).2) (pci.ids slot)
      (target :: targets) = (pci.visitOne fuel target slot).map (· :: targets) := by
  rw [offer, if_pos hids, visitOne]
  by_cases hnone : target.dev.isNone
  · rw [if_pos hnone, if_pos ⟨hpresent, hids, hnone⟩, Option.map_map]
    rfl
  · rw [if_neg hnone, if_neg fun h => hnone h.2.2]
    rfl

variable {targets result : List Descriptor}

/-- A visit does to each of the targets what it does to one. -/
theorem visit_eq_some_iff
    (hdistinct : (targets.map Descriptor.ids).Nodup) :
    pci.visit fuel targets slot = some result ↔
      List.Forall₂ (fun target target' => pci.visitOne fuel target slot = some target') targets result := by
  by_cases hpresent : pci.present slot
  · rw [visit, if_pos hpresent]
    induction targets generalizing result with
    | nil =>
      rw [List.forall₂_nil_left_iff]
      exact ⟨fun h => (Option.some.inj h).symm, fun h => congrArg some h.symm⟩
    | cons target targets ih =>
      obtain ⟨hnot, hrest⟩ := List.nodup_cons.mp hdistinct
      rw [List.forall₂_cons_left_iff]
      by_cases hids : target.ids = pci.ids slot
      · -- the other targets have other identifiers
        have hothers : ∀ other ∈ targets, pci.visitOne fuel other slot = some other := by
          intro other hin
          refine if_neg fun h => hnot (List.mem_map.mpr ⟨other, hin, ?_⟩)
          exact h.2.1.trans hids.symm
        simp only [offer_cons_of_eq hpresent hids, Option.map_eq_some_iff, Scan.forall₂_of_fixed hothers]
        constructor
        · rintro ⟨item, hitem, rfl⟩
          exact ⟨item, targets, hitem, rfl, rfl⟩
        · rintro ⟨item, _, hitem, rfl, rfl⟩
          exact ⟨item, hitem, rfl⟩
      · have hsame : pci.visitOne fuel target slot = some target := if_neg fun h => hids h.2.1
        rw [offer, if_neg hids]
        simp only [hsame, Option.map_eq_some_iff, ih hrest]
        constructor
        · rintro ⟨rest, hvisit, rfl⟩
          exact ⟨target, rest, rfl, hvisit, rfl⟩
        · rintro ⟨item, rest, hitem, hvisit, rfl⟩
          obtain rfl := Option.some.inj hitem
          exact ⟨rest, hvisit, rfl⟩
  · have hsame : ∀ target ∈ targets, pci.visitOne fuel target slot = some target :=
      fun _ _ => if_neg fun h => hpresent h.1
    rw [visit, if_neg hpresent, Scan.forall₂_of_fixed hsame]
    exact ⟨fun h => (Option.some.inj h).symm, fun h => congrArg some h.symm⟩

theorem map_ids_of_forall
    (h : List.Forall₂ (fun target target' => pci.visitOne fuel target slot = some target')
      targets result) : result.map Descriptor.ids = targets.map Descriptor.ids := by
  induction h with
  | nil => rfl
  | cons hitem _ ih => rw [List.map_cons, List.map_cons, ih, visit_one_ids hitem]

/-- A scan does to each of the targets what it does to one. -/
theorem scan_eq_some_iff (slots : List (Nat × Nat))
    (hdistinct : (targets.map Descriptor.ids).Nodup) :
    slots.foldlM (pci.visit fuel) targets = some result ↔
      List.Forall₂ (fun target target' => slots.foldlM (pci.visitOne fuel) target = some target')
        targets result := by
  refine Scan.foldlM_eq_some_iff (pci.visit fuel) (pci.visitOne fuel)
    (fun items => (items.map Descriptor.ids).Nodup)
    (fun _ _ _ h => visit_eq_some_iff h) (fun items slot result h hvisit => ?_) slots hdistinct
  show (result.map Descriptor.ids).Nodup
  rw [map_ids_of_forall ((visit_eq_some_iff h).mp hvisit)]
  exact h

/-- `find_devices` scans for each of the targets by itself. -/
theorem find_devices_eq_some_iff {ret : Kerror}
    (hdistinct : (targets.map Descriptor.ids).Nodup) :
    pci.findDevices fuel (some targets) = some (ret, result) ↔
      ret = (if targets = [] then .inval else .ok) ∧
      List.Forall₂ (fun target target' => scanned.foldlM (pci.visitOne fuel) target = some target')
        targets result := by
  cases targets with
  | nil =>
    rw [if_pos rfl, List.forall₂_nil_left_iff, findDevices, Option.some.injEq, Prod.mk.injEq,
      eq_comm, @eq_comm _ []]
  | cons target targets =>
    rw [if_neg (List.cons_ne_nil target targets), ← scan_eq_some_iff scanned hdistinct, findDevices,
      Option.map_eq_some_iff]
    constructor
    · rintro ⟨_, hscan, heq⟩
      obtain ⟨rfl, rfl⟩ := Prod.mk.inj heq
      exact ⟨rfl, hscan⟩
    · rintro ⟨rfl, hscan⟩
      exact ⟨result, hscan, rfl⟩

/-! ## Which device is found -/

theorem mem_scanned : slot ∈ scanned ↔ slot.1 < 0xFF - 1 ∧ slot.2 < 0x1F - 1 := by
  simp only [scanned, List.mem_flatMap, List.mem_map, List.mem_range]
  constructor
  · rintro ⟨bus, hbus, dev, hdev, rfl⟩
    exact ⟨hbus, hdev⟩
  · rintro ⟨hbus, hdev⟩
    exact ⟨slot.1, hbus, slot.2, hdev, rfl⟩

/-- The scan is in the order of buses and devices. -/
theorem scanned_ordered : scanned.Pairwise fun slot other => slotNumber slot < slotNumber other := by
  unfold scanned
  refine List.pairwise_flatMap.mpr ⟨fun bus _ => ?_, ?_⟩
  · refine List.pairwise_map.mpr (List.pairwise_lt_range.imp fun hlt => ?_)
    simp only [slotNumber]
    omega
  · refine List.pairwise_lt_range.imp fun hlt slot hslot other hother => ?_
    obtain ⟨dev, hdev, rfl⟩ := List.mem_map.mp hslot
    obtain ⟨dev', _, rfl⟩ := List.mem_map.mp hother
    have hbound := List.mem_range.mp hdev
    simp only [slotNumber]
    omega

/-- There is a first among the devices with the identifiers. -/
theorem exists_first (h : ∃ slot, pci.Here target slot) :
    ∃ slot, pci.IsFirst target slot := by
  have hnumber : ∃ n slot, pci.Here target slot ∧ slotNumber slot = n := by
    obtain ⟨slot, hhere⟩ := h
    exact ⟨slotNumber slot, slot, hhere, rfl⟩
  classical
  obtain ⟨slot, hhere, heq⟩ := Nat.find_spec hnumber
  refine ⟨slot, hhere, fun other hother => ?_⟩
  rw [heq]
  exact Nat.find_min' hnumber ⟨other, hother, rfl⟩

variable {target : Descriptor}

theorem here_of_find
    (hfind : scanned.find? (fun slot => pci.present slot ∧ target.ids = pci.ids slot) = some slot) :
    pci.Here target slot := by
  obtain ⟨hbus, hdev⟩ := mem_scanned.mp (List.mem_of_find?_eq_some hfind)
  have hmatch := List.find?_some hfind
  obtain ⟨hpresent, hids⟩ := of_decide_eq_true hmatch
  exact ⟨by omega, by omega, hpresent, hids.symm⟩

/-- The search stops at the first device, if it is in the range of the loops. -/
theorem find_of_first (hfirst : pci.IsFirst target slot) (hin : slot ∈ scanned) :
    scanned.find? (fun slot => pci.present slot ∧ target.ids = pci.ids slot) = some slot := by
  obtain ⟨⟨_, hdev, hpresent, hids⟩, hleast⟩ := hfirst
  have hmatch : decide (pci.present slot ∧ target.ids = pci.ids slot) = true :=
    decide_eq_true ⟨hpresent, hids.symm⟩
  cases hfind : scanned.find? fun slot => pci.present slot ∧ target.ids = pci.ids slot with
  | none => exact absurd hmatch (List.find?_eq_none.mp hfind slot hin)
  | some found =>
    rcases Scan.rel_of_find? scanned_ordered hfind hin hmatch with heq | hlt
    · rw [heq]
    · exact absurd (hleast found (here_of_find hfind)) (Nat.not_le.mpr hlt)

theorem new_dev_slot {bus dev function : Nat} {deviceId vendorId : UInt16} {device : PciDev}
    (h : pci.newDev fuel bus dev function deviceId vendorId = some device) :
    (device.bus, device.dev) = (bus, dev) ∧ device.function = function := by
  simp only [newDev] at h
  split at h
  · obtain ⟨capabilities, _, rfl⟩ := Option.map_eq_some_iff.mp h
    exact ⟨rfl, rfl⟩
  · obtain rfl := Option.some.inj h
    exact ⟨rfl, rfl⟩

/-- A constructor that has ended was one that ends. -/
theorem constructible_of_new_dev {deviceId vendorId : UInt16} {device : PciDev}
    (h : pci.newDev fuel slot.1 slot.2 0 deviceId vendorId = some device) : pci.Constructible slot := by
  intro hstatus
  simp only [newDev, hstatus, if_true] at h
  obtain ⟨capabilities, hread, _⟩ := Option.map_eq_some_iff.mp h
  exact (ConfigSpace.read_capabilities_ends_iff _).mp ⟨fuel, by rw [hread]; rfl⟩

/-- A constructor that ends does so with enough iterations. -/
theorem new_dev_of_constructible (deviceId vendorId : UInt16)
    (h : pci.Constructible slot) :
    ∃ least, ∀ fuel, least ≤ fuel →
      ∃ device, pci.newDev fuel slot.1 slot.2 0 deviceId vendorId = some device := by
  by_cases hstatus : ((pci.config slot.1 slot.2 0).read32 0x04 / 2 ^ 16).testBit 4 = true
  · obtain ⟨least, hends⟩ := ConfigSpace.read_capabilities_of_not_trapped (h hstatus)
    refine ⟨least, fun fuel hle => ?_⟩
    obtain ⟨capabilities, hread⟩ := Option.isSome_iff_exists.mp (hends fuel hle)
    simp only [newDev, hstatus, if_true, hread]
    exact ⟨_, rfl⟩
  · refine ⟨0, fun fuel _ => ?_⟩
    simp only [newDev, hstatus]
    exact ⟨_, rfl⟩

theorem found_of_covered (hcovered : target.dev = none → ∀ slot, pci.IsFirst target slot →
      slot.1 < 0xFF - 1 ∧ slot.2 < 0x1F - 1 ∧ pci.Constructible slot) :
    ∃ least, ∀ fuel, least ≤ fuel → ∃ result,
      scanned.foldlM (pci.visitOne fuel) target = some result ∧ pci.Found target result := by
  cases hdev : target.dev with
  | some device =>
    have hsome : target.dev.isSome := by rw [hdev]; rfl
    refine ⟨0, fun fuel _ => ⟨target, scan_one_of_some scanned hsome, rfl, fun _ => rfl, fun hnone => ?_⟩⟩
    rw [hdev] at hnone
    cases hnone
  | none =>
    have hnot : ¬ target.dev.isSome := by rw [hdev]; exact Bool.false_ne_true
    by_cases hhere : ∃ slot, pci.Here target slot
    · obtain ⟨slot, hfirst⟩ := exists_first hhere
      obtain ⟨hbus, hnumber, hends⟩ := hcovered hdev slot hfirst
      obtain ⟨least, hnew⟩ := new_dev_of_constructible (pci.ids slot).1 (pci.ids slot).2 hends
      refine ⟨least, fun fuel hle => ?_⟩
      obtain ⟨device, hdevice⟩ := hnew fuel hle
      refine ⟨{ target with dev := some device }, ?_, rfl, fun h => absurd h hnot, fun _ => Or.inr ?_⟩
      · rw [scan_one_of_none scanned hdev, find_of_first hfirst (mem_scanned.mpr ⟨hbus, hnumber⟩)]
        simp only [hdevice]
        rfl
      · exact ⟨slot, device, hfirst, rfl, (new_dev_slot hdevice).1, (new_dev_slot hdevice).2⟩
    · have hnone : ∀ slot, ¬ pci.Here target slot := fun slot h => hhere ⟨slot, h⟩
      refine ⟨0, fun fuel _ => ⟨target, ?_, rfl, fun _ => rfl, fun _ => Or.inl ⟨hdev, hnone⟩⟩⟩
      rw [scan_one_of_none scanned hdev]
      cases hfind : scanned.find? fun slot => pci.present slot ∧ target.ids = pci.ids slot with
      | none => rfl
      | some slot => exact absurd (here_of_find hfind) (hnone slot)

theorem covered_of_found {result : Descriptor}
    (hscan : scanned.foldlM (pci.visitOne fuel) target = some result) (hfound : pci.Found target result)
    (hdev : target.dev = none) (hfirst : pci.IsFirst target slot) :
    slot.1 < 0xFF - 1 ∧ slot.2 < 0x1F - 1 ∧ pci.Constructible slot := by
  obtain ⟨_, _, hnew⟩ := hfound
  rcases hnew hdev with ⟨_, hnone⟩ | ⟨other, device, hother, hresult, hslot, _⟩
  · exact absurd hfirst.1 (hnone slot)
  · -- there is only one first slot
    have hsame : other = slot := by
      have hle := hother.2 slot hfirst.1
      have hge := hfirst.2 other hother.1
      have hlt := hother.1.2.1
      have hlt' := hfirst.1.2.1
      simp only [slotNumber] at hle hge
      exact Prod.ext (by omega) (by omega)
    rw [scan_one_of_none scanned hdev] at hscan
    cases hfind : scanned.find? fun slot => pci.present slot ∧ target.ids = pci.ids slot with
    | none =>
      simp only [hfind] at hscan
      rw [← Option.some.inj hscan, hdev] at hresult
      cases hresult
    | some found =>
      simp only [hfind] at hscan
      obtain ⟨device', hdevice, rfl⟩ := Option.map_eq_some_iff.mp hscan
      obtain rfl := Option.some.inj hresult
      have hplace : found = slot :=
        (new_dev_slot hdevice).1.symm.trans (hslot.trans hsame)
      obtain ⟨hbus, hnumber⟩ := mem_scanned.mp (List.mem_of_find?_eq_some hfind)
      rw [hplace] at hbus hnumber hdevice
      exact ⟨hbus, hnumber, constructible_of_new_dev hdevice⟩

/-- `find_devices` ends and every target has the device it should have, exactly if the first devices for
the targets without one are on the buses 0 to 253, with the numbers 0 to 29, and their constructors end. -/
theorem devices_found_iff (pci : PciBus) {targets : List Descriptor}
    (hdistinct : (targets.map Descriptor.ids).Nodup) :
    (∃ fuel ret result, pci.findDevices fuel (some targets) = some (ret, result) ∧
      List.Forall₂ pci.Found targets result) ↔ pci.Covered targets := by
  constructor
  · rintro ⟨fuel, ret, result, hfind, hfound⟩
    obtain ⟨_, hscan⟩ := (find_devices_eq_some_iff hdistinct).mp hfind
    have hboth : List.Forall₂ (fun target result => (target.dev = none → ∀ slot, pci.IsFirst target slot →
        slot.1 < 0xFF - 1 ∧ slot.2 < 0x1F - 1 ∧ pci.Constructible slot) ∧ pci.Found target result)
        targets result :=
      List.Forall₂.mp (fun _ _ hscan hfound =>
        ⟨fun hdev _ hfirst => covered_of_found hscan hfound hdev hfirst, hfound⟩) hscan hfound
    exact ((List.forall₂_and_left targets result).mp hboth).1
  · intro hcovered
    obtain ⟨fuel, hall⟩ := Scan.exists_common fun target hin => found_of_covered (hcovered target hin)
    obtain ⟨result, hresult⟩ := Scan.exists_forall₂ hall
    refine ⟨fuel, _, result, (find_devices_eq_some_iff hdistinct).mpr ⟨rfl, ?_⟩, ?_⟩
    · exact hresult.imp fun _ _ h => h.1
    · exact hresult.imp fun _ _ h => h.2

/-- A machine with one network device, which has no capabilities. -/
def oneDevice (slot : Nat × Nat) : PciBus where
  space := fun bus dev _ =>
    if (bus, dev) = slot then
      ⟨fun addr => if addr = 0 then 0xF4 else if addr = 1 then 0x1A else if addr = 3 then 0x10 else 0⟩
    else ⟨fun _ => 0xFF⟩

/-- A target for the network device. -/
def netTarget : Descriptor := ⟨0x1000, 0x1AF4, none⟩

theorem eq_of_here_one_device {slot other : Nat × Nat} (h : (oneDevice slot).Here netTarget other) :
    other = slot := by
  obtain ⟨hbus, hdev, hpresent, _⟩ := h
  by_contra hne
  have hspace : (oneDevice slot).config other.1 other.2 0 = ⟨fun _ => 0xFF⟩ := by
    rw [config, Nat.mod_eq_of_lt hbus, Nat.mod_eq_of_lt hdev]
    exact if_neg hne
  rw [present, devVend, hspace] at hpresent
  revert hpresent
  decide

/-- A device on the first bus is found. -/
theorem devices_found_first_bus :
    ∃ fuel ret result, (oneDevice (0, 3)).findDevices fuel (some [netTarget]) = some (ret, result) ∧
      List.Forall₂ (oneDevice (0, 3)).Found [netTarget] result := by
  refine (devices_found_iff (oneDevice (0, 3)) (by decide)).mpr ?_
  intro target hin _ slot hfirst
  obtain rfl := List.mem_singleton.mp hin
  obtain rfl := eq_of_here_one_device hfirst.1
  refine ⟨by decide, by decide, fun hstatus => absurd hstatus ?_⟩
  decide

/-- A device with the number 31 is not found. -/
theorem last_device_is_missed :
    (oneDevice (0, 31)).Here netTarget (0, 31) ∧
    ∀ fuel, (oneDevice (0, 31)).findDevices fuel (some [netTarget]) = some (.ok, [netTarget]) := by
  refine ⟨⟨by decide, by decide, by decide, by decide⟩, fun fuel => ?_⟩
  refine (find_devices_eq_some_iff (by decide)).mpr ⟨rfl, .cons ?_ .nil⟩
  rw [scan_one_of_none scanned rfl]
  cases hfind : scanned.find? fun slot => (oneDevice (0, 31)).present slot ∧
      netTarget.ids = (oneDevice (0, 31)).ids slot with
  | none => rfl
  | some slot =>
    obtain rfl := eq_of_here_one_device (here_of_find hfind)
    exact absurd (mem_scanned.mp (List.mem_of_find?_eq_some hfind)).2 (by decide)

end PciBus

end Otrix.Dev
