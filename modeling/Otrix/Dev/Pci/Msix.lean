import Otrix.Arch.IrqManager
import Otrix.Foundation.Run

/-!
# MSI-X vectors

`request_msix` and `free_msix` of `dev/pci.cpp`. A vector of a device is free when the low address of its
entry is zero. `request_msix` takes the first free vector and writes the number of a new interrupt
request to it, without looking whether there was one: the result of `request_irq` is narrowed to a byte,
and `-1` becomes the number 255. `free_msix` clears the entry and keeps the interrupt request.

The machine has every sequence of these calls on any number of devices, each with a table in memory of
its own. It starts with any interrupt requests of other drivers.
-/

namespace Otrix.Dev

open Arch Function Machine

/-- `msix_entry_t`. -/
structure MsixEntry where
  messageAddressLow : UInt32
  messageAddressHigh : UInt32
  messageData : UInt32
  vectorControl : UInt32

/-- Bit 0 of the vector control is the mask bit. -/
def MsixEntry.Unmasked (entry : MsixEntry) : Prop :=
  entry.vectorControl &&& 1 = 0

/-- `msix_table_` and `msix_table_size_` of a device. The size is a field of ten bits plus one, or zero
before `enable_msix`. -/
structure MsixTable where
  size : Nat
  entry : Nat → MsixEntry
  size_le : size ≤ 1024

/-- What the calls change: the requests of interrupts, and the tables of the devices. -/
structure MsixSystem where
  irqs : IrqTable
  device : Nat → MsixTable

namespace MsixTable

/-- The part of `enable_msix` that sets up the table. -/
def enable (table : MsixTable) (messageControl : UInt32) : MsixTable where
  size := ((messageControl >>> 16) &&& 0x3FF).toNat + 1
  entry := fun i =>
    if i < ((messageControl >>> 16) &&& 0x3FF).toNat + 1 then
      { table.entry i with messageAddressLow := 0, vectorControl := 1 }
    else table.entry i
  size_le := by
    rw [UInt32.toNat_and]
    exact Nat.succ_le_succ Nat.and_le_right

/-- The search for a free vector. -/
def firstFree (table : MsixTable) : Nat :=
  ((List.range table.size).find? fun i => (table.entry i).messageAddressLow = 0).getD 0xFFFF

/-- The entry that `request_msix` writes. -/
def requested (apicId : UInt32) (irq : Nat) : MsixEntry where
  messageAddressLow := (0xFEE00000 : UInt32) ||| (apicId <<< (12 : UInt32))
  messageAddressHigh := 0
  messageData := UInt32.ofNat irq
  vectorControl := 0

end MsixTable

namespace MsixSystem

/-- An entry of the table of a device is written. -/
def writeEntry (system : MsixSystem) (dev vector : Nat) (entry : MsixEntry) : MsixSystem :=
  let table := system.device dev
  { system with
    device := Function.update system.device dev
      ⟨table.size, Function.update table.entry vector entry, table.size_le⟩ }

/-- `request_msix`: the error, and the vector. -/
def requestMsix (system : MsixSystem) (dev handler owner context : Nat) (apicId : UInt32) :
    MsixSystem × Kerror × Nat :=
  if handler = 0 then (system, .inval, 0xFFFF)
  else
    let vector := (system.device dev).firstFree
    if vector = 0xFFFF then (system, .nomem, vector)
    else
      let (irqs, ret) := system.irqs.requestIrq handler owner context
      -- the result of `request_irq` is stored to a `uint8_t`
      let irq := (ret % 256).toNat
      ({ system with irqs := irqs }.writeEntry dev vector (MsixTable.requested apicId irq), .ok, vector)

/-- `free_msix`. -/
def freeMsix (system : MsixSystem) (dev vector : Nat) : MsixSystem :=
  if (system.device dev).size ≤ vector then system
  else
    system.writeEntry dev vector { (system.device dev).entry vector with
      messageAddressLow := 0, messageData := 0, vectorControl := 1 }

/-- The vector is one of the device, and it is not masked. -/
def InUse (system : MsixSystem) (dev vector : Nat) : Prop :=
  vector < (system.device dev).size ∧ ((system.device dev).entry vector).Unmasked

/-- The interrupt request of a vector. -/
def irq (system : MsixSystem) (dev vector : Nat) : Nat :=
  ((system.device dev).entry vector).messageData.toNat

end MsixSystem

/-- The calls. The local APIC has any number. -/
inductive MsixEvent where
  | request (dev handler owner context : Nat) (apicId : UInt32)
  | free (dev vector : Nat)

/-- The system, and for each vector the handler and the context of the last request that returned it. -/
structure MsixRun where
  system : MsixSystem
  granted : Nat → Nat → Nat × Nat

namespace MsixRun

/-- The handler and the context of the request are noted for the vector that it returned. -/
def note (granted : Nat → Nat → Nat × Nat) (dev handler context : Nat) :
    Kerror × Nat → Nat → Nat → Nat × Nat
  | (.ok, vector) => Function.update granted dev
      (Function.update (granted dev) vector (handler, context))
  | _ => granted

/-- One call. -/
def next (state : MsixRun) : MsixEvent → MsixRun
  | .request dev handler owner context apicId =>
    let (system, result) := state.system.requestMsix dev handler owner context apicId
    ⟨system, note state.granted dev handler context result⟩
  | .free dev vector => ⟨state.system.freeMsix dev vector, state.granted⟩

/-- No call is refused. -/
def step (state : MsixRun) (event : MsixEvent) : Option MsixRun :=
  some (state.next event)

/-- No vector has been requested yet: all are masked. -/
def Started (state : MsixRun) : Prop :=
  ∀ dev vector, ¬ state.system.InUse dev vector

/-- Vectors in use have different interrupt requests, with the handler and the context that were
passed. -/
structure Intact (state : MsixRun) : Prop where
  backed : ∀ dev vector, state.system.InUse dev vector →
    firstUserIrqNum ≤ state.system.irq dev vector ∧ state.system.irq dev vector < numIrq ∧
    (state.system.irqs.entry (state.system.irq dev vector)).allocated = true ∧
    ((state.system.irqs.entry (state.system.irq dev vector)).handler,
      (state.system.irqs.entry (state.system.irq dev vector)).context) = state.granted dev vector
  distinct : ∀ dev vector dev' vector', state.system.InUse dev vector →
    state.system.InUse dev' vector' → state.system.irq dev vector = state.system.irq dev' vector' →
    dev = dev' ∧ vector = vector'

/-- A request succeeds only if an interrupt was available, and the interrupt of a vector that is freed is
available afterwards. -/
def Lawful (state : MsixRun) : MsixEvent → Prop
  | .request dev handler owner context apicId =>
    (state.system.requestMsix dev handler owner context apicId).2.1 = .ok →
      ∃ irq, state.system.irqs.Available irq
  | .free dev vector => state.system.InUse dev vector →
      (state.system.freeMsix dev vector).irqs.Available (state.system.irq dev vector)

/-- A request that has a handler and finds a vector also finds an interrupt. -/
def Served (state : MsixRun) : MsixEvent → Prop
  | .request dev handler _ _ _ => handler = 0 ∨ (state.system.device dev).firstFree = 0xFFFF ∨
      ∃ irq, state.system.irqs.Available irq
  | .free _ _ => True

/-- Requests are served, and no vector in use is freed. -/
def Careful (state : MsixRun) : MsixEvent → Prop
  | .request dev handler owner context apicId =>
    state.Served (.request dev handler owner context apicId)
  | .free dev vector => ¬ state.system.InUse dev vector

end MsixRun

namespace MsixSystem

variable {system : MsixSystem} {dev : Nat}

/-- The system after a request found the vector and the interrupt. -/
def grant (system : MsixSystem) (dev vector irq handler owner context : Nat) (apicId : UInt32) :
    MsixSystem :=
  { system with
    irqs := ⟨Function.update system.irqs.entry irq ⟨true, 0, owner, handler, context⟩⟩ }.writeEntry
    dev vector (MsixTable.requested apicId irq)

/-- What `request_msix` does. In the last case no interrupt is left. -/
theorem request_msix_cases (system : MsixSystem) (dev handler owner context : Nat) (apicId : UInt32) :
    ((handler = 0 ∨ (system.device dev).firstFree = 0xFFFF) ∧
      ∃ err, err ≠ .ok ∧ system.requestMsix dev handler owner context apicId = (system, err, 0xFFFF)) ∨
    (handler ≠ 0 ∧ (system.device dev).firstFree ≠ 0xFFFF) ∧
      ((∃ irq, system.irqs.Available irq ∧ system.requestMsix dev handler owner context apicId =
        (system.grant dev (system.device dev).firstFree irq handler owner context apicId, .ok,
          (system.device dev).firstFree)) ∨
      (∀ irq, ¬ system.irqs.Available irq) ∧
        system.requestMsix dev handler owner context apicId =
          (system.writeEntry dev (system.device dev).firstFree (MsixTable.requested apicId 255), .ok,
            (system.device dev).firstFree)) := by
  by_cases hhandler : handler = 0
  · refine Or.inl ⟨Or.inl hhandler, .inval, by decide, ?_⟩
    rw [requestMsix, if_pos hhandler]
  · by_cases hvector : (system.device dev).firstFree = 0xFFFF
    · refine Or.inl ⟨Or.inr hvector, .nomem, by decide, ?_⟩
      simp only [requestMsix, if_neg hhandler, hvector, if_true]
    · refine Or.inr ⟨⟨hhandler, hvector⟩, ?_⟩
      rcases system.irqs.request_irq_cases handler owner context with ⟨irq, havailable, hret⟩ | ⟨hnone, hret⟩
      · refine Or.inl ⟨irq, havailable, ?_⟩
        have hbyte : ((irq : Int) % 256).toNat = irq := by
          have hlt : irq < 256 := havailable.2.1
          omega
        simp only [requestMsix, if_neg hhandler, if_neg hvector, hret, hbyte]
        rfl
      · refine Or.inr ⟨hnone, ?_⟩
        simp only [requestMsix, if_neg hhandler, if_neg hvector, hret]
        rfl

/-! ## Writing an entry -/

section WriteEntry

variable {vector : Nat} {entry : MsixEntry} {dev' vector' : Nat}

theorem write_entry_size :
    ((system.writeEntry dev vector entry).device dev').size = (system.device dev').size := by
  by_cases hdev : dev' = dev
  · subst hdev
    simp only [writeEntry, update_self]
  · simp only [writeEntry, update_of_ne hdev]

theorem write_entry_self : ((system.writeEntry dev vector entry).device dev).entry vector = entry := by
  simp only [writeEntry, update_self]

theorem write_entry_of_ne (hne : ¬ (dev' = dev ∧ vector' = vector)) :
    ((system.writeEntry dev vector entry).device dev').entry vector' =
      (system.device dev').entry vector' := by
  by_cases hdev : dev' = dev
  · subst hdev
    simp only [writeEntry, update_self]
    exact update_of_ne (fun heq => hne ⟨rfl, heq⟩) _ _
  · simp only [writeEntry, update_of_ne hdev]

theorem in_use_write_entry_of_ne (hne : ¬ (dev' = dev ∧ vector' = vector)) :
    (system.writeEntry dev vector entry).InUse dev' vector' ↔ system.InUse dev' vector' := by
  rw [InUse, InUse, write_entry_size, write_entry_of_ne hne]

theorem irq_write_entry_of_ne (hne : ¬ (dev' = dev ∧ vector' = vector)) :
    (system.writeEntry dev vector entry).irq dev' vector' = system.irq dev' vector' := by
  rw [MsixSystem.irq, MsixSystem.irq, write_entry_of_ne hne]

end WriteEntry

theorem free_msix_irqs (dev vector : Nat) : (system.freeMsix dev vector).irqs = system.irqs := by
  unfold freeMsix
  split <;> rfl

/-- The vectors in use after `free_msix` were so before. -/
theorem in_use_free_msix {vector dev' vector' : Nat}
    (h : (system.freeMsix dev vector).InUse dev' vector') :
    system.InUse dev' vector' ∧ (system.freeMsix dev vector).irq dev' vector' = system.irq dev' vector' := by
  unfold freeMsix at h ⊢
  by_cases hsize : (system.device dev).size ≤ vector
  · rw [if_pos hsize] at h ⊢
    exact ⟨h, rfl⟩
  · rw [if_neg hsize] at h ⊢
    have hne : ¬ (dev' = dev ∧ vector' = vector) := by
      rintro ⟨rfl, rfl⟩
      have hmasked := h.2
      rw [write_entry_self] at hmasked
      exact absurd hmasked (show ¬ (1 : UInt32) &&& 1 = 0 by decide)
    exact ⟨(in_use_write_entry_of_ne hne).mp h, irq_write_entry_of_ne hne⟩

end MsixSystem

namespace MsixRun

variable {state : MsixRun} {dev vector handler owner context irq : Nat} {apicId : UInt32}

theorem Started.intact (h : state.Started) : state.Intact where
  backed := fun dev vector hin => absurd hin (h dev vector)
  distinct := fun dev vector _ _ hin => absurd hin (h dev vector)

theorem Intact.irq_ne (h : state.Intact) (havailable : state.system.irqs.Available irq)
    (hin : state.system.InUse dev vector) : state.system.irq dev vector ≠ irq := by
  rintro rfl
  have hallocated := (h.backed dev vector hin).2.2.1
  rw [havailable.2.2] at hallocated
  cases hallocated

theorem note_self (granted : Nat → Nat → Nat × Nat) (dev handler context vector : Nat) :
    note granted dev handler context (.ok, vector) dev vector = (handler, context) := by
  simp only [note, update_self]

theorem note_of_ne (granted : Nat → Nat → Nat × Nat) {dev handler context vector dev' vector' : Nat}
    (hne : ¬ (dev' = dev ∧ vector' = vector)) :
    note granted dev handler context (.ok, vector) dev' vector' = granted dev' vector' := by
  by_cases hdev : dev' = dev
  · subst hdev
    simp only [note, update_self]
    exact update_of_ne (fun heq => hne ⟨rfl, heq⟩) _ _
  · simp only [note, update_of_ne hdev]

theorem irq_grant_self (havailable : state.system.irqs.Available irq) :
    (state.system.grant dev vector irq handler owner context apicId).irq dev vector = irq := by
  unfold MsixSystem.irq MsixSystem.grant
  rw [MsixSystem.write_entry_self]
  exact UInt32.toNat_ofNat_of_lt' (Nat.lt_trans havailable.2.1 (by decide))

/-- Any other vector is as before, and its interrupt is another one. -/
theorem Intact.grant_of_ne (h : state.Intact) (havailable : state.system.irqs.Available irq)
    {dev' vector' : Nat} (hne : ¬ (dev' = dev ∧ vector' = vector))
    (hin : (state.system.grant dev vector irq handler owner context apicId).InUse dev' vector') :
    state.system.InUse dev' vector' ∧
      (state.system.grant dev vector irq handler owner context apicId).irq dev' vector' =
        state.system.irq dev' vector' ∧ state.system.irq dev' vector' ≠ irq := by
  unfold MsixSystem.grant at hin ⊢
  have hbefore := (MsixSystem.in_use_write_entry_of_ne hne).mp hin
  exact ⟨hbefore, MsixSystem.irq_write_entry_of_ne hne, h.irq_ne havailable hbefore⟩

/-- A vector is granted with an available interrupt. -/
theorem Intact.grant (h : state.Intact) (havailable : state.system.irqs.Available irq) :
    (MsixRun.mk (state.system.grant dev vector irq handler owner context apicId)
      (note state.granted dev handler context (.ok, vector))).Intact := by
  constructor
  · intro dev' vector' hin
    by_cases hsame : dev' = dev ∧ vector' = vector
    · obtain ⟨rfl, rfl⟩ := hsame
      simp only [irq_grant_self havailable, note_self]
      refine ⟨havailable.1, havailable.2.1, ?_, ?_⟩
      all_goals simp only [MsixSystem.grant, MsixSystem.writeEntry, update_self]
    · obtain ⟨hbefore, hirq, hne⟩ := h.grant_of_ne havailable hsame hin
      have hentry : (state.system.grant dev vector irq handler owner context apicId).irqs.entry
          (state.system.irq dev' vector') = state.system.irqs.entry (state.system.irq dev' vector') :=
        update_of_ne hne _ _
      simp only [hirq, hentry, note_of_ne state.granted hsame]
      exact h.backed dev' vector' hbefore
  · intro dev' vector' dev'' vector'' hin' hin'' heq
    by_cases hsame' : dev' = dev ∧ vector' = vector
    · by_cases hsame'' : dev'' = dev ∧ vector'' = vector
      · exact ⟨hsame'.1.trans hsame''.1.symm, hsame'.2.trans hsame''.2.symm⟩
      · obtain ⟨rfl, rfl⟩ := hsame'
        obtain ⟨_, hirq, hne⟩ := h.grant_of_ne havailable hsame'' hin''
        exact absurd (hirq.symm.trans (heq.symm.trans (irq_grant_self havailable))) hne
    · obtain ⟨hbefore', hirq', hne'⟩ := h.grant_of_ne havailable hsame' hin'
      by_cases hsame'' : dev'' = dev ∧ vector'' = vector
      · obtain ⟨rfl, rfl⟩ := hsame''
        exact absurd (hirq'.symm.trans (heq.trans (irq_grant_self havailable))) hne'
      · obtain ⟨hbefore'', hirq'', _⟩ := h.grant_of_ne havailable hsame'' hin''
        exact h.distinct dev' vector' dev'' vector'' hbefore' hbefore''
          (hirq'.symm.trans (heq.trans hirq''))

theorem Intact.free (h : state.Intact) (dev vector : Nat) : (state.next (.free dev vector)).Intact := by
  constructor
  · intro dev' vector' hin
    obtain ⟨hbefore, hirq⟩ := MsixSystem.in_use_free_msix hin
    simp only [next, hirq, MsixSystem.free_msix_irqs]
    exact h.backed dev' vector' hbefore
  · intro dev' vector' dev'' vector'' hin' hin'' heq
    obtain ⟨hbefore', hirq'⟩ := MsixSystem.in_use_free_msix hin'
    obtain ⟨hbefore'', hirq''⟩ := MsixSystem.in_use_free_msix hin''
    exact h.distinct dev' vector' dev'' vector'' hbefore' hbefore'' (hirq'.symm.trans (heq.trans hirq''))

theorem Intact.next (h : state.Intact) {event : MsixEvent} (hserved : state.Served event) :
    (state.next event).Intact := by
  cases event with
  | free dev vector => exact h.free dev vector
  | request dev handler owner context apicId =>
    rcases state.system.request_msix_cases dev handler owner context apicId with
      ⟨_, err, herr, hresult⟩ | ⟨⟨hhandler, hvector⟩, ⟨irq, havailable, hresult⟩ | ⟨hnone, _⟩⟩
    · have hsame : state.next (.request dev handler owner context apicId) = state := by
        simp only [MsixRun.next, hresult]
        cases err <;> first | rfl | exact absurd rfl herr
      rw [hsame]
      exact h
    · simp only [MsixRun.next, hresult]
      exact h.grant havailable
    · obtain hnull | hfull | ⟨irq, havailable⟩ := hserved
      · exact absurd hnull hhandler
      · exact absurd hfull hvector
      · exact absurd havailable (hnone irq)

/-- Where the vectors are intact, exactly the careful calls do what is asked of them. -/
theorem Intact.lawful_iff (h : state.Intact) (event : MsixEvent) :
    state.Lawful event ↔ state.Careful event := by
  cases event with
  | free dev vector =>
    show (state.system.InUse dev vector → _) ↔ ¬ state.system.InUse dev vector
    refine ⟨fun hlawful hin => ?_, fun hnot hin => absurd hin hnot⟩
    have havailable := hlawful hin
    rw [MsixSystem.free_msix_irqs] at havailable
    exact h.irq_ne havailable hin rfl
  | request dev handler owner context apicId =>
    show (_ = Kerror.ok → _) ↔ (handler = 0 ∨ _ ∨ _)
    rcases state.system.request_msix_cases dev handler owner context apicId with
      ⟨hrefused, err, herr, hresult⟩ | ⟨_, ⟨irq, havailable, _⟩ | ⟨hnone, hresult⟩⟩
    · refine iff_of_true (fun hok => absurd (by rw [hresult] at hok; exact hok) herr) ?_
      exact hrefused.imp_right Or.inl
    · exact iff_of_true (fun _ => ⟨irq, havailable⟩) (Or.inr (Or.inr ⟨irq, havailable⟩))
    · rename_i hfound
      refine iff_of_false (fun hlawful => ?_) ?_
      · obtain ⟨irq, havailable⟩ := hlawful (by rw [hresult])
        exact hnone irq havailable
      · rintro (hnull | hfull | ⟨irq, havailable⟩)
        · exact hfound.1 hnull
        · exact hfound.2 hfull
        · exact hnone irq havailable

theorem available_of_next {event : MsixEvent} (h : (state.next event).system.irqs.Available irq) :
    state.system.irqs.Available irq := by
  cases event with
  | free dev vector =>
    simp only [MsixRun.next, MsixSystem.free_msix_irqs] at h
    exact h
  | request dev handler owner context apicId =>
    rcases state.system.request_msix_cases dev handler owner context apicId with
      ⟨_, err, _, hresult⟩ | ⟨_, ⟨taken, _, hresult⟩ | ⟨_, hresult⟩⟩
    · simpa only [MsixRun.next, hresult] using h
    · simp only [MsixRun.next, hresult] at h
      obtain ⟨hlow, hhigh, hfree⟩ := h
      refine ⟨hlow, hhigh, ?_⟩
      have hne : irq ≠ taken := by
        rintro rfl
        simp [MsixSystem.grant, MsixSystem.writeEntry] at hfree
      rwa [← update_of_ne hne _ state.system.irqs.entry]
    · simp only [MsixRun.next, hresult] at h
      exact h

/-- The vectors stay intact and every call does what is asked of it exactly if every request finds an
interrupt and no vector in use is freed. They also stay intact when vectors are freed, as long as the
requests find interrupts. What was available at the end was available at the start: no interrupt is ever
given back. -/
theorem msix_vectors_backed_iff {state final : MsixRun} {events : List MsixEvent}
    (hstart : state.Started) (hrun : run step state events = some final) :
    (Always step Intact state events ∧ Meets step Lawful state events ↔
      Meets step Careful state events) ∧
    (Meets step Served state events → Always step Intact state events) ∧
    ∀ irq, final.system.irqs.Available irq → state.system.irqs.Available irq := by
  have hkeep : ∀ state event next, Intact state → Served state event → step state event = some next →
      Intact next := by
    rintro state event next h hserved hstep
    obtain rfl := Option.some.inj hstep
    exact h.next hserved
  have hserved : ∀ state event, Careful state event → Served state event := by
    intro state event hcareful
    cases event with
    | request dev handler owner context apicId => exact hcareful
    | free dev vector => trivial
  have hlawful : Meets step Lawful state events ↔ Meets step Careful state events :=
    meets_iff_meets Intact (fun _ event h => h.lawful_iff event)
      (fun state event next h hcareful => hkeep state event next h (hserved state event hcareful))
      hstart.intact
  refine ⟨?_, always_of_meets Intact hkeep hstart.intact, ?_⟩
  · rw [hlawful]
    refine ⟨And.right, fun hcareful => ⟨?_, hcareful⟩⟩
    exact always_of_meets Intact
      (fun state event next h hcareful => hkeep state event next h (hserved state event hcareful))
      hstart.intact hcareful
  · intro irq
    refine run_invariant
      (fun current => current.system.irqs.Available irq → state.system.irqs.Available irq) ?_ id hrun
    rintro current event next hback hstep havailable
    obtain rfl := Option.some.inj hstep
    exact hback (available_of_next havailable)

/-- A device whose table has been set up by `enable_msix` has no vector in use. -/
theorem enable_not_unmasked (table : MsixTable) (messageControl : UInt32) {vector : Nat}
    (hlt : vector < (table.enable messageControl).size) :
    ¬ ((table.enable messageControl).entry vector).Unmasked := by
  have hsize : vector < ((messageControl >>> 16) &&& 0x3FF).toNat + 1 := hlt
  simp only [MsixTable.enable, if_pos hsize, MsixEntry.Unmasked]
  decide

/-- Devices with two vectors each, and the interrupts with these numbers available. -/
def twoVectors (available : Nat → Bool) : MsixRun where
  system :=
    { irqs := ⟨fun irq => ⟨!available irq, 0, 0, 0, 0⟩⟩
      device := fun _ => MsixTable.enable ⟨0, fun _ => ⟨0, 0, 0, 0⟩, by decide⟩ 0x10000 }
  granted := fun _ _ => (0, 0)

theorem two_vectors_started (available : Nat → Bool) : (twoVectors available).Started := by
  rintro dev vector ⟨hlt, hunmasked⟩
  exact enable_not_unmasked _ _ hlt hunmasked

/-- Two devices request a vector each. -/
theorem msix_vectors_backed_two_devices :
    Always step Intact (twoVectors fun _ => true)
      [.request 0 0x1000 0x2000 0x3000 0, .request 1 0x1100 0x2000 0x3100 0] := by
  refine ((msix_vectors_backed_iff (two_vectors_started _) rfl).1.mpr ?_).1
  refine ⟨Or.inr (Or.inr ⟨33, by decide +kernel⟩), fun next hstep => ?_⟩
  obtain rfl := Option.some.inj hstep
  exact ⟨Or.inr (Or.inr ⟨33, by decide +kernel⟩), fun _ _ => trivial⟩

/-- The interrupt of a vector that is freed stays allocated. When the last interrupt is taken, the next
request succeeds all the same, and its vector has the interrupt and the handler of another one. -/
theorem msix_interrupt_is_lost :
    (∃ final, run step (twoVectors fun _ => true)
        [.request 0 0x1000 0x2000 0x3000 0, .free 0 0] = some final ∧
      ¬ final.system.irqs.Available 32) ∧
    ∃ final, run step (twoVectors fun irq => irq == 255)
        [.request 0 0x1000 0x2000 0x3000 0, .request 1 0x1100 0x2000 0x3100 0] = some final ∧
      final.system.InUse 1 0 ∧ final.system.irq 1 0 = final.system.irq 0 0 ∧
      final.granted 1 0 = (0x1100, 0x3100) ∧
      (final.system.irqs.entry (final.system.irq 1 0)).handler = 0x1000 := by
  refine ⟨⟨_, rfl, ?_⟩, ⟨_, rfl, ?_⟩⟩
  · decide +kernel
  · unfold MsixSystem.InUse MsixEntry.Unmasked
    decide +kernel

end MsixRun

end Otrix.Dev
