import Otrix.Net.Transmit
import Otrix.Foundation.Run
import Mathlib.Data.List.Nodup

/-!
# The ARP cache

`net/arp.cpp` over the memory that holds the received packets. `process_packet` answers a request
for the own address and then stores the sender in the first slot that is empty, or in slot `0` if
none is. It does not look whether the sender is in the table already.

`ArpSystem` remembers every sender that was stored, which `Fresh` compares with the table. A
sender that has a slot and does not happen to be the one in slot `0` of a full table gets a second
slot, and `get_mac` keeps finding the one in front.
-/

namespace Otrix.Net

open Bytes Machine

deriving instance DecidableEq for Mac

/-- `sizeof(arp_header_ipv4)`. -/
def arpHdrBytes : Nat := 28

/-- `ARP_REQUEST`. -/
def arpRequest : Nat := 1

/-- `ARP_REPLY`. -/
def arpReply : Nat := 2

/-- `TABLE_SIZE`. -/
def arpTableSize : Nat := 4

/-- The fields of an `arp_header_ipv4` that `process_packet` reads, as they are in memory. -/
structure ArpHeader where
  operation : Nat
  senderMac : Mac
  senderIp : Nat
  targetIp : Nat

/-- The `arp_header_ipv4` at an address. -/
def loadArpHeader (memory : Mem) (hdr : Nat) : ArpHeader where
  operation := memory.load (hdr + 6) 2
  senderMac := ⟨memory.read (hdr + 8) 6, Mem.length_read memory (hdr + 8) 6⟩
  senderIp := memory.load (hdr + 14) 4
  targetIp := memory.load (hdr + 24) 4

/-- The bytes of the header that `send` fills in. -/
def arpBytes (op : Nat) (senderMac : Mac) (addr : Nat) (targetMac : Mac) (targetIp : Nat) :
    List UInt8 :=
  Mem.fieldBytes [(2, bswap16 1), (2, bswap16 Ethertype.ipv4.value), (1, 6), (1, 4), (2, bswap16 op)] ++
    senderMac.bytes ++ Mem.leBytes (bswap32 addr) 4 ++ targetMac.bytes ++
    Mem.leBytes (bswap32 targetIp) 4

/-- A slot of `table_`. An empty one has address `0`. -/
structure ArpEntry where
  first : Nat
  second : Mac
  deriving DecidableEq

/-- `arp`. -/
structure Arp where
  table : List ArpEntry
  length_eq : table.length = arpTableSize
  ipAddr : Nat

/-- The hardware address in the first entry for an address. -/
def lookup (entries : List ArpEntry) (addr : Nat) : Option Mac :=
  (entries.find? fun entry => entry.first = addr).map ArpEntry.second

namespace Arp

/-- The constructor. The slots are value-initialised. -/
def initial (ipAddr : Nat) : Arp where
  table := List.replicate arpTableSize ⟨0, ⟨List.replicate 6 0, rfl⟩⟩
  length_eq := List.length_replicate
  ipAddr := ipAddr

/-- `get_mac`. -/
def getMac (arp : Arp) (addr : Nat) : Option Mac :=
  lookup arp.table addr

/-- `send`, when the packet is allocated at `start`: what the link hands to its queue. -/
def send (net : VirtioNet) (memory : Mem) (start op addr : Nat) (targetMac : Mac) (targetIp : Nat) :
    Mem × Sockbuf :=
  let payload := arpBytes op net.addr addr targetMac targetIp
  let packet := Sockbuf.allocated start virtioNetHeadersSize payload.length
  virtioNetWrite net (memory.write packet.payload payload) packet targetMac .arp

/-- `send_reply`. -/
def sendReply (net : VirtioNet) (memory : Mem) (start addr : Nat) (targetMac : Mac) (targetIp : Nat) :
    Mem × Sockbuf :=
  send net memory start arpReply addr targetMac targetIp

/-- The loop of `process_packet` that fills the first empty slot, and `none` when there is none. -/
def fillEmpty (entry : ArpEntry) : List ArpEntry → Option (List ArpEntry)
  | [] => none
  | slot :: slots =>
    if slot.first = 0 then some (entry :: slots) else (fillEmpty entry slots).map (slot :: ·)

/-- The table after an entry was stored. -/
def store (table : List ArpEntry) (entry : ArpEntry) : List ArpEntry :=
  match fillEmpty entry table with
  | some filled => filled
  | none => table.set 0 entry

/-- The slot that `store` overwrites: the first empty one, or slot `0` of a full table. -/
theorem store_cases {table : List ArpEntry} (hne : table ≠ []) (entry : ArpEntry) :
    ∃ before slot after, table = before ++ slot :: after ∧
      store table entry = before ++ entry :: after ∧
      (slot.first = 0 ∨ before = [] ∧ ∀ slot ∈ table, slot.first ≠ 0) := by
  have hfill : (fillEmpty entry table = none ∧ ∀ slot ∈ table, slot.first ≠ 0) ∨
      ∃ before slot after, table = before ++ slot :: after ∧ slot.first = 0 ∧
        fillEmpty entry table = some (before ++ entry :: after) := by
    clear hne
    induction table with
    | nil => exact Or.inl ⟨rfl, fun _ h => absurd h List.not_mem_nil⟩
    | cons slot slots ih =>
      by_cases hempty : slot.first = 0
      · exact Or.inr ⟨[], slot, slots, rfl, hempty, by simp [fillEmpty, hempty]⟩
      · rcases ih with ⟨hnone, hall⟩ | ⟨before, found, after, rfl, hfound, hsome⟩
        · exact Or.inl ⟨by simp [fillEmpty, hempty, hnone],
            List.forall_mem_cons.mpr ⟨hempty, hall⟩⟩
        · exact Or.inr ⟨slot :: before, found, after, rfl, hfound,
            by simp [fillEmpty, hempty, hsome]⟩
  rcases hfill with ⟨hnone, hall⟩ | ⟨before, slot, after, rfl, hslot, hsome⟩
  · obtain ⟨slot, slots, rfl⟩ := List.exists_cons_of_ne_nil hne
    exact ⟨[], slot, slots, rfl, by simp [store, hnone], Or.inr ⟨rfl, hall⟩⟩
  · exact ⟨before, slot, after, rfl, by simp [store, hsome], Or.inl hslot⟩

theorem table_ne_nil (arp : Arp) : arp.table ≠ [] := by
  intro hnil
  have hlength := arp.length_eq
  rw [hnil] at hlength
  cases hlength

theorem length_store (arp : Arp) (entry : ArpEntry) :
    (store arp.table entry).length = arpTableSize := by
  obtain ⟨before, slot, after, htable, hstore, _⟩ := store_cases arp.table_ne_nil entry
  rw [hstore, ← arp.length_eq, htable]
  simp

/-- `process_packet`, with the reply that it sends. -/
def processPacket (arp : Arp) (net : VirtioNet) (memory : Mem) (data : Sockbuf) (start : Nat) :
    Arp × Option (Mem × Sockbuf) :=
  if data.payloadSize < arpHdrBytes then (arp, none)
  else
    let header := loadArpHeader memory data.payload
    let reply :=
      if header.operation = bswap16 arpRequest ∧ bswap32 header.targetIp = arp.ipAddr then
        some (sendReply net memory start arp.ipAddr header.senderMac header.senderIp)
      else none
    ({ arp with
        table := store arp.table ⟨bswap32 header.senderIp, header.senderMac⟩
        length_eq := arp.length_store _ }, reply)

end Arp

/-- A call of `process_packet`: the memory and the buffer at the call, and the address at which a
reply would be allocated. -/
structure ArpPacket where
  memory : Mem
  data : Sockbuf
  start : Nat

/-- The sender of a packet. A packet that is too short has none. -/
def ArpPacket.sender (packet : ArpPacket) : Option ArpEntry :=
  if packet.data.payloadSize < arpHdrBytes then none
  else
    let header := loadArpHeader packet.memory packet.data.payload
    some ⟨bswap32 header.senderIp, header.senderMac⟩

/-- The cache, and the senders of the packets so far, the last one first. -/
structure ArpSystem where
  arp : Arp
  heard : List ArpEntry

namespace ArpSystem

/-- One packet. -/
def step (net : VirtioNet) (system : ArpSystem) (packet : ArpPacket) : Option ArpSystem :=
  some
    { arp := (system.arp.processPacket net packet.memory packet.data packet.start).1
      heard := packet.sender.toList ++ system.heard }

/-- The cache before the first packet. -/
def initial (ipAddr : Nat) : ArpSystem :=
  ⟨Arp.initial ipAddr, []⟩

/-- The hardware address in the last packet of a sender. -/
def lastMac (system : ArpSystem) (addr : Nat) : Option Mac :=
  lookup system.heard addr

/-- The addresses in the table. -/
def addresses (table : List ArpEntry) : List Nat :=
  (table.filter fun entry => entry.first ≠ 0).map ArpEntry.first

/-- The cache is fresh. -/
structure Fresh (system : ArpSystem) : Prop where
  /-- An address is not found, or found with the hardware address of its last packet. -/
  current : ∀ addr mac, addr ≠ 0 → system.arp.getMac addr = some mac →
    system.lastMac addr = some mac
  /-- The sender of the last packet is found. -/
  stored : ∀ entry ∈ system.heard.head?, system.arp.getMac entry.first = some entry.second
  /-- No address has two entries. -/
  distinct : (addresses system.arp.table).Nodup

/-- Senders have addresses. -/
def Addressed (_system : ArpSystem) (packet : ArpPacket) : Prop :=
  ∀ entry ∈ packet.sender, entry.first ≠ 0

/-- The sender is not in the table, or the table is full and the sender is in slot `0`. -/
def Unlisted (system : ArpSystem) (packet : ArpPacket) : Prop :=
  ∀ entry ∈ packet.sender, entry.first ∉ system.arp.table.map ArpEntry.first ∨
    (0 ∉ system.arp.table.map ArpEntry.first ∧
      (system.arp.table.map ArpEntry.first).head? = some entry.first)

instance (system : ArpSystem) (packet : ArpPacket) : Decidable (system.Addressed packet) :=
  inferInstanceAs (Decidable (∀ entry ∈ packet.sender, entry.first ≠ 0))

instance (system : ArpSystem) (packet : ArpPacket) : Decidable (system.Unlisted packet) :=
  inferInstanceAs (Decidable (∀ entry ∈ packet.sender, _ ∨ _))

section

variable {table : List ArpEntry} {entry : ArpEntry} {addr : Nat}

theorem mem_addresses : addr ∈ addresses table ↔ addr ∈ table.map ArpEntry.first ∧ addr ≠ 0 := by
  simp only [addresses, List.mem_map, List.mem_filter, decide_eq_true_eq]
  constructor
  · rintro ⟨entry, ⟨hentry, hne⟩, rfl⟩
    exact ⟨⟨entry, hentry, rfl⟩, hne⟩
  · rintro ⟨⟨entry, hentry, rfl⟩, hne⟩
    exact ⟨entry, ⟨hentry, hne⟩, rfl⟩

theorem addresses_middle (before : List ArpEntry) (slot : ArpEntry) (after : List ArpEntry) :
    addresses (before ++ slot :: after) =
      if slot.first = 0 then addresses before ++ addresses after
      else addresses before ++ slot.first :: addresses after := by
  by_cases hslot : slot.first = 0 <;> simp [addresses, hslot]

/-- Where no address has two entries, every entry is found. -/
theorem lookup_of_mem (hdistinct : (addresses table).Nodup) (hentry : entry ∈ table)
    (hne : entry.first ≠ 0) : lookup table entry.first = some entry.second := by
  obtain ⟨found, hfound⟩ : ∃ found, table.find? (fun slot => slot.first = entry.first) = some found :=
    Option.isSome_iff_exists.mp (List.find?_isSome.mpr ⟨entry, hentry, decide_eq_true rfl⟩)
  have hfirst : found.first = entry.first := by simpa using List.find?_some hfound
  have hmem : found ∈ table.filter fun slot => slot.first ≠ 0 :=
    List.mem_filter.mpr ⟨List.mem_of_find?_eq_some hfound, decide_eq_true (hfirst ▸ hne)⟩
  have hin : entry ∈ table.filter fun slot => slot.first ≠ 0 :=
    List.mem_filter.mpr ⟨hentry, decide_eq_true hne⟩
  rw [lookup, hfound, List.inj_on_of_nodup_map hdistinct hmem hin hfirst]
  rfl

theorem exists_of_lookup {mac : Mac} (h : lookup table addr = some mac) :
    ∃ entry ∈ table, entry.first = addr ∧ entry.second = mac := by
  obtain ⟨entry, hfind, rfl⟩ := Option.map_eq_some_iff.mp h
  exact ⟨entry, List.mem_of_find?_eq_some hfind, by simpa using List.find?_some hfind, rfl⟩

theorem lookup_cons (entry : ArpEntry) (entries : List ArpEntry) (addr : Nat) :
    lookup (entry :: entries) addr =
      if entry.first = addr then some entry.second else lookup entries addr := by
  by_cases h : entry.first = addr <;> simp [lookup, h]

/-- When a stored address does not get a second entry. -/
theorem nodup_store_iff (htable : table ≠ []) (hdistinct : (addresses table).Nodup)
    (hne : entry.first ≠ 0) :
    (addresses (Arp.store table entry)).Nodup ↔ entry.first ∉ table.map ArpEntry.first ∨
      (0 ∉ table.map ArpEntry.first ∧ (table.map ArpEntry.first).head? = some entry.first) := by
  obtain ⟨before, slot, after, rfl, hstore, hslot⟩ := Arp.store_cases htable entry
  rw [hstore, addresses_middle, if_neg hne, List.nodup_middle, List.nodup_cons]
  rcases hslot with hempty | ⟨rfl, hfull⟩
  · -- an empty slot was filled: the other slots are all there was
    have hzero : 0 ∈ (before ++ slot :: after).map ArpEntry.first :=
      hempty ▸ List.mem_map_of_mem (List.mem_append_right _ List.mem_cons_self)
    rw [addresses_middle, if_pos hempty] at hdistinct
    rw [and_iff_left hdistinct, or_iff_left fun h => h.1 hzero, not_iff_not, List.mem_append,
      mem_addresses, mem_addresses, and_iff_left hne, and_iff_left hne, List.map_append,
      List.mem_append, List.map_cons, List.mem_cons, hempty, or_iff_right hne]
  · -- slot `0` was overwritten
    have hslot : slot.first ≠ 0 := hfull slot List.mem_cons_self
    have hzero : 0 ∉ (slot :: after).map ArpEntry.first := by
      intro hmem
      obtain ⟨other, hother, heq⟩ := List.mem_map.mp hmem
      exact hfull other hother heq
    rw [addresses_middle, if_neg hslot] at hdistinct
    obtain ⟨hnotin, hrest⟩ := List.nodup_cons.mp hdistinct
    have hafter : entry.first ∈ addresses after ↔ entry.first ∈ after.map ArpEntry.first :=
      mem_addresses.trans (and_iff_left hne)
    show entry.first ∉ addresses after ∧ (addresses after).Nodup ↔
      entry.first ∉ slot.first :: after.map ArpEntry.first ∨
        0 ∉ (slot :: after).map ArpEntry.first ∧ some slot.first = some entry.first
    rw [and_iff_left hrest, and_iff_right hzero, List.mem_cons, hafter, Option.some.injEq]
    by_cases heq : slot.first = entry.first
    · rw [heq, hafter] at hnotin
      exact iff_of_true hnotin (Or.inr heq)
    · rw [or_iff_left heq, or_iff_right (Ne.symm heq)]

end

/-- The invariant of the cache while the condition is met. -/
structure Sound (system : ArpSystem) : Prop where
  current : ∀ entry ∈ system.arp.table, entry.first ≠ 0 →
    system.lastMac entry.first = some entry.second
  stored : ∀ entry ∈ system.heard.head?, system.arp.getMac entry.first = some entry.second
  distinct : (addresses system.arp.table).Nodup

theorem Sound.fresh {system : ArpSystem} (h : system.Sound) : system.Fresh := by
  refine ⟨fun addr mac hne hmac => ?_, h.stored, h.distinct⟩
  obtain ⟨entry, hentry, rfl, rfl⟩ := exists_of_lookup hmac
  exact h.current entry hentry hne

theorem sound_initial (ipAddr : Nat) : (initial ipAddr).Sound := by
  refine ⟨fun entry hentry hne => ?_, fun entry hentry => ?_, ?_⟩
  · exact absurd (congrArg ArpEntry.first (List.eq_of_mem_replicate hentry)) hne
  · cases hentry
  · simp [initial, Arp.initial, addresses]

/-- What a packet does: it is too short and ignored, or its sender is stored. -/
theorem step_cases (net : VirtioNet) (system : ArpSystem) (packet : ArpPacket) :
    (packet.sender = none ∧ step net system packet = some system) ∨
      ∃ entry next, packet.sender = some entry ∧ step net system packet = some next ∧
        next.arp.table = Arp.store system.arp.table entry ∧ next.heard = entry :: system.heard := by
  by_cases hshort : packet.data.payloadSize < arpHdrBytes
  · refine Or.inl ⟨if_pos hshort, ?_⟩
    simp [step, Arp.processPacket, ArpPacket.sender, hshort]
  · refine Or.inr ⟨_, _, if_neg hshort, rfl, ?_, ?_⟩
    · simp [Arp.processPacket, hshort]
    · simp [ArpPacket.sender, hshort]

section

variable {net : VirtioNet} {system next : ArpSystem} {packet : ArpPacket}

theorem Sound.step (h : system.Sound) (haddressed : system.Addressed packet)
    (hunlisted : system.Unlisted packet) (hstep : step net system packet = some next) :
    next.Sound := by
  rcases step_cases net system packet with ⟨_, hsame⟩ | ⟨entry, after, hsender, hafter, htable, hheard⟩
  · exact Option.some.inj (hsame.symm.trans hstep) ▸ h
  · obtain rfl := Option.some.inj (hafter.symm.trans hstep)
    have hne := haddressed entry hsender
    have hdistinct : (addresses after.arp.table).Nodup := by
      rw [htable, nodup_store_iff system.arp.table_ne_nil h.distinct hne]
      exact hunlisted entry hsender
    obtain ⟨before, slot, behind, hold, hstore, _⟩ :=
      Arp.store_cases system.arp.table_ne_nil entry
    rw [← htable] at hstore
    have hentry : entry ∈ after.arp.table := by
      rw [hstore]
      exact List.mem_append_right _ List.mem_cons_self
    refine ⟨fun other hother hnonzero => ?_, fun last hlast => ?_, hdistinct⟩
    · rw [lastMac, hheard, lookup_cons]
      by_cases heq : entry.first = other.first
      · rw [if_pos heq, ← lookup_of_mem hdistinct hother hnonzero, ← heq,
          lookup_of_mem hdistinct hentry hne]
      · rw [if_neg heq]
        refine h.current other ?_ hnonzero
        -- every other slot is as it was
        rw [hstore] at hother
        rw [hold]
        rcases List.mem_append.mp hother with hbefore | hbehind
        · exact List.mem_append_left _ hbefore
        · rcases List.mem_cons.mp hbehind with rfl | hbehind
          · exact absurd rfl heq
          · exact List.mem_append_right _ (List.mem_cons_of_mem _ hbehind)
    · rw [hheard, List.head?_cons, Option.mem_some_iff] at hlast
      exact hlast ▸ lookup_of_mem hdistinct hentry hne

/-- A packet of a sender that is listed gives the sender a second entry. -/
theorem not_fresh_of_listed (h : system.Sound) (haddressed : system.Addressed packet)
    (hlisted : ¬ system.Unlisted packet) (hstep : step net system packet = some next) :
    ¬ next.Fresh := by
  rcases step_cases net system packet with ⟨hnone, _⟩ | ⟨entry, after, hsender, hafter, htable, _⟩
  · refine absurd (fun entry hentry => ?_) hlisted
    rw [hnone] at hentry
    cases hentry
  · obtain rfl := Option.some.inj (hafter.symm.trans hstep)
    intro hfresh
    have hdistinct := hfresh.distinct
    rw [htable, nodup_store_iff system.arp.table_ne_nil h.distinct (haddressed entry hsender)]
      at hdistinct
    refine hlisted fun other hother => ?_
    obtain rfl := Option.some.inj (hsender.symm.trans hother)
    exact hdistinct

end

/-- The cache is fresh after every packet exactly when no packet comes from a sender that has an
entry, other than the one in slot `0` of a full table. The address `0` stands for an empty slot and
is found as long as there is one. -/
theorem arp_cache_fresh_iff (net : VirtioNet) (ipAddr : Nat) (packets : List ArpPacket)
    (haddressed : Meets (step net) Addressed (initial ipAddr) packets) :
    (Always (step net) Fresh (initial ipAddr) packets ↔
      Meets (step net) Unlisted (initial ipAddr) packets) ∧
    ∀ arp : Arp, arp.getMac 0 = none ↔ ∀ slot ∈ arp.table, slot.first ≠ 0 := by
  obtain ⟨final, hrun, _⟩ := run_eq_some_of_meets (fun _ => True)
    (fun _ _ _ _ => ⟨_, rfl, trivial⟩) trivial haddressed
  refine ⟨always_iff_meets_of_allowed Sound (fun system h => h.fresh)
    (fun system packet next h hallowed hunlisted hstep => h.step hallowed hunlisted hstep)
    (fun system packet next h hallowed hlisted hstep => not_fresh_of_listed h hallowed hlisted hstep)
    (sound_initial ipAddr) haddressed hrun, fun arp => ?_⟩
  simp [Arp.getMac, lookup]

/-- A host announces itself, in a buffer at address `4096`. -/
def announced (mac : Mac) (addr : Nat) : ArpPacket where
  memory := (⟨fun _ => 0⟩ : Mem).write 4096 (arpBytes arpReply mac addr broadcastMac broadcast)
  data := Sockbuf.zeroCopy 4096 arpHdrBytes
  start := 8192

/-- A hardware address with this last byte. -/
def exampleMac (last : UInt8) : Mac :=
  ⟨[2, 0, 0, 0, 0, last], rfl⟩

/-- A link without handlers. -/
def exampleLink : VirtioNet :=
  ⟨exampleMac 1, []⟩

/-- Two hosts announce themselves, each once. -/
theorem arp_cache_fresh_two_hosts :
    Always (step exampleLink) Fresh (initial 0x0a000001)
      [announced (exampleMac 2) 0x0a000002, announced (exampleMac 3) 0x0a000003] :=
  (arp_cache_fresh_iff exampleLink 0x0a000001 _ (by decide +kernel)).1.mpr (by decide +kernel)

/-- The gateway announces itself again with another hardware address, and the first one is still
found. The address `0` is found in the empty table. -/
theorem arp_cache_keeps_first_mac :
    (run (step exampleLink) (initial 0x0a000001)
        [announced (exampleMac 2) 0x0a000002, announced (exampleMac 3) 0x0a000002]).map
        (fun system => (system.arp.getMac 0x0a000002, system.lastMac 0x0a000002)) =
      some (some (exampleMac 2), some (exampleMac 3)) ∧
    exampleMac 2 ≠ exampleMac 3 ∧
    (Arp.initial 0x0a000001).getMac 0 = some ⟨List.replicate 6 0, rfl⟩ := by
  decide +kernel

end ArpSystem

end Otrix.Net
