import Otrix.Dev.VirtioNet.Receive
import Mathlib.Algebra.BigOperators.Group.List.Basic
import Mathlib.Tactic.Abel

/-!
# The books of the receive buffers

Every receive buffer is posted or in somebody's hands, and `num_rx_buffers_` is the number of
posted buffers up to the posts that are not counted yet. `Books` states this balance for a queue
and what is in hands, and has one lemma for each movement of a buffer that loses none.
-/

namespace Otrix.Dev

open Otrix.Net

variable {sys after : System} {ids : Nat → Nat} {chain : List Nat}

/-! ## The posted buffers of a queue -/

/-- The positions of the submissions that were not reported to the handler. -/
def System.unreported (sys : System) : List Nat :=
  sys.since sys.handled

/-- The address of a submission. -/
def System.address (sys : System) (position : Nat) : Nat :=
  (sys.submitted[position]?.map Buffer.addr).getD 0

/-- The addresses of the buffers that are posted on the queue. -/
def System.posted (sys : System) : Multiset Nat :=
  (sys.unreported.map sys.address : List Nat)

/-- No more buffers are posted than the queue has descriptors. -/
theorem Coherent.card_posted_le (h : Coherent ids chain sys) :
    Multiset.card sys.posted ≤ sys.vq.size := by
  have hroom := h.room
  have hle : sys.freed ≤ sys.handled := by
    unfold System.handled
    split <;> omega
  simp only [System.posted, Multiset.coe_card, List.length_map, System.unreported, System.since,
    List.length_append, List.length_drop, List.length_range']
  omega

theorem Coherent.posted_send (h : Coherent ids chain sys) (buffer : Buffer) :
    (sys.send buffer).posted = if (virtqSendBuffer sys.vq buffer).1 = .ok
      then {buffer.addr} + sys.posted else sys.posted := by
  unfold System.send
  split
  · next vq hok =>
    have haddress : sys.unreported.map ({ sys with
        vq := vq, submitted := sys.submitted ++ [buffer] } : System).address =
        sys.unreported.map sys.address := by
      refine List.map_congr_left fun position hposition => ?_
      have hlt := h.toTransit.since_lt hposition
      rw [System.address, System.address, List.getElem?_append_left hlt]
    have hunreported : ({ sys with
        vq := vq, submitted := sys.submitted ++ [buffer] } : System).unreported =
        sys.unreported ++ [sys.submitted.length] :=
      System.since_submit h.available.reads_le vq buffer sys.handled
    rw [hok, if_pos rfl, System.posted, hunreported, List.map_append, haddress,
      ← Multiset.coe_add, add_comm]
    congr 1
    simp [System.address]
  · next hne heq =>
    rw [heq, if_neg hne]
    rfl

/-- Reading and completing a descriptor, the flags, and returning a descriptor to the chain leave
the posted buffers alone. -/
theorem Coherent.posted_step {event : SystemEvent} (h : Coherent ids chain sys)
    (hsend : ∀ buffer, event ≠ .send buffer) (hirq : event ≠ .irqNext)
    (hstep : sys.step event = some after) :
    after.posted = sys.posted ∧ after.submitted = sys.submitted ∧
      after.vq.irqHandler = sys.vq.irqHandler := by
  cases event with
  | send buffer => exact absurd rfl (hsend buffer)
  | irqNext => exact absurd rfl hirq
  | consume =>
    have hroom := h.room
    have hsize := h.descriptors.size_le
    obtain ⟨hlt, rfl⟩ := h.toTransit.consume_cases h.descriptors.size_dvd (by omega) hstep
    refine ⟨?_, rfl, rfl⟩
    rw [System.posted, System.unreported, System.since_consume hlt]
    rfl
  | complete position len =>
    obtain ⟨hmem, rfl⟩ := h.toTransit.complete_cases hstep
    refine ⟨?_, rfl, rfl⟩
    exact Multiset.coe_eq_coe.mpr
      ((System.since_complete hmem h.toTransit.handled_le _ len).map sys.address)
  | setUsedFlags flags =>
    obtain rfl := Option.some.inj hstep
    exact ⟨rfl, rfl, rfl⟩
  | irqFree =>
    obtain ⟨descId, hhandling, hafter⟩ := Option.bind_eq_some_iff.mp hstep
    obtain rfl := Option.some.inj hafter
    have hhandled : (sys.leave descId).handled = sys.handled := by
      show sys.freed + 1 = sys.handled
      simp [System.handled, hhandling]
    refine ⟨?_, rfl, rfl⟩
    rw [System.posted, System.unreported, hhandled]
    rfl

/-- A report takes a buffer off, whose submission was accepted. -/
theorem Coherent.posted_enter {descId : Nat} {call : Option IrqCall} (h : Coherent ids chain sys)
    (hhandler : sys.vq.irqHandler ≠ 0) (hidle : sys.handling = none)
    (hnext : handleVqIrqNext sys.vq = some (descId, call)) :
    ∃ report, call = some report ∧
      (∃ buffer ∈ sys.submitted, report.data = buffer.addr ∧ report.len = buffer.size) ∧
      sys.posted = {report.data} + (sys.enter descId call).posted := by
  rw [h.next_eq] at hnext
  obtain ⟨done, hdone, heq⟩ := Option.map_eq_some_iff.mp hnext
  obtain ⟨rfl, rfl⟩ := Prod.mk.inj heq
  have hlt := h.toTransit.completed_lt (List.mem_of_getElem? hdone)
  have hbuffer := List.getElem?_eq_getElem hlt
  rw [if_pos hhandler, hbuffer]
  refine ⟨_, rfl, ⟨_, List.getElem_mem hlt, rfl, rfl⟩, ?_⟩
  have hhandled : sys.handled = sys.freed := by simp [System.handled, hidle]
  have hsplit : sys.unreported = done.1 :: sys.since (sys.freed + 1) := by
    rw [System.unreported, hhandled]
    exact System.since_succ hdone
  have haddress : sys.address done.1 = (sys.submitted[done.1]).addr := by
    rw [System.address, hbuffer]
    rfl
  rw [System.posted, hsplit, List.map_cons, haddress, ← Multiset.cons_coe,
    ← Multiset.singleton_add]
  rfl

/-! ## The balance -/

/-- The queue takes the post. -/
def System.Accepts (sys : System) (buf size : Nat) : Prop :=
  (virtqSendBuffer sys.vq (RxSystem.rxBuffer buf size)).1 = .ok
  deriving Decidable

/-- The allocated buffers are posted or in hands, each of them once. The counter is the number of
posted buffers, up to the posts that are not counted. -/
structure Books (queue : System) (hands : Multiset (Nat × Nat)) (uncounted num : Nat)
    (buffers : List Nat) : Prop where
  coherent : ∃ ids chain, Coherent ids chain queue
  handler : queue.vq.irqHandler ≠ 0
  accepted : ∀ buffer ∈ queue.submitted, buffer.addr ≠ 0 ∧ buffer.size % 2 ^ 32 ≠ 0
  held : ∀ hand ∈ hands, hand.1 ≠ 0 ∧ hand.2 % 2 ^ 32 ≠ 0
  nodup : buffers.Nodup
  places : (buffers : Multiset Nat) = queue.posted + hands.map Prod.fst
  counter : (num + uncounted) % 2 ^ 64 = Multiset.card queue.posted % 2 ^ 64
  num_lt : num < 2 ^ 64

namespace Books

variable {queue : System} {hands : Multiset (Nat × Nat)} {uncounted num buf size : Nat}
  {buffers : List Nat}

/-- The device and the interrupt do not change the balance. -/
theorem step {event : SystemEvent} (h : Books queue hands uncounted num buffers)
    (hsend : ∀ buffer, event ≠ .send buffer) (hirq : event ≠ .irqNext)
    (hstep : queue.step event = some after) : Books after hands uncounted num buffers := by
  obtain ⟨ids, chain, hcoherent⟩ := h.coherent
  obtain ⟨hposted, hsubmitted, hhandler⟩ := hcoherent.posted_step hsend hirq hstep
  refine ⟨hcoherent.step hstep, ?_, ?_, h.held, h.nodup, ?_, ?_, h.num_lt⟩
  · rw [hhandler]
    exact h.handler
  · rw [hsubmitted]
    exact h.accepted
  · rw [hposted]
    exact h.places
  · rw [hposted]
    exact h.counter

/-- A buffer in hands is posted, and the queue takes it. -/
theorem post (h : Books queue ({(buf, size)} + hands) uncounted num buffers)
    (haccepts : queue.Accepts buf size) :
    Books (queue.send (RxSystem.rxBuffer buf size)) hands (uncounted + 1) num buffers := by
  obtain ⟨ids, chain, hcoherent⟩ := h.coherent
  have hposted := hcoherent.posted_send (RxSystem.rxBuffer buf size)
  have hsubmitted := queue.send_submitted (RxSystem.rxBuffer buf size)
  have hok : (virtqSendBuffer queue.vq (RxSystem.rxBuffer buf size)).1 = .ok := haccepts
  rw [if_pos hok] at hposted hsubmitted
  obtain ⟨hbuf, hsize⟩ := h.held (buf, size) (by simp)
  have hplaces := h.places
  have hcounter := h.counter
  rw [Multiset.map_add, Multiset.map_singleton] at hplaces
  refine ⟨hcoherent.send _, ?_, ?_, fun hand hmem => h.held hand (Multiset.mem_add.mpr (.inr hmem)),
    h.nodup, ?_, ?_, h.num_lt⟩
  · rw [queue.send_irq_handler]
    exact h.handler
  · intro buffer hmem
    rw [hsubmitted, List.mem_append, List.mem_singleton] at hmem
    rcases hmem with hold | rfl
    · exact h.accepted buffer hold
    · exact ⟨hbuf, (Nat.mod_mod size (2 ^ 32)).symm ▸ hsize⟩
  · rw [hposted, hplaces]
    show queue.posted + ({buf} + hands.map Prod.fst) = {buf} + queue.posted + _
    abel
  · rw [hposted, Multiset.card_add, Multiset.card_singleton]
    omega

theorem alloc (h : Books queue hands uncounted num buffers) (hbuf : buf ≠ 0)
    (hfresh : buf ∉ buffers) (hsize : size % 2 ^ 32 ≠ 0) :
    Books queue ({(buf, size)} + hands) uncounted num (buf :: buffers) := by
  refine ⟨h.coherent, h.handler, h.accepted, ?_, List.nodup_cons.mpr ⟨hfresh, h.nodup⟩, ?_,
    h.counter, h.num_lt⟩
  · intro hand hmem
    rcases Multiset.mem_add.mp hmem with hnew | hold
    · obtain rfl := Multiset.mem_singleton.mp hnew
      exact ⟨hbuf, hsize⟩
    · exact h.held hand hold
  · rw [← Multiset.cons_coe, h.places, ← Multiset.singleton_add, Multiset.map_add,
      Multiset.map_singleton]
    abel

/-- A buffer that the queue takes is not null. -/
theorem alloc_post (h : Books queue hands uncounted num buffers)
    (hfresh : buf = 0 ∨ buf ∉ buffers) (haccepts : queue.Accepts buf rxBufferSize) :
    Books (queue.send (RxSystem.rxBuffer buf rxBufferSize)) hands (uncounted + 1) num
      (if buf = 0 then buffers else buf :: buffers) := by
  have hnull : buf ≠ 0 := by
    rintro rfl
    unfold System.Accepts virtqSendBuffer at haccepts
    rw [if_pos (.inl rfl)] at haccepts
    cases haccepts
  rw [if_neg hnull]
  exact (h.alloc hnull (hfresh.resolve_left hnull) (by decide)).post haccepts

theorem count (h : Books queue hands (uncounted + 1) num buffers) :
    Books queue hands uncounted (u64 (num + 1)) buffers := by
  have hcounter := h.counter
  refine ⟨h.coherent, h.handler, h.accepted, h.held, h.nodup, h.places, ?_, u64_lt _⟩
  unfold u64
  omega

theorem free (h : Books queue ({(buf, size)} + hands) uncounted num buffers) :
    Books queue hands uncounted num (buffers.erase buf) := by
  have hplaces := h.places
  rw [Multiset.map_add, Multiset.map_singleton] at hplaces
  refine ⟨h.coherent, h.handler, h.accepted, fun hand hmem =>
    h.held hand (Multiset.mem_add.mpr (.inr hmem)), h.nodup.erase buf, ?_, h.counter, h.num_lt⟩
  have hfront : (buffers : Multiset Nat) = buf ::ₘ (queue.posted + hands.map Prod.fst) := by
    rw [hplaces, ← Multiset.singleton_add]
    abel
  rw [← Multiset.coe_erase, hfront, Multiset.erase_cons_head]

/-- The interrupt reports a buffer: it is in the hands of the handler, which counts it. -/
theorem report {descId : Nat} {call : Option IrqCall} (h : Books queue hands uncounted num buffers)
    (hidle : queue.handling = none) (hnext : handleVqIrqNext queue.vq = some (descId, call)) :
    ∃ report, call = some report ∧ Books (queue.enter descId call)
      ({(report.data, report.len)} + hands) uncounted (sub64 num 1) buffers := by
  obtain ⟨ids, chain, hcoherent⟩ := h.coherent
  obtain ⟨report, hcall, ⟨buffer, hmem, hdata, hlen⟩, hposted⟩ :=
    hcoherent.posted_enter h.handler hidle hnext
  have hplaces := h.places
  have hcounter := h.counter
  have hlt := h.num_lt
  rw [hposted] at hplaces hcounter
  refine ⟨report, hcall, ⟨_, _, hcoherent.enter hidle hnext⟩, h.handler, h.accepted, ?_, h.nodup, ?_,
    ?_, sub64_lt _ _⟩
  · intro hand hhand
    rcases Multiset.mem_add.mp hhand with hnew | hold
    · obtain rfl := Multiset.mem_singleton.mp hnew
      rw [hdata, hlen]
      exact h.accepted buffer hmem
    · exact h.held hand hold
  · rw [hplaces, Multiset.map_add, Multiset.map_singleton]
    abel
  · rw [Multiset.card_add, Multiset.card_singleton] at hcounter
    unfold sub64 u64
    omega

end Books

end Otrix.Dev
