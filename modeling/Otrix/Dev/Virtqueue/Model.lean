import Otrix.Common.Word
import Mathlib.Logic.Function.Basic
import Mathlib.Data.List.Basic

/-!
# The virtqueue of `dev/virtio.cpp`

`virtqCreate`, `virtqSendBuffer` and the two halves of a turn of `handle_vq_irq`
over a record of the descriptor table and the two rings. The descriptor fields
and ring indices are `uint16_t` where the source has them so: the end `-1` of the
free chain is stored in a `next` field and comes back as `65535`.

The device is the other party. It consumes the available ring in order and
completes what it has consumed in any order. `System` puts both together with
the history of a run.
-/

namespace Otrix.Dev

/-- `virtio_descriptor`. -/
structure VirtioDescriptor where
  addr : Nat
  len : Nat
  flags : Nat
  next : Nat
  deriving DecidableEq

/-- `virtio_used_elem`. -/
structure VirtioUsedElem where
  id : Nat
  len : Nat
  deriving DecidableEq

/-- `VIRTQ_DESC_F_WRITE`. -/
def virtqDescFWrite : Nat := 2

/-- `VIRTQ_USED_F_NO_NOTIFY`. -/
def virtqUsedFNoNotify : Nat := 1

/-- `virtq`, with the memory that it points to. `availRingIdx`, `usedRingIdx` and `usedRingFlags`
are the fields of the two ring headers, and `notifications` counts the writes of `queue_notify`. -/
structure Virtq where
  size : Nat
  descTable : Nat → VirtioDescriptor
  availRingIdx : Nat
  availRing : Nat → Nat
  usedRingFlags : Nat
  usedRingIdx : Nat
  usedRing : Nat → VirtioUsedElem
  descCtx : Nat → Nat
  usedIdx : Nat
  numFreeDescriptors : Int
  freeList : Int
  irqHandler : Nat
  irqHandlerCtx : Nat
  notifications : Nat

/-- The loop of `virtq_create` that chains the descriptors, and the end of the chain. -/
def chainDescriptors (size : Nat) : Nat → VirtioDescriptor :=
  let table := (List.range (size - 1)).foldl
    (fun table i => Function.update table i { table i with next := i + 1 }) fun _ => ⟨0, 0, 0, 0⟩
  Function.update table (size - 1) { table (size - 1) with next := u16 (-1) }

/-- `virtq_create`, after the memory was allocated and cleared. -/
def virtqCreate (size irqHandler irqHandlerCtx : Nat) : Virtq where
  size := size
  descTable := chainDescriptors size
  availRingIdx := 0
  availRing := fun _ => 0
  usedRingFlags := 0
  usedRingIdx := 0
  usedRing := fun _ => ⟨0, 0⟩
  descCtx := fun _ => 0
  usedIdx := 0
  numFreeDescriptors := size
  freeList := 0
  irqHandler := irqHandler
  irqHandlerCtx := irqHandlerCtx
  notifications := 0

/-- The arguments of `virtq_send_buffer` behind the queue. -/
structure Buffer where
  addr : Nat
  size : Nat
  deviceWritable : Bool
  ctx : Nat
  deriving DecidableEq

/-- The flags that a descriptor gets. -/
def Buffer.flags (buffer : Buffer) : Nat :=
  if buffer.deviceWritable then virtqDescFWrite else 0

namespace Virtq

/-- The index of the element of the available ring that is written next. -/
def availIndex (vq : Virtq) : Nat :=
  vq.availRingIdx % vq.size

/-- The index of the element of the used ring that is read next. -/
def usedIndex (vq : Virtq) : Nat :=
  vq.usedIdx % vq.size

/-- The first region of `virtq_send_buffer`, with `idx` read from `free_list`. -/
def popFree (vq : Virtq) (idx : Nat) : Virtq :=
  { vq with freeList := (vq.descTable idx).next }

/-- The context of the descriptor. -/
def setContext (vq : Virtq) (idx : Nat) (buffer : Buffer) : Virtq :=
  { vq with descCtx := Function.update vq.descCtx idx buffer.ctx }

/-- The store of `num_free_descriptors--`, where `count` is what was loaded. -/
def storeTaken (vq : Virtq) (count : Int) : Virtq :=
  { vq with numFreeDescriptors := count - 1 }

/-- The fields of the descriptor. -/
def fillDescriptor (vq : Virtq) (idx : Nat) (buffer : Buffer) : Virtq :=
  { vq with descTable := Function.update vq.descTable idx ⟨buffer.addr, buffer.size, buffer.flags, 0⟩ }

/-- The second region. -/
def publish (vq : Virtq) (idx : Nat) : Virtq :=
  { vq with
    availRing := Function.update vq.availRing vq.availIndex (u16 idx)
    availRingIdx := u16 (vq.availRingIdx + 1 : Nat) }

/-- The notification. -/
def notify (vq : Virtq) : Virtq :=
  { vq with
    notifications := if vq.usedRingFlags &&& virtqUsedFNoNotify = 0
      then vq.notifications + 1 else vq.notifications }

end Virtq

/-- `virtq_send_buffer` without a break, from the point where it takes the descriptor `idx` from the
free list. -/
def takeDescriptor (vq : Virtq) (idx : Nat) (buffer : Buffer) : Virtq :=
  let vq := (vq.popFree idx).setContext idx buffer
  let vq := vq.storeTaken vq.numFreeDescriptors
  ((vq.fillDescriptor idx buffer).publish idx).notify

/-- `virtq_send_buffer`. -/
def virtqSendBuffer (vq : Virtq) (buffer : Buffer) : Kerror × Virtq :=
  if buffer.addr = 0 ∨ buffer.size = 0 then (.inval, vq)
  else if vq.freeList = -1 ∨ vq.numFreeDescriptors = 0 then (.nomem, vq)
  else (.ok, takeDescriptor vq vq.freeList.toNat buffer)

/-- A call of the interrupt handler. -/
structure IrqCall where
  ctx : Nat
  dataCtx : Nat
  data : Nat
  len : Nat
  deriving DecidableEq

/-- The loop condition of `handle_vq_irq` and the first half of its body: the descriptor of the
next used element, and the call of the handler if there is one. -/
def handleVqIrqNext (vq : Virtq) : Option (Nat × Option IrqCall) :=
  if vq.usedIdx ≠ vq.usedRingIdx then
    let descId := (vq.usedRing vq.usedIndex).id
    let desc := vq.descTable descId
    some (descId, if vq.irqHandler ≠ 0
      then some ⟨vq.irqHandlerCtx, vq.descCtx descId, desc.addr, desc.len⟩ else none)
  else none

/-- The second half of the body, after the handler has returned. -/
def handleVqIrqFree (vq : Virtq) (descId : Nat) : Virtq :=
  { vq with
    descTable := Function.update vq.descTable descId
      { vq.descTable descId with next := u16 vq.freeList }
    freeList := descId
    usedIdx := u16 (vq.usedIdx + 1 : Nat)
    numFreeDescriptors := vq.numFreeDescriptors + 1 }

/-! ## The queue between driver and device -/

/-- A virtqueue in use. `reads` are the descriptors that the device has read, each with its index in
the table. A position in `reads` names a descriptor from then on: `pending` has the positions that
the device has not completed, `completed` those that it has, with the length it reported.
`handling` is the descriptor of an interrupt handler that is running. The rest is history: the
buffers that were accepted, the calls of the handler, and how many completions were freed. -/
structure System where
  vq : Virtq
  nextAvail : Nat
  reads : List (Nat × VirtioDescriptor)
  pending : List Nat
  completed : List (Nat × Nat)
  handling : Option Nat
  submitted : List Buffer
  calls : List IrqCall
  freed : Nat

/-- What can happen. `send` is a whole call, by a thread or by the running handler. -/
inductive SystemEvent where
  | send (buffer : Buffer)
  | consume
  | complete (position len : Nat)
  | setUsedFlags (flags : Nat)
  | irqNext
  | irqFree
  deriving DecidableEq

/-- A call of `virtq_send_buffer`. -/
def System.send (sys : System) (buffer : Buffer) : System :=
  match virtqSendBuffer sys.vq buffer with
  | (.ok, vq) => { sys with vq := vq, submitted := sys.submitted ++ [buffer] }
  | (_, vq) => { sys with vq := vq }

/-- The interrupt enters its handler. -/
def System.enter (sys : System) (descId : Nat) (call : Option IrqCall) : System :=
  { sys with handling := some descId, calls := sys.calls ++ call.toList }

/-- The handler has returned. -/
def System.leave (sys : System) (descId : Nat) : System :=
  { sys with vq := handleVqIrqFree sys.vq descId, handling := none, freed := sys.freed + 1 }

/-- One event. The device consumes while there is something available, and completes what it has
consumed. The interrupt is not entered again while the handler runs. -/
def System.step (sys : System) : SystemEvent → Option System
  | .send buffer => some (sys.send buffer)
  | .consume =>
    if sys.nextAvail ≠ sys.vq.availRingIdx then
      let id := sys.vq.availRing (sys.nextAvail % sys.vq.size)
      some { sys with
        nextAvail := u16 (sys.nextAvail + 1 : Nat)
        reads := sys.reads ++ [(id, sys.vq.descTable id)]
        pending := sys.pending ++ [sys.reads.length] }
    else none
  | .complete position len =>
    if position ∈ sys.pending then do
      let (id, _) ← sys.reads[position]?
      some { sys with
        vq := { sys.vq with
          usedRing := Function.update sys.vq.usedRing (sys.vq.usedRingIdx % sys.vq.size) ⟨id, len⟩
          usedRingIdx := u16 (sys.vq.usedRingIdx + 1 : Nat) }
        pending := sys.pending.erase position
        completed := sys.completed ++ [(position, len)] }
    else none
  | .setUsedFlags flags => some { sys with vq := { sys.vq with usedRingFlags := flags } }
  | .irqNext =>
    if sys.handling = none then do
      let (descId, call) ← handleVqIrqNext sys.vq
      some (sys.enter descId call)
    else none
  | .irqFree => do
    let descId ← sys.handling
    some (sys.leave descId)

/-- The length of a queue does not change. -/
theorem System.step_size {sys after : System} {event : SystemEvent} (hstep : sys.step event = some after) :
    after.vq.size = sys.vq.size := by
  cases event with
  | send buffer =>
    obtain rfl := Option.some.inj hstep
    unfold System.send virtqSendBuffer
    split_ifs
    · rfl
    · rfl
    · rfl
  | consume =>
    obtain ⟨_, hafter⟩ := Option.ite_none_right_eq_some.mp hstep
    obtain rfl := Option.some.inj hafter
    rfl
  | complete position len =>
    obtain ⟨_, hafter⟩ := Option.ite_none_right_eq_some.mp hstep
    obtain ⟨_, _, hafter⟩ := Option.bind_eq_some_iff.mp hafter
    obtain rfl := Option.some.inj hafter
    rfl
  | setUsedFlags flags =>
    obtain rfl := Option.some.inj hstep
    rfl
  | irqNext =>
    obtain ⟨_, hafter⟩ := Option.ite_none_right_eq_some.mp hstep
    obtain ⟨_, _, hafter⟩ := Option.bind_eq_some_iff.mp hafter
    obtain rfl := Option.some.inj hafter
    rfl
  | irqFree =>
    obtain ⟨_, _, hafter⟩ := Option.bind_eq_some_iff.mp hstep
    obtain rfl := Option.some.inj hafter
    rfl

/-- A new queue, before any call. -/
def System.initial (size irqHandler irqHandlerCtx : Nat) : System where
  vq := virtqCreate size irqHandler irqHandlerCtx
  nextAvail := 0
  reads := []
  pending := []
  completed := []
  handling := none
  submitted := []
  calls := []
  freed := 0

/-- `handle_vq_irq` without device steps in between: turn after turn until the rings agree. `sends`
is what the handler submits in reaction to a call. -/
def System.handleVqIrq (sends : IrqCall → List Buffer) : Nat → System → Option System
  | 0, _ => none
  | fuel + 1, sys =>
    match handleVqIrqNext sys.vq with
    | none => some sys
    | some (descId, call) =>
      let sys := (call.toList.flatMap sends).foldl System.send (sys.enter descId call)
      handleVqIrq sends fuel (sys.leave descId)

end Otrix.Dev
