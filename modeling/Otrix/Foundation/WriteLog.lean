import Otrix.Foundation.ByteMemory

/-!
# Memories that remember their stores

A `WriteLog base` is the sequence of the stores that a program has made to the memory
`base`. The memory that the program sees is the one that they leave. `Within` bounds
the bytes that were written, whether or not the written values differ from the old
ones; bytes outside the bound are those of `base`.
-/

namespace Bytes

/-- A store of the low `width` bytes of a value. -/
structure Write where
  address : Nat
  value : Nat
  width : Nat
  deriving DecidableEq

/-- The byte at the address is written. -/
def Write.Covers (write : Write) (address : Nat) : Prop :=
  write.address ≤ address ∧ address < write.address + write.width

/-- The stores made to a memory, the last one first. -/
structure WriteLog (base : Mem) where
  writes : List Write

namespace WriteLog

variable {base : Mem} {allowed : Nat → Prop} {log : WriteLog base}

/-- The memory that the stores leave. -/
def memory (log : WriteLog base) : Mem :=
  log.writes.foldr (fun write memory => memory.store write.address write.value write.width) base

/-- One more store. -/
def store (log : WriteLog base) (address value width : Nat) : WriteLog base :=
  ⟨⟨address, value, width⟩ :: log.writes⟩

instance : ByteStore (WriteLog base) where
  load log := log.memory.load
  store := store

instance : LawfulByteStore (WriteLog base) where
  load_store_same log := Mem.load_store_same log.memory
  load_store_other := Mem.load_store_other

/-- Every byte that was written is an allowed one. -/
def Within (allowed : Nat → Prop) (log : WriteLog base) : Prop :=
  ∀ write ∈ log.writes, ∀ address, write.Covers address → allowed address

theorem within_nil : Within allowed (⟨[]⟩ : WriteLog base) :=
  fun _ hmem => absurd hmem List.not_mem_nil

theorem within_store {address value width : Nat}
    (h : ∀ a, address ≤ a → a < address + width → allowed a) :
    Within allowed (log.store address value width) = Within allowed log := by
  refine propext ⟨fun hlog write hmem => hlog write (List.mem_cons_of_mem _ hmem), ?_⟩
  intro hlog write hmem a hcovers
  rcases List.mem_cons.mp hmem with rfl | hmem
  · exact h a hcovers.1 hcovers.2
  · exact hlog write hmem a hcovers

theorem Within.byte_eq (h : Within allowed log) {address : Nat} (hout : ¬ allowed address) :
    log.memory.byte address = base.byte address := by
  obtain ⟨writes⟩ := log
  induction writes with
  | nil => rfl
  | cons write writes ih =>
    have hrest : Within allowed (⟨writes⟩ : WriteLog base) := fun other hmem =>
      h other (List.mem_cons_of_mem _ hmem)
    have hother : ¬ write.Covers address := fun hcovers =>
      hout (h write List.mem_cons_self address hcovers)
    have houtside : address < write.address ∨ write.address + write.width ≤ address := by
      unfold Write.Covers at hother
      omega
    exact (Mem.store_byte_outside houtside).trans (ih hrest)

end WriteLog

end Bytes
