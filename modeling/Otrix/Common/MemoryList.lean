import Otrix.Common.List
import Otrix.Common.Word
import Otrix.Foundation.ByteMemory

/-!
# Intrusive lists in memory

`struct intrusive_list` of `common/list.h` as it lies in memory: the `next` link
and, behind it, the `prev` link, both 64-bit addresses.
-/

namespace Otrix

open Linked Bytes

variable {μ : Type} [ByteStore μ]

/-- `struct intrusive_list`. -/
instance : LinkStore μ Nat where
  null := 0
  next memory node := ByteStore.load memory node 8
  prev memory node := ByteStore.load memory (node + 8) 8
  setNext memory node value := ByteStore.store memory node value 8
  setPrev memory node value := ByteStore.store memory (node + 8) value 8

/-- Nodes share no storage when they are two words apart, and links hold 64-bit addresses. -/
instance [LawfulByteStore μ] : LawfulLinkStore μ Nat where
  Apart first second := first + 16 ≤ second ∨ second + 16 ≤ first
  Storable node := node < 2 ^ 64
  apart_symm h := Or.symm h
  apart_ne h := by omega
  next_setNext_self h :=
    (LawfulByteStore.load_store_same _ _ _ 8).trans (Nat.mod_eq_of_lt (by omega))
  next_setNext_apart h := LawfulByteStore.load_store_other (by omega)
  next_setPrev_self _ _ _ := LawfulByteStore.load_store_other (by omega)
  next_setPrev_apart h := LawfulByteStore.load_store_other (by omega)
  prev_setPrev_self h :=
    (LawfulByteStore.load_store_same _ _ _ 8).trans (Nat.mod_eq_of_lt (by omega))
  prev_setPrev_apart h := LawfulByteStore.load_store_other (by omega)
  prev_setNext_self _ _ _ := LawfulByteStore.load_store_other (by omega)
  prev_setNext_apart h := LawfulByteStore.load_store_other (by omega)

/-- Links are written to the bytes of their node. -/
theorem unseen_byte {node a : Nat} (h : a < node ∨ node + 16 ≤ a) :
    Unseen (fun memory : Mem => memory.byte a) node :=
  fun _ _ => ⟨Mem.store_byte_outside (by omega), Mem.store_byte_outside (by omega)⟩

theorem unseen_words {node first second : Nat} (observe : Nat → Nat → Prop)
    (hfirst : first + 8 ≤ node ∨ node + 16 ≤ first) (hsecond : second + 8 ≤ node ∨ node + 16 ≤ second) :
    Unseen (fun memory : Mem => observe (memory.load first 8) (memory.load second 8)) node :=
  fun _ _ => ⟨congrArg₂ observe (Mem.load_store_other (by omega))
      (Mem.load_store_other (by omega)),
    congrArg₂ observe (Mem.load_store_other (by omega))
      (Mem.load_store_other (by omega))⟩

end Otrix
