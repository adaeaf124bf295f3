import Mathlib.Logic.Function.Basic
import Mathlib.Tactic.Ring

/-!
# Flat byte memory

A memory maps every address to a byte. `load` and `store` read and write
little-endian words of any width. The lemmas are the usual algebra: a load reads
back what was stored at the same address, truncated to the width, and does not
see a store to a disjoint range.

`read` and `write` move byte strings. `Holds` says that a byte string lies at an
address; it splits over concatenation, so that a record written by one program
is read field by field by another.
-/

namespace Bytes

/-- The contents of a flat address space. -/
structure Mem where
  byte : Nat → UInt8

namespace Mem

/-- Replace the byte at one address. -/
def setByte (memory : Mem) (address : Nat) (value : UInt8) : Mem :=
  ⟨Function.update memory.byte address value⟩

/-- Read `width` bytes as a little-endian number. -/
def load (memory : Mem) (address : Nat) : Nat → Nat
  | 0 => 0
  | width + 1 => (memory.byte address).toNat + 256 * load memory (address + 1) width

/-- Write the low `width` bytes of a number in little-endian order. -/
def store (memory : Mem) (address value : Nat) : Nat → Mem
  | 0 => memory
  | width + 1 =>
    store (memory.setByte address (UInt8.ofNat value)) (address + 1) (value / 256) width

theorem setByte_byte_ne (memory : Mem) {address other : Nat} (value : UInt8)
    (h : other ≠ address) : (memory.setByte address value).byte other = memory.byte other := by
  simp [setByte, h]

theorem store_byte_outside {memory : Mem} {address value width other : Nat}
    (h : other < address ∨ address + width ≤ other) :
    (store memory address value width).byte other = memory.byte other := by
  induction width generalizing memory address value with
  | zero => rfl
  | succ width ih =>
    have hrest : other < address + 1 ∨ address + 1 + width ≤ other := by omega
    have hne : other ≠ address := by omega
    show (store (memory.setByte address (UInt8.ofNat value)) (address + 1) (value / 256)
      width).byte other = memory.byte other
    rw [ih hrest, setByte_byte_ne memory _ hne]

/-- A written byte does not depend on the memory before the store. -/
theorem store_byte_inside (first second : Mem) (address value width other : Nat)
    (h : address ≤ other ∧ other < address + width) :
    (store first address value width).byte other =
      (store second address value width).byte other := by
  induction width generalizing first second address value with
  | zero => omega
  | succ width ih =>
    by_cases heq : other = address
    · subst heq
      show (store (first.setByte other (UInt8.ofNat value)) (other + 1) (value / 256)
        width).byte other =
          (store (second.setByte other (UInt8.ofNat value)) (other + 1) (value / 256)
        width).byte other
      rw [store_byte_outside (by omega), store_byte_outside (by omega)]
      simp [setByte]
    · exact ih _ _ _ _ (by omega)

theorem store_comm (memory : Mem) (address value width other content size : Nat)
    (h : address + width ≤ other ∨ other + size ≤ address) :
    store (store memory address value width) other content size =
      store (store memory other content size) address value width := by
  refine congrArg Mem.mk (funext fun a => ?_)
  by_cases hfirst : address ≤ a ∧ a < address + width
  · rw [store_byte_outside (by omega)]
    exact store_byte_inside _ _ address value width a hfirst
  · have houtside : ∀ memory : Mem, (store memory address value width).byte a = memory.byte a :=
      fun _ => store_byte_outside (by omega)
    rw [houtside]
    by_cases hsecond : other ≤ a ∧ a < other + size
    · exact store_byte_inside _ _ other content size a hsecond
    · rw [store_byte_outside (by omega), houtside, store_byte_outside (by omega)]

/-- The last of two stores to one place counts. -/
theorem store_store (memory : Mem) (address old value width : Nat) :
    store (store memory address old width) address value width =
      store memory address value width := by
  refine congrArg Mem.mk (funext fun a => ?_)
  by_cases hinside : address ≤ a ∧ a < address + width
  · exact store_byte_inside _ _ address value width a hinside
  · rw [store_byte_outside (by omega), store_byte_outside (by omega),
      store_byte_outside (by omega)]

theorem load_congr {first second : Mem} {address width : Nat}
    (h : ∀ a, address ≤ a → a < address + width → first.byte a = second.byte a) :
    load first address width = load second address width := by
  induction width generalizing address with
  | zero => rfl
  | succ width ih =>
    simp only [load]
    rw [h address (by omega) (by omega), ih fun a hlow hhigh => h a (by omega) (by omega)]

variable {memory : Mem}

theorem load_eq_zero {address width : Nat}
    (h : ∀ a, address ≤ a → a < address + width → memory.byte a = 0) : load memory address width = 0 := by
  induction width generalizing address with
  | zero => rfl
  | succ width ih =>
    have hrest : load memory (address + 1) width = 0 :=
      ih fun a hlow hhigh => h a (by omega) (by omega)
    rw [load, h address (by omega) (by omega), hrest]
    rfl

theorem load_lt (memory : Mem) (address width : Nat) : load memory address width < 256 ^ width := by
  induction width generalizing address with
  | zero => exact Nat.one_pos
  | succ width ih =>
    have hbyte : (memory.byte address).toNat < 256 := (memory.byte address).toNat_lt
    have hrest := ih (address + 1)
    rw [load, pow_succ']
    omega

theorem load_store_other {memory : Mem} {address value width other size : Nat}
    (h : other + size ≤ address ∨ address + width ≤ other) :
    load (store memory address value width) other size = load memory other size := by
  apply load_congr
  intro a hlow hhigh
  exact store_byte_outside (by omega)

/-- A load reads back what was stored, truncated to the width. -/
theorem load_store_same (memory : Mem) (address value width : Nat) :
    load (store memory address value width) address width = value % 256 ^ width := by
  induction width generalizing memory address value with
  | zero => simp [load, Nat.mod_one]
  | succ width ih =>
    have hfirst : (store (memory.setByte address (UInt8.ofNat value)) (address + 1) (value / 256)
        width).byte address = UInt8.ofNat value := by
      rw [store_byte_outside (by omega)]
      simp [setByte]
    show ((store (memory.setByte address (UInt8.ofNat value)) (address + 1) (value / 256)
        width).byte address).toNat
      + 256 * load (store (memory.setByte address (UInt8.ofNat value)) (address + 1)
        (value / 256) width) (address + 1) width = value % 256 ^ (width + 1)
    rw [hfirst, ih, pow_succ', Nat.mod_mul]
    simp

theorem ofNat_load_succ (memory : Mem) (address width : Nat) :
    UInt8.ofNat (load memory address (width + 1)) = memory.byte address := by
  have hbyte : (memory.byte address).toNat < 256 := (memory.byte address).toNat_lt
  rw [load, ← UInt8.toNat_inj, UInt8.toNat_ofNat', Nat.add_mul_mod_self_left,
    Nat.mod_eq_of_lt hbyte]

theorem load_succ_div (memory : Mem) (address width : Nat) :
    load memory address (width + 1) / 256 = load memory (address + 1) width := by
  have hbyte : (memory.byte address).toNat < 256 := (memory.byte address).toNat_lt
  rw [load]
  omega

theorem store_load_self (memory : Mem) (address width : Nat) :
    store memory address (load memory address width) width = memory := by
  induction width generalizing address with
  | zero => rfl
  | succ width ih =>
    have hset : memory.setByte address (memory.byte address) = memory :=
      congrArg Mem.mk (Function.update_eq_self address memory.byte)
    rw [store, ofNat_load_succ, load_succ_div, hset, ih]

theorem store_of_load {address value width : Nat} (h : load memory address width = value) :
    store memory address value width = memory := by
  rw [← h, store_load_self]

/-- A word that is loaded and stored keeps its bytes. -/
theorem store_load_byte (memory source : Mem) (address other : Nat) {width i : Nat} (h : i < width) :
    (store memory address (load source other width) width).byte (address + i) =
      source.byte (other + i) := by
  induction width generalizing memory address other i with
  | zero => omega
  | succ width ih =>
    rw [store, ofNat_load_succ, load_succ_div]
    cases i with
    | zero =>
      rw [store_byte_outside (by omega)]
      simp [setByte]
    | succ i =>
      rw [Nat.add_comm i 1, ← Nat.add_assoc, ← Nat.add_assoc]
      exact ih _ (address + 1) (other + 1) (by omega)

/-- The bytes of a word that is loaded. -/
theorem byte_of_load (memory : Mem) (address : Nat) {width i : Nat} (h : i < width) :
    memory.byte (address + i) = UInt8.ofNat (load memory address width / 256 ^ i) := by
  induction i generalizing address width with
  | zero =>
    obtain ⟨width, rfl⟩ := Nat.exists_eq_succ_of_ne_zero (Nat.ne_of_gt h)
    rw [pow_zero, Nat.div_one, ofNat_load_succ, Nat.add_zero]
  | succ i ih =>
    obtain ⟨width, rfl⟩ := Nat.exists_eq_succ_of_ne_zero (Nat.ne_of_gt (Nat.zero_lt_of_lt h))
    rw [pow_succ', ← Nat.div_div_eq_div_mul, load_succ_div, ← ih _ (Nat.lt_of_succ_lt_succ h),
      Nat.add_assoc, Nat.add_comm 1]

theorem byte_eq_of_load_eq {address other width i : Nat}
    (h : load memory address width = load memory other width) (hi : i < width) :
    memory.byte (address + i) = memory.byte (other + i) := by
  rw [byte_of_load _ _ hi, byte_of_load _ _ hi, h]

/-! ## Byte strings -/

/-- The low `width` bytes of a number in little-endian order. -/
def leBytes (value : Nat) : Nat → List UInt8
  | 0 => []
  | width + 1 => UInt8.ofNat value :: leBytes (value / 256) width

/-- Copy a byte string to an address. -/
def write (memory : Mem) (address : Nat) : List UInt8 → Mem
  | [] => memory
  | byte :: bytes => write (memory.setByte address byte) (address + 1) bytes

/-- The byte string of a length at an address. -/
def read (memory : Mem) (address : Nat) : Nat → List UInt8
  | 0 => []
  | length + 1 => memory.byte address :: read memory (address + 1) length

@[simp] theorem length_leBytes (value width : Nat) : (leBytes value width).length = width := by
  induction width generalizing value with
  | zero => rfl
  | succ width ih => exact congrArg (· + 1) (ih (value / 256))

@[simp] theorem length_read (memory : Mem) (address length : Nat) :
    (memory.read address length).length = length := by
  induction length generalizing address with
  | zero => rfl
  | succ length ih => exact congrArg (· + 1) (ih (address + 1))

theorem store_eq_write (memory : Mem) (address value width : Nat) :
    memory.store address value width = memory.write address (leBytes value width) := by
  induction width generalizing memory address value with
  | zero => rfl
  | succ width ih => exact ih _ _ _

theorem write_byte_outside (memory : Mem) (bytes : List UInt8) (address other : Nat)
    (h : other < address ∨ address + bytes.length ≤ other) :
    (memory.write address bytes).byte other = memory.byte other := by
  induction bytes generalizing memory address with
  | nil => rfl
  | cons byte bytes ih =>
    rw [List.length_cons] at h
    have hrest : other < address + 1 ∨ address + 1 + bytes.length ≤ other := by omega
    show ((memory.setByte address byte).write (address + 1) bytes).byte other = memory.byte other
    rw [ih _ _ hrest, setByte_byte_ne memory _ (by omega)]

/-- Writing a byte string behind another writes the two in one piece. -/
theorem write_append (memory : Mem) (address : Nat) (front back : List UInt8) :
    memory.write address (front ++ back) =
      (memory.write address front).write (address + front.length) back := by
  induction front generalizing memory address with
  | nil => rfl
  | cons byte front ih =>
    show (memory.setByte address byte).write (address + 1) (front ++ back) =
      ((memory.setByte address byte).write (address + 1) front).write
        (address + (front.length + 1)) back
    rw [ih, Nat.add_right_comm, Nat.add_assoc]

theorem read_add (memory : Mem) (address front back : Nat) :
    memory.read address (front + back) =
      memory.read address front ++ memory.read (address + front) back := by
  induction front generalizing address with
  | zero => rw [Nat.zero_add]; rfl
  | succ front ih =>
    have haddress : address + (front + 1) = address + 1 + front := by omega
    rw [Nat.add_right_comm, haddress]
    exact congrArg (memory.byte address :: ·) (ih (address + 1))

theorem read_congr {first second : Mem} (address length : Nat)
    (h : ∀ a, address ≤ a → a < address + length → first.byte a = second.byte a) :
    first.read address length = second.read address length := by
  induction length generalizing address with
  | zero => rfl
  | succ length ih =>
    have hrest := ih (address + 1) fun a hlow hhigh => h a (by omega) (by omega)
    exact congrArg₂ (· :: ·) (h address (by omega) (by omega)) hrest

theorem leBytes_load (memory : Mem) (address width : Nat) :
    leBytes (memory.load address width) width = memory.read address width := by
  induction width generalizing address with
  | zero => rfl
  | succ width ih =>
    rw [leBytes, ofNat_load_succ, load_succ_div, ih]
    rfl

/-! ## What memory holds -/

/-- The byte string lies at the address. -/
def Holds (memory : Mem) (address : Nat) (bytes : List UInt8) : Prop :=
  memory.read address bytes.length = bytes

/-- A memory holds two strings in a row exactly when it holds the second one behind the first. -/
theorem holds_append {address : Nat} {front back : List UInt8} :
    memory.Holds address (front ++ back) ↔
      memory.Holds address front ∧ memory.Holds (address + front.length) back := by
  unfold Holds
  rw [List.length_append, read_add]
  constructor
  · intro h
    exact List.append_inj h (length_read _ _ _)
  · rintro ⟨hfront, hback⟩
    rw [hfront, hback]

theorem holds_write (memory : Mem) (address : Nat) (bytes : List UInt8) :
    (memory.write address bytes).Holds address bytes := by
  induction bytes generalizing memory address with
  | nil => rfl
  | cons byte bytes ih =>
    have hfirst : ((memory.setByte address byte).write (address + 1) bytes).byte address =
        byte := by
      rw [write_byte_outside _ _ _ _ (Or.inl (Nat.lt_succ_self _))]
      simp [setByte]
    exact congrArg₂ (· :: ·) hfirst (ih _ _)

theorem Holds.write {address other : Nat} {bytes : List UInt8}
    (h : memory.Holds address bytes) (content : List UInt8)
    (hapart : address + bytes.length ≤ other ∨ other + content.length ≤ address) :
    (memory.write other content).Holds address bytes := by
  refine Eq.trans (read_congr _ _ fun a hlow hhigh => ?_) h
  exact write_byte_outside memory content other a (by omega)

/-- Where the bytes of a number lie, a load reads the number, truncated to the width. -/
theorem Holds.load_eq {address value width : Nat}
    (h : memory.Holds address (leBytes value width)) :
    memory.load address width = value % 256 ^ width := by
  unfold Holds at h
  rw [length_leBytes] at h
  induction width generalizing address value with
  | zero => exact (Nat.mod_one value).symm
  | succ width ih =>
    obtain ⟨hfirst, hrest⟩ := List.cons.inj h
    show (memory.byte address).toNat + 256 * memory.load (address + 1) width =
      value % 256 ^ (width + 1)
    rw [hfirst, ih hrest, pow_succ', Nat.mod_mul]
    simp

/-! ## Packed records -/

/-- Assign the fields of a packed record in their order, each given by its width and its value. -/
def storeFields (memory : Mem) (address : Nat) : List (Nat × Nat) → Mem
  | [] => memory
  | (width, value) :: fields =>
    storeFields (memory.store address value width) (address + width) fields

/-- The bytes of a packed record. -/
def fieldBytes (fields : List (Nat × Nat)) : List UInt8 :=
  fields.flatMap fun field => leBytes field.2 field.1

theorem length_fieldBytes (fields : List (Nat × Nat)) :
    (fieldBytes fields).length = (fields.map Prod.fst).sum := by
  simp [fieldBytes]

/-- Assigning the fields in their order writes the bytes of the record. -/
theorem storeFields_eq_write (memory : Mem) (address : Nat) (fields : List (Nat × Nat)) :
    memory.storeFields address fields = memory.write address (fieldBytes fields) := by
  induction fields generalizing memory address with
  | nil => rfl
  | cons field fields ih =>
    show (memory.store address field.2 field.1).storeFields (address + field.1) fields =
      memory.write address (leBytes field.2 field.1 ++ fieldBytes fields)
    rw [ih, write_append, store_eq_write, length_leBytes]

theorem storeFields_byte_outside (memory : Mem) {address other : Nat} {fields : List (Nat × Nat)}
    (h : other < address ∨ address + (fields.map Prod.fst).sum ≤ other) :
    (memory.storeFields address fields).byte other = memory.byte other := by
  rw [storeFields_eq_write]
  exact write_byte_outside _ _ _ _ (by rwa [length_fieldBytes])

theorem Holds.field {address width value : Nat} {fields : List (Nat × Nat)}
    (h : memory.Holds address (fieldBytes ((width, value) :: fields))) :
    memory.load address width = value % 256 ^ width ∧
      memory.Holds (address + width) (fieldBytes fields) := by
  obtain ⟨hfirst, hrest⟩ := holds_append.mp h
  rw [length_leBytes] at hrest
  exact ⟨hfirst.load_eq, hrest⟩

theorem Holds.store_field {address width old : Nat} (front : List (Nat × Nat))
    {back : List (Nat × Nat)}
    (h : memory.Holds address (fieldBytes (front ++ (width, old) :: back))) (value : Nat) :
    (memory.store (address + (fieldBytes front).length) value width).Holds address
      (fieldBytes (front ++ (width, value) :: back)) := by
  have hsplit : ∀ content, fieldBytes (front ++ (width, content) :: back) =
      fieldBytes front ++ (leBytes content width ++ fieldBytes back) := by
    intro content
    exact List.flatMap_append
  rw [hsplit] at h
  obtain ⟨hfront, hrest⟩ := holds_append.mp h
  obtain ⟨_, hback⟩ := holds_append.mp hrest
  rw [hsplit, store_eq_write]
  refine holds_append.mpr ⟨hfront.write _ (Or.inl (Nat.le_refl _)),
    holds_append.mpr ⟨holds_write _ _ _, ?_⟩⟩
  rw [length_leBytes] at hback ⊢
  refine hback.write _ (Or.inr ?_)
  rw [length_leBytes]

-- Words are read and written through the lemmas above, never by unfolding byte by byte.
attribute [irreducible] load store

end Mem

/-! ## Other memories -/

/-- A memory that is read and written by words. -/
class ByteStore (μ : Type) where
  load : μ → (address width : Nat) → Nat
  store : μ → (address value width : Nat) → μ

/-- A load reads back what was stored at the same address, and does not see a store elsewhere. -/
class LawfulByteStore (μ : Type) [ByteStore μ] : Prop where
  load_store_same : ∀ (memory : μ) (address value width : Nat),
    ByteStore.load (ByteStore.store memory address value width) address width = value % 256 ^ width
  load_store_other : ∀ {memory : μ} {address value width other size : Nat},
    other + size ≤ address ∨ address + width ≤ other →
      ByteStore.load (ByteStore.store memory address value width) other size =
        ByteStore.load memory other size

instance : ByteStore Mem where
  load := Mem.load
  store := Mem.store

instance : LawfulByteStore Mem where
  load_store_same := Mem.load_store_same
  load_store_other := Mem.load_store_other

end Bytes
