import Mathlib.Tactic.Common
import Mathlib.Algebra.Group.Nat.Defs
import Mathlib.Algebra.Group.Int.Defs

/-!
# Machine words and error codes

`size_t`, `uint64_t` and pointer arithmetic on natural numbers below `2 ^ 64`,
reduced where the source computes, the conversion to `uint16_t`, and the result
codes of `common/error.h`.
-/

namespace Otrix

/-- The value of an unsigned 64-bit expression. -/
def u64 (value : Nat) : Nat :=
  value % 2 ^ 64

/-- Subtraction of unsigned 64-bit values, which wraps below zero. -/
def sub64 (left right : Nat) : Nat :=
  u64 (left + 2 ^ 64 - right)

theorem u64_lt (value : Nat) : u64 value < 2 ^ 64 :=
  Nat.mod_lt _ (by decide)

theorem sub64_lt (left right : Nat) : sub64 left right < 2 ^ 64 :=
  u64_lt _

theorem u64_of_lt {value : Nat} (h : value < 2 ^ 64) : u64 value = value :=
  Nat.mod_eq_of_lt h

theorem sub64_of_le {left right : Nat} (hle : right ≤ left) (hleft : left < 2 ^ 64) :
    sub64 left right = left - right := by
  have hsplit : left + 2 ^ 64 - right = left - right + 2 ^ 64 := by omega
  rw [sub64, u64, hsplit, Nat.add_mod_right, Nat.mod_eq_of_lt (by omega)]

/-- The value of an `int` after conversion to `uint16_t`. -/
def u16 (value : Int) : Nat :=
  (value % 2 ^ 16).toNat

@[simp] theorem u16_natCast (value : Nat) : u16 value = value % 2 ^ 16 := by
  unfold u16
  omega

/-- `kerror_t`. -/
inductive Kerror where
  | ok
  | nodev
  | nomem
  | inval
  | tout
  | unreachable
  | noimpl
  | addrinuse
  | pipe
  deriving DecidableEq

end Otrix
