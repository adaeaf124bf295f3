import Mathlib.Algebra.Ring.Nat
import Mathlib.Data.Nat.ModEq
import Otrix.Foundation.ByteMemory

/-!
# One's-complement sums of byte strings

The Internet checksum of a byte string is the one's-complement sum of its 16-bit words: a
carry out of sixteen bits is added back. The words are in network order, and an odd byte
is padded with a zero byte. A byte string `Verifies` when the sum is all ones.

The sum is a representative modulo `2 ^ 16 - 1` of the plain sum, and swapping the bytes
of every word is a multiplication by `256` there. So whether a byte string verifies can be
read off the sum of its words in host order.

`foldOnce` complements a 32-bit sum after adding its two halves once.
`filled_verifies_iff` says when a checksum that is computed in this way verifies.
-/

namespace OnesComplement

open Bytes.Mem (leBytes fieldBytes length_fieldBytes)

/-- Addition with an end-around carry. -/
def add (first second : Nat) : Nat :=
  (first + second) % 2 ^ 16 + (first + second) / 2 ^ 16

/-- The one's-complement sum of words. -/
def sum : List Nat → Nat
  | [] => 0
  | word :: words => add word (sum words)

/-- The words of a byte string in network order. -/
def beWords : List UInt8 → List Nat
  | [] => []
  | [last] => [last.toNat * 256]
  | high :: low :: bytes => (high.toNat * 256 + low.toNat) :: beWords bytes

/-- The words of a byte string in the order of a little-endian host. -/
def leWords : List UInt8 → List Nat
  | [] => []
  | [last] => [last.toNat]
  | low :: high :: bytes => (low.toNat + 256 * high.toNat) :: leWords bytes

/-- The plain sum of the words in the order of a little-endian host. -/
def leSum (bytes : List UInt8) : Nat :=
  (leWords bytes).sum

/-- The check that a receiver makes. -/
def Verifies (bytes : List UInt8) : Prop :=
  sum (beWords bytes) = 0xffff
  deriving Decidable

/-! ## Sums -/

theorem add_lt {first second : Nat} (hfirst : first < 2 ^ 16) (hsecond : second < 2 ^ 16) :
    add first second < 2 ^ 16 := by
  unfold add
  omega

/-- A carry counts as one, as does `2 ^ 16` modulo `2 ^ 16 - 1`. -/
theorem add_mod (first second : Nat) : add first second ≡ first + second [MOD 0xffff] := by
  have hsplit := Nat.mod_add_div (first + second) (2 ^ 16)
  unfold add Nat.ModEq
  omega

theorem add_eq_zero_iff {first second : Nat} : add first second = 0 ↔ first + second = 0 := by
  unfold add
  omega

theorem sum_spec {words : List Nat} (hwords : ∀ word ∈ words, word < 2 ^ 16) :
    sum words < 2 ^ 16 ∧ sum words ≡ words.sum [MOD 0xffff] ∧ (sum words = 0 ↔ words.sum = 0) := by
  induction words with
  | nil => exact ⟨by decide, rfl, Iff.rfl⟩
  | cons word words ih =>
    obtain ⟨hlt, hmod, hzero⟩ := ih fun other hother => hwords other (List.mem_cons_of_mem _ hother)
    rw [List.sum_cons]
    refine ⟨add_lt (hwords word List.mem_cons_self) hlt, ?_, ?_⟩
    · exact (add_mod word (sum words)).trans (Nat.ModEq.add_left word hmod)
    · rw [sum, add_eq_zero_iff]
      omega

theorem sum_eq_ones_iff {words : List Nat} (hwords : ∀ word ∈ words, word < 2 ^ 16) :
    sum words = 0xffff ↔ 0 < words.sum ∧ 0xffff ∣ words.sum := by
  obtain ⟨hlt, hmod, hzero⟩ := sum_spec hwords
  unfold Nat.ModEq at hmod
  omega

/-! ## Words of a byte string -/

theorem beWords_lt (bytes : List UInt8) : ∀ word ∈ beWords bytes, word < 2 ^ 16 := by
  induction bytes using beWords.induct with
  | case1 => simp [beWords]
  | case2 last =>
    have hlast := last.toNat_lt
    simp only [beWords, List.mem_singleton, forall_eq]
    omega
  | case3 high low bytes ih =>
    have hhigh := high.toNat_lt
    have hlow := low.toNat_lt
    simp only [beWords, List.forall_mem_cons]
    exact ⟨by omega, ih⟩

/-- Swapping the bytes of every word multiplies the sum by `256`. -/
theorem beWords_sum (bytes : List UInt8) :
    (beWords bytes).sum ≡ 256 * leSum bytes [MOD 0xffff] ∧
      ((beWords bytes).sum = 0 ↔ leSum bytes = 0) := by
  induction bytes using beWords.induct with
  | case1 => exact ⟨rfl, Iff.rfl⟩
  | case2 last =>
    simp only [beWords, leSum, leWords, List.sum_singleton]
    exact ⟨by rw [Nat.mul_comm], by omega⟩
  | case3 high low bytes ih =>
    obtain ⟨hmod, hzero⟩ := ih
    simp only [leSum] at hmod hzero
    simp only [beWords, leSum, leWords, List.sum_cons]
    unfold Nat.ModEq at hmod ⊢
    omega

/-- Whether a byte string verifies, from the words that a little-endian host reads. -/
theorem verifies_iff (bytes : List UInt8) :
    Verifies bytes ↔ 0 < leSum bytes ∧ 0xffff ∣ leSum bytes := by
  obtain ⟨hmod, hzero⟩ := beWords_sum bytes
  have hcoprime : Nat.Coprime 0xffff 256 := by decide
  have hdvd : 0xffff ∣ (beWords bytes).sum ↔ 0xffff ∣ leSum bytes := by
    rw [← hcoprime.dvd_mul_left (n := leSum bytes), Nat.dvd_iff_mod_eq_zero,
      Nat.dvd_iff_mod_eq_zero, hmod]
  rw [Verifies, sum_eq_ones_iff (beWords_lt bytes), hdvd]
  omega

/-- The sum over a byte string behind an even number of bytes. -/
theorem leSum_append {front : List UInt8} (back : List UInt8) (heven : front.length % 2 = 0) :
    leSum (front ++ back) = leSum front + leSum back := by
  induction front using leWords.induct with
  | case1 => exact (Nat.zero_add _).symm
  | case2 last => simp at heven
  | case3 low high bytes ih =>
    simp only [List.length_cons] at heven
    have hrest := ih (by omega)
    simp only [leSum] at hrest
    simp only [leSum, List.cons_append, leWords, List.sum_cons, hrest]
    omega

theorem leSum_le (bytes : List UInt8) : leSum bytes ≤ 0xffff * ((bytes.length + 1) / 2) := by
  induction bytes using leWords.induct with
  | case1 => exact Nat.le_refl _
  | case2 last =>
    have hlast := last.toNat_lt
    simp only [leSum, leWords, List.sum_singleton, List.length_singleton]
    omega
  | case3 low high bytes ih =>
    have hlow := low.toNat_lt
    have hhigh := high.toNat_lt
    simp only [leSum] at ih
    simp only [leSum, leWords, List.sum_cons, List.length_cons]
    omega

theorem leSum_leBytes (value : Nat) : leSum (leBytes value 2) = value % 2 ^ 16 := by
  simp only [leSum, leBytes, leWords, List.sum_singleton, UInt8.toNat_ofNat']
  omega

/-! ## A sum that is folded once -/

/-- The sum fits into thirty-two bits, and adding its halves leaves no second carry. -/
def SingleFold (total : Nat) : Prop :=
  total < 2 ^ 32 ∧ total / 2 ^ 16 + total % 2 ^ 16 < 2 ^ 16
  deriving Decidable

/-- The complement of a 32-bit sum that is folded once. -/
def foldOnce (total : Nat) : Nat :=
  0xffff - (total % 2 ^ 32 / 2 ^ 16 + total % 2 ^ 16) % 2 ^ 16

/-- The halves that are added, and what does not fit into thirty-two bits. -/
theorem fold_once_halves (carry : Nat) {high low : Nat} (hhigh : high < 2 ^ 16)
    (hlow : low < 2 ^ 16) :
    foldOnce (2 ^ 32 * carry + (2 ^ 16 * high + low)) = 0xffff - (high + low) % 2 ^ 16 := by
  have hupper : (2 ^ 32 * carry + (2 ^ 16 * high + low)) % 2 ^ 32 / 2 ^ 16 = high := by omega
  have hlower : (2 ^ 32 * carry + (2 ^ 16 * high + low)) % 2 ^ 16 = low := by omega
  rw [foldOnce, hupper, hlower]

theorem exists_halves (total : Nat) :
    ∃ carry high low, high < 2 ^ 16 ∧ low < 2 ^ 16 ∧
      total = 2 ^ 32 * carry + (2 ^ 16 * high + low) :=
  ⟨total / 2 ^ 32, total / 2 ^ 16 % 2 ^ 16, total % 2 ^ 16, by omega, by omega, by omega⟩

/-- A sum and its complement give all ones exactly when one fold is enough. -/
theorem fold_once_complements_iff {total : Nat} (htotal : total < 2 ^ 33) :
    (0 < total + foldOnce total ∧ 0xffff ∣ total + foldOnce total) ↔ SingleFold total := by
  obtain ⟨carry, high, low, hhigh, hlow, rfl⟩ := exists_halves total
  rw [fold_once_halves carry hhigh hlow, SingleFold]
  -- the sum is `carry + high + low` modulo `2 ^ 16 - 1`, and a second carry is lost
  have hcarry : carry = 0 ∨ carry = 1 := by omega
  by_cases hfold : high + low < 2 ^ 16
  · rw [Nat.mod_eq_of_lt hfold]
    rcases hcarry with rfl | rfl <;> omega
  · have hlost : (high + low) % 2 ^ 16 = high + low - 2 ^ 16 := by omega
    rw [hlost]
    rcases hcarry with rfl | rfl <;> omega

/-- The complement is zero exactly when the sum is a positive multiple of `2 ^ 16 - 1`, as long as
the sum is at most the square of that. -/
theorem fold_once_eq_zero_iff {total : Nat} (htotal : total ≤ 0xffff * 0xffff) :
    foldOnce total = 0 ↔ 0 < total ∧ 0xffff ∣ total := by
  obtain ⟨carry, high, low, hhigh, hlow, rfl⟩ := exists_halves total
  rw [fold_once_halves carry hhigh hlow]
  have hcarry : carry = 0 := by omega
  subst hcarry
  -- the folded sum is below `2 * 0xffff`, so it is all ones only as `0xffff` itself
  have hfold : (high + low) % 2 ^ 16 = 0xffff ↔ high + low = 0xffff := by omega
  have hsplit : 2 ^ 32 * 0 + (2 ^ 16 * high + low) = 0xffff * high + (high + low) := by omega
  have hdvd : 0xffff ∣ 0xffff * high + (high + low) ↔ 0xffff ∣ high + low :=
    Nat.dvd_add_right (Nat.dvd_mul_right _ _)
  rw [hsplit, hdvd]
  omega

/-- When a checksum verifies that is computed over a zero field behind an even number of bytes, and
stored there. -/
theorem filled_verifies_iff {front : List UInt8} (back : List UInt8) {total : Nat}
    (heven : front.length % 2 = 0) (htotal : leSum (front ++ (leBytes 0 2 ++ back)) = total)
    (hlt : total < 2 ^ 33) :
    Verifies (front ++ (leBytes (foldOnce total) 2 ++ back)) ↔ SingleFold total := by
  have hsum : ∀ value, leSum (front ++ (leBytes value 2 ++ back)) =
      leSum front + (value % 2 ^ 16 + leSum back) := by
    intro value
    rw [leSum_append _ heven, leSum_append _ (by simp), leSum_leBytes]
  have hword : foldOnce total < 2 ^ 16 := by
    unfold foldOnce
    omega
  have hfilled : leSum (front ++ (leBytes (foldOnce total) 2 ++ back)) = total + foldOnce total := by
    rw [hsum] at htotal
    rw [hsum, Nat.mod_eq_of_lt hword]
    omega
  rw [verifies_iff, hfilled, fold_once_complements_iff hlt]

/-- The same for a checksum field of a packed record, with bytes in front of the record that are
summed but not sent with it, and bytes behind the record. -/
theorem record_verifies_iff (pseudo : List UInt8) (front back : List (Nat × Nat))
    (rest : List UInt8) {total : Nat} (hpseudo : pseudo.length % 2 = 0)
    (heven : (front.map Prod.fst).sum % 2 = 0)
    (htotal : leSum (pseudo ++ (fieldBytes (front ++ (2, 0) :: back) ++ rest)) = total)
    (hlt : total < 2 ^ 33) :
    Verifies (pseudo ++ (fieldBytes (front ++ (2, foldOnce total) :: back) ++ rest)) ↔
      SingleFold total := by
  have hsplit : ∀ value, pseudo ++ (fieldBytes (front ++ (2, value) :: back) ++ rest) =
      (pseudo ++ fieldBytes front) ++ (leBytes value 2 ++ (fieldBytes back ++ rest)) := by
    intro value
    simp [fieldBytes]
  have hlength : (pseudo ++ fieldBytes front).length % 2 = 0 := by
    rw [List.length_append, length_fieldBytes]
    omega
  rw [hsplit] at htotal ⊢
  exact filled_verifies_iff _ hlength htotal hlt

end OnesComplement
