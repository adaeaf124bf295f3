import Mathlib.Data.List.Basic
import Mathlib.Logic.Function.Basic

/-!
# Ring buffers with wrapping counters

A producer appends to a log and stores entry number `k` in slot `k % size` of a
ring; a consumer follows it. `Window` says that the entries that the consumer has
not seen are still in their slots. The counters of both sides are kept modulo a
`modulus` that the size of the ring divides, so a counter that has wrapped still
selects the right slot, and two counters are equal only when the window is empty.
-/

namespace RingBuffer

variable {α : Type*} {slots : Nat → α} {size modulus first : Nat} {log : List α}

/-- The entries of the log from number `first` on are in their slots. -/
def Window (slots : Nat → α) (size : Nat) (log : List α) (first : Nat) : Prop :=
  ∀ k entry, first ≤ k → log[k]? = some entry → slots (k % size) = entry

theorem Window.nil : Window slots size [] first := by
  intro k entry _ hentry
  cases hentry

theorem mod_ne_mod_of_lt {k last : Nat} (hlt : k < last) (hroom : last < k + size) :
    k % size ≠ last % size := by
  intro heq
  have hdvd : size ∣ last - k :=
    Nat.dvd_of_mod_eq_zero (Nat.sub_mod_eq_zero_of_mod_eq heq.symm)
  have hle : size ≤ last - k := Nat.le_of_dvd (by omega) hdvd
  omega

/-- Appending an entry while there is room leaves the entries of the window alone. -/
theorem Window.push (h : Window slots size log first) (hroom : log.length < first + size)
    (entry : α) :
    Window (Function.update slots (log.length % size) entry) size (log ++ [entry]) first := by
  intro k other hfirst hother
  have hlength : k < (log ++ [entry]).length := (List.getElem?_eq_some_iff.mp hother).1
  rw [List.length_append, List.length_singleton] at hlength
  by_cases hlast : k = log.length
  · subst hlast
    rw [List.getElem?_append_right (Nat.le_refl _), Nat.sub_self] at hother
    rw [Function.update_self]
    exact Option.some.inj hother
  · rw [List.getElem?_append_left (by omega)] at hother
    rw [Function.update_of_ne (mod_ne_mod_of_lt (by omega) (by omega))]
    exact h k other hfirst hother

theorem Window.advance (h : Window slots size log first) : Window slots size log (first + 1) :=
  fun k entry hfirst hentry => h k entry (by omega) hentry

theorem counter_mod (hdvd : size ∣ modulus) (count : Nat) : count % modulus % size = count % size :=
  Nat.mod_mod_of_dvd count hdvd

theorem counter_succ (count : Nat) : (count % modulus + 1) % modulus = (count + 1) % modulus :=
  Nat.mod_add_mod count modulus 1

theorem counter_eq_iff {last : Nat} (hle : first ≤ last) (hlt : last < first + modulus) :
    first % modulus = last % modulus ↔ first = last := by
  refine ⟨fun heq => ?_, fun heq => heq ▸ rfl⟩
  by_contra hne
  exact mod_ne_mod_of_lt (by omega) hlt heq

end RingBuffer
