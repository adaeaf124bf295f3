import Mathlib.Logic.Basic
import Mathlib.Tactic.SplitIfs

/-!
# Reading a record that another party rewrites

A writer keeps a version beside a record. The version is odd while the record is being written, and it
grows with every change. A reader without any other protection reads the version, then the parts of
the record one after the other, and then the version again, until it is even and has not changed.

The record is a function of time, and every access of the reader takes place at a time of its own.
`Versioned.read_eq` says that what the loop returns was in the record at one time.
-/

namespace SeqLock

variable {ρ β : Type} {version : ρ → UInt32} {count : Nat} {parts : (Nat → ρ) → β} {record : Nat → ρ}

/-- The loop of a reader with `count` accesses to the record. `now` counts the accesses so far. The
second test of the version is only made when the first one finds it even. -/
def read (version : ρ → UInt32) (count : Nat) (parts : (Nat → ρ) → β) (record : Nat → ρ) :
    Nat → Nat → Option β
  | 0, _ => none
  | fuel + 1, now =>
    if version (record (now + count + 1)) &&& 1 ≠ 0 then
      read version count parts record fuel (now + count + 2)
    else if version (record (now + count + 2)) ≠ version (record now) then
      read version count parts record fuel (now + count + 3)
    else some (parts fun access => record (now + 1 + access))

/-- How the writer writes: the version never goes back, and nothing changes as long as it has the same
even value. -/
structure Versioned (version : ρ → UInt32) (record : Nat → ρ) : Prop where
  mono : ∀ first last, first ≤ last → version (record first) ≤ version (record last)
  stable : ∀ first last, first ≤ last → version (record first) = version (record last) →
    version (record first) &&& 1 = 0 → record last = record first

/-- What the loop returns was in the record at one time during the loop. -/
theorem Versioned.read_eq (h : Versioned version record)
    (hparts : ∀ first second, (∀ access < count, first access = second access) →
      parts first = parts second)
    {fuel now : Nat} {value : β} (hread : read version count parts record fuel now = some value) :
    ∃ moment, now ≤ moment ∧ moment < now + fuel * (count + 3) ∧
      value = parts fun _ => record moment := by
  induction fuel generalizing now with
  | zero => cases hread
  | succ fuel ih =>
    rw [read] at hread
    rw [Nat.succ_mul]
    split_ifs at hread with hodd hchanged
    · obtain ⟨moment, hfrom, hto, hvalue⟩ := ih hread
      exact ⟨moment, by omega, by omega, hvalue⟩
    · obtain ⟨moment, hfrom, hto, hvalue⟩ := ih hread
      exact ⟨moment, by omega, by omega, hvalue⟩
    · obtain rfl := Option.some.inj hread
      -- the version was the same all the time, so it was even all the time
      have hsame : ∀ moment, now ≤ moment → moment ≤ now + count + 2 →
          version (record now) = version (record moment) := fun moment hfrom hto =>
        UInt32.le_antisymm (h.mono now moment hfrom) (not_not.mp hchanged ▸ h.mono moment _ hto)
      have heven : version (record now) &&& 1 = 0 := by
        rw [hsame (now + count + 1) (by omega) (by omega)]
        exact not_not.mp hodd
      refine ⟨now, Nat.le_refl now, by omega, hparts _ _ fun access haccess => ?_⟩
      exact h.stable now _ (by omega) (hsame (now + 1 + access) (by omega) (by omega)) heven

/-- The loop ends when the writer has come to rest. -/
theorem read_isSome_of_quiet {quiet : Nat}
    (hquiet : ∀ moment, quiet ≤ moment → record moment = record quiet)
    (heven : version (record quiet) &&& 1 = 0) (rounds : Nat) {now : Nat}
    (hreach : quiet ≤ now + rounds) :
    (read version count parts record (rounds + 1) now).isSome := by
  induction rounds generalizing now with
  | zero =>
    have hsame : ∀ later, record (now + later) = record quiet := fun later => hquiet _ (by omega)
    have hnow : record now = record quiet := hsame 0
    simp only [read, Nat.add_assoc, hsame, hnow, heven, ne_eq, not_true_eq_false, if_false,
      Option.isSome_some]
  | succ rounds ih =>
    rw [read]
    split_ifs
    · exact ih (by omega)
    · exact ih (by omega)
    · rfl

end SeqLock
