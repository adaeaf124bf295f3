import Mathlib.Data.Fintype.Pigeonhole
import Mathlib.Data.Nat.Count
import Mathlib.Logic.Function.Iterate

/-!
# Walks over finite graphs

A walk follows a function from place to place. On finitely many places it comes back to one it has been
at, and goes round from there on. `forall_iff_exists_cycle` characterises the walks that never leave the
places that are alive and count fewer than a bound of the places that count.
-/

namespace Walk

variable {α : Type*} {next : α → α} {start : α}

/-- What holds all the way round a cycle holds from there on. -/
theorem forall_of_cycle (holds : α → Prop) {first last : Nat} (hlt : first < last)
    (hcycle : next^[first] start = next^[last] start)
    (hround : ∀ k, first ≤ k → k < last → holds (next^[k] start)) :
    ∀ k, first ≤ k → holds (next^[k] start) := by
  intro k
  induction k using Nat.strong_induction_on with
  | _ k ih =>
    intro hle
    by_cases hbefore : k < last
    · exact hround k hle hbefore
    · -- one round earlier the walk was at the same place
      have hback : next^[k] start = next^[k - last + first] start := by
        rw [Function.iterate_add_apply, hcycle, ← Function.iterate_add_apply,
          Nat.sub_add_cancel (Nat.le_of_not_lt hbefore)]
      rw [hback]
      exact ih _ (by omega) (by omega)

/-- On finitely many places every walk comes back, however late one looks. -/
theorem exists_cycle [Finite α] (next : α → α) (start : α) (late : Nat) :
    ∃ first last, late ≤ first ∧ first < last ∧ next^[first] start = next^[last] start := by
  obtain ⟨i, j, hne, heq⟩ := Finite.exists_ne_map_eq_of_infinite fun k => next^[late + k] start
  rcases Nat.lt_or_gt_of_ne hne with hlt | hlt
  · exact ⟨late + i, late + j, by omega, by omega, heq⟩
  · exact ⟨late + j, late + i, by omega, by omega, heq.symm⟩

/-- If the number of places that count stays below a bound, none counts from some point on. -/
theorem exists_forall_not {counted : Nat → Prop} [DecidablePred counted] {bound : Nat}
    (hbound : ∀ k, Nat.count counted k < bound) : ∃ late, ∀ k, late ≤ k → ¬ counted k := by
  by_contra hnone
  have hmore : ∀ k, ∃ later, k ≤ later ∧ counted later := by
    intro k
    by_contra hnot
    exact hnone ⟨k, fun j hle hcounted => hnot ⟨j, hle, hcounted⟩⟩
  have hunbounded : ∀ n, ∃ k, n ≤ Nat.count counted k := by
    intro n
    induction n with
    | zero => exact ⟨0, Nat.zero_le _⟩
    | succ n ih =>
      obtain ⟨k, hle⟩ := ih
      obtain ⟨later, hlater, hcounted⟩ := hmore k
      refine ⟨later + 1, ?_⟩
      rw [Nat.count_succ, if_pos hcounted]
      exact Nat.succ_le_succ (Nat.le_trans hle (Nat.count_monotone counted hlater))
  obtain ⟨k, hle⟩ := hunbounded bound
  exact absurd (hbound k) (Nat.not_lt.mpr hle)

theorem count_eq_of_not {counted : Nat → Prop} [DecidablePred counted] {first : Nat}
    (hnot : ∀ k, first ≤ k → ¬ counted k) {k : Nat} (hle : first ≤ k) :
    Nat.count counted k = Nat.count counted first := by
  induction k, hle using Nat.le_induction with
  | base => rfl
  | succ k hle ih => rw [Nat.count_succ, if_neg (hnot k hle), ih, Nat.add_zero]

/-- A walk goes on for ever, at places that are alive and with fewer than `bound` places that count,
exactly if it reaches a cycle of places that are alive and do not count. -/
theorem forall_iff_exists_cycle [Finite α] (next : α → α) (start : α) (alive counted : α → Prop)
    [DecidablePred counted] (bound : Nat) :
    (∀ k, alive (next^[k + 1] start) ∧
      Nat.count (fun j => counted (next^[j] start)) (k + 1) < bound) ↔
    ∃ first last, first < last ∧ next^[first] start = next^[last] start ∧
      (∀ k, 0 < k → k ≤ last → alive (next^[k] start)) ∧
      Nat.count (fun j => counted (next^[j] start)) first < bound ∧
      ∀ k, first ≤ k → k < last → ¬ counted (next^[k] start) := by
  constructor
  · intro hforever
    have hbound : ∀ k, Nat.count (fun j => counted (next^[j] start)) k < bound := fun k =>
      Nat.lt_of_le_of_lt (Nat.count_monotone _ (Nat.le_succ k)) (hforever k).2
    obtain ⟨late, hlate⟩ := exists_forall_not hbound
    obtain ⟨first, last, hle, hlt, hcycle⟩ := exists_cycle next start late
    refine ⟨first, last, hlt, hcycle, fun k hpos _ => ?_, hbound first, fun k hfirst _ => ?_⟩
    · have halive := (hforever (k - 1)).1
      rwa [Nat.sub_add_cancel hpos] at halive
    · exact hlate k (Nat.le_trans hle hfirst)
  · rintro ⟨first, last, hlt, hcycle, halive, hcount, hnot⟩ k
    have hnever : ∀ k, first ≤ k → ¬ counted (next^[k] start) :=
      forall_of_cycle (fun place => ¬ counted place) hlt hcycle hnot
    have hlive : ∀ k, first + 1 ≤ k → alive (next^[k] start) := by
      have hshift : next^[first + 1] start = next^[last + 1] start := by
        rw [Function.iterate_succ_apply', Function.iterate_succ_apply', hcycle]
      refine forall_of_cycle alive (Nat.succ_lt_succ hlt) hshift fun j hfirst hlast => ?_
      exact halive j (Nat.lt_of_lt_of_le (Nat.succ_pos first) hfirst) (Nat.le_of_lt_succ hlast)
    by_cases hle : first ≤ k + 1
    · constructor
      · rcases Nat.lt_or_eq_of_le hle with hless | heq
        · exact hlive (k + 1) hless
        · exact halive (k + 1) (Nat.succ_pos k) (by omega)
      · rw [count_eq_of_not hnever hle]
        exact hcount
    · refine ⟨halive (k + 1) (Nat.succ_pos k) (by omega), ?_⟩
      exact Nat.lt_of_le_of_lt (Nat.count_monotone _ (Nat.le_of_not_le hle)) hcount

end Walk
