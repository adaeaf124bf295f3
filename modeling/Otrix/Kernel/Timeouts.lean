import Otrix.Arch.Kvmclock
import Otrix.Kernel.Scheduler.Model
import Otrix.Kernel.TimerService

/-!
# Timeouts

`scheduler::sleep` and `timer_service::add_task` turn a timeout in milliseconds into a deadline. The
multiplication by a million, the shift of the ticks and the sum with the time stamp counter wrap at 64
bits, and the division in between raises a divide error when its quotient has more. Over unbounded
numbers the deadline grows with the timeout; `Fits` says that the one for the longest timeout is still
computed without any of these.
-/

namespace Otrix

open Arch FixedPoint

/-- The deadline for a timeout, as `sleep` and `add_task` compute it. -/
def timeoutDeadline (nsToTsc : Nat → Nat) (timeoutMs tsc : Nat) : Nat :=
  u64 (tsc + nsToTsc (u64 (timeoutMs * 1000 * 1000)))

theorem sleep_deadline_eq (nsToTsc : Nat → Nat) {blockTimeMs : Nat} (hfinite : blockTimeMs ≠ infinite)
    (tsc : Nat) :
    Scheduler.sleepDeadline nsToTsc blockTimeMs tsc = timeoutDeadline nsToTsc blockTimeMs tsc :=
  if_neg hfinite

/-- The deadline of the task that `add_task` takes from the pool. -/
theorem add_task_deadline {nsToTsc : Nat → Nat} {service after : TimerService}
    {cb ctx timeoutMs tsc : Nat} (hadd : service.addTask nsToTsc cb ctx timeoutMs tsc = some after) :
    (after.descs service.taskPool).deadlineTsc = timeoutDeadline nsToTsc timeoutMs tsc := by
  obtain ⟨⟨links, pendingTasks⟩, _, hafter⟩ := Option.bind_eq_some_iff.mp hadd
  obtain rfl := Option.some.inj hafter
  show (Function.update service.descs service.taskPool _ service.taskPool).deadlineTsc = _
  rw [Function.update_self]
  rfl

namespace Arch.TscScale

variable (scale : TscScale)

/-- The clock for its callers. None of them goes on after a divide error. -/
def ticks (ns : Nat) : Nat :=
  (scale.nsToTsc ns).getD 0

/-- The deadline for a timeout when there is no limit to numbers. -/
def exactDeadline (tsc timeoutMs : Nat) : Nat :=
  tsc + scale.exactTicks (timeoutMs * 1000 * 1000)

/-- The division does not trap, and the deadline has 64 bits. -/
def Fits (tsc timeoutMs : Nat) : Prop :=
  timeoutMs * 1000 * 1000 < scale.mul.toNat * 2 ^ 32 ∧ scale.exactDeadline tsc timeoutMs < 2 ^ 64

/-- All timeouts up to this one have a deadline, which is not in the past, and a longer timeout has no
earlier one. -/
structure SafeUpTo (tsc : Nat) (deadline : Nat → Nat) (timeoutMs : Nat) : Prop where
  returns : ∀ ms ≤ timeoutMs, (scale.nsToTsc (u64 (ms * 1000 * 1000))).isSome
  notEarlier : ∀ ms ≤ timeoutMs, tsc ≤ deadline ms
  mono : ∀ shorter longer, shorter ≤ longer → longer ≤ timeoutMs → deadline shorter ≤ deadline longer

variable {scale} {tsc timeoutMs : Nat}

theorem nanoseconds_le {shorter longer : Nat} (hle : shorter ≤ longer) :
    shorter * 1000 * 1000 ≤ longer * 1000 * 1000 :=
  Nat.mul_le_mul_right _ (Nat.mul_le_mul_right _ hle)

/-- A timeout whose quotient fits does not wrap when it is multiplied. -/
theorem nanoseconds_lt (hquotient : timeoutMs * 1000 * 1000 < scale.mul.toNat * 2 ^ 32) :
    timeoutMs * 1000 * 1000 < 2 ^ 64 := by
  have hmul := scale.mul.toNat_lt
  omega

theorem quotient_lt_iff_lt (hmul : 0 < scale.mul.toNat) (ns : Nat) :
    scale.quotient ns < 2 ^ 64 ↔ ns < scale.mul.toNat * 2 ^ 32 := by
  rw [quotient_lt_iff scale hmul, Nat.div_lt_iff_lt_mul (by decide)]

theorem ns_to_tsc_timeout (hmul : 0 < scale.mul.toNat)
    (hquotient : timeoutMs * 1000 * 1000 < scale.mul.toNat * 2 ^ 32) :
    scale.nsToTsc (u64 (timeoutMs * 1000 * 1000)) =
      some (u64 (scale.exactTicks (timeoutMs * 1000 * 1000))) := by
  have hns := nanoseconds_lt hquotient
  rw [u64_of_lt hns]
  exact scale.ns_to_tsc_eq hmul hns ((quotient_lt_iff_lt hmul _).mpr hquotient)

theorem timeout_deadline_eq (hmul : 0 < scale.mul.toNat)
    (hquotient : timeoutMs * 1000 * 1000 < scale.mul.toNat * 2 ^ 32) (tsc : Nat) :
    timeoutDeadline scale.ticks timeoutMs tsc = u64 (scale.exactDeadline tsc timeoutMs) := by
  rw [timeoutDeadline, ticks, ns_to_tsc_timeout hmul hquotient, Option.getD_some, u64, u64,
    Nat.add_mod_mod]
  rfl

theorem exact_deadline_mono (tsc : Nat) {shorter longer : Nat} (hle : shorter ≤ longer) :
    scale.exactDeadline tsc shorter ≤ scale.exactDeadline tsc longer :=
  Nat.add_le_add_left (scale.exact_ticks_mono (nanoseconds_le hle)) tsc

/-- Up to a timeout that fits, all deadlines are exact. -/
theorem Fits.safe (hmul : 0 < scale.mul.toNat) (hfits : scale.Fits tsc timeoutMs) :
    scale.SafeUpTo tsc (fun ms => timeoutDeadline scale.ticks ms tsc) timeoutMs := by
  obtain ⟨hquotient, hlast⟩ := hfits
  have hquotient' : ∀ ms ≤ timeoutMs, ms * 1000 * 1000 < scale.mul.toNat * 2 ^ 32 :=
    fun ms hle => Nat.lt_of_le_of_lt (nanoseconds_le hle) hquotient
  have hexact : ∀ ms ≤ timeoutMs,
      timeoutDeadline scale.ticks ms tsc = scale.exactDeadline tsc ms := by
    intro ms hle
    have hlt := Nat.lt_of_le_of_lt (scale.exact_deadline_mono tsc hle) hlast
    rw [timeout_deadline_eq hmul (hquotient' ms hle), u64_of_lt hlt]
  refine ⟨fun ms hle => ?_, fun ms hle => ?_, fun shorter longer hle hlonger => ?_⟩
  · rw [ns_to_tsc_timeout hmul (hquotient' ms hle)]
    rfl
  · show tsc ≤ timeoutDeadline scale.ticks ms tsc
    rw [hexact ms hle]
    exact Nat.le_add_right _ _
  · show timeoutDeadline scale.ticks shorter tsc ≤ timeoutDeadline scale.ticks longer tsc
    rw [hexact shorter (Nat.le_trans hle hlonger), hexact longer hlonger]
    exact scale.exact_deadline_mono tsc hle

/-- When no timeout up to this one traps, its nanoseconds are below the limit of the clock. The first
one that is not is still multiplied without wrapping. -/
theorem lt_of_returns (hmul : 0 < scale.mul.toNat)
    (hreturns : ∀ ms ≤ timeoutMs, (scale.nsToTsc (u64 (ms * 1000 * 1000))).isSome) :
    timeoutMs * 1000 * 1000 < scale.mul.toNat * 2 ^ 32 := by
  by_contra hlimit
  have hmul' := scale.mul.toNat_lt
  let first := (scale.mul.toNat * 2 ^ 32 + 999999) / 1000000
  have hfirst : first ≤ timeoutMs := by omega
  have hover : scale.mul.toNat * 2 ^ 32 ≤ first * 1000 * 1000 := by omega
  have hns : first * 1000 * 1000 < 2 ^ 64 := by omega
  have htraps : scale.nsToTsc (u64 (first * 1000 * 1000)) = none := by
    rw [u64_of_lt hns]
    refine scale.ns_to_tsc_eq_none hns (Nat.le_of_not_lt fun hquotient => ?_)
    exact Nat.not_lt.mpr hover ((quotient_lt_iff_lt hmul _).mp hquotient)
  have hsome := hreturns first hfirst
  rw [htraps] at hsome
  cases hsome

/-- The ticks of a millisecond, rounded up. -/
def tickBound (scale : TscScale) : Nat :=
  (scale.quotient (1000 * 1000) + 1) * 2 ^ (-scale.usedShift).toNat

/-- One more millisecond adds at most these ticks. -/
theorem exact_deadline_succ_le (hmul : 0 < scale.mul.toNat) (tsc ms : Nat) :
    scale.exactDeadline tsc (ms + 1) ≤ scale.exactDeadline tsc ms + scale.tickBound := by
  have hns : (ms + 1) * 1000 * 1000 = ms * 1000 * 1000 + 1000 * 1000 := by
    rw [Nat.add_mul, Nat.add_mul, Nat.one_mul]
  have hquotient : scale.quotient ((ms + 1) * 1000 * 1000) ≤
      scale.quotient (ms * 1000 * 1000) + (scale.quotient (1000 * 1000) + 1) := by
    rw [hns]
    exact scale_add_le hmul _ _
  have hticks : scale.exactTicks ((ms + 1) * 1000 * 1000) ≤
      scale.exactTicks (ms * 1000 * 1000) + scale.tickBound :=
    Nat.le_trans (shift_mono _ hquotient) (shift_add_le _ _ _)
  rw [exactDeadline, exactDeadline, Nat.add_assoc]
  exact Nat.add_le_add_left hticks tsc

/-- When a millisecond has less than `2 ^ 64` ticks, timeouts are safe only as far as they fit: the
first deadline that does not wraps to one that is earlier. -/
theorem SafeUpTo.fits (hmul : 0 < scale.mul.toNat) (htsc : tsc < 2 ^ 64)
    (hrate : scale.tickBound < 2 ^ 64)
    (hsafe : scale.SafeUpTo tsc (fun ms => timeoutDeadline scale.ticks ms tsc) timeoutMs) :
    scale.Fits tsc timeoutMs := by
  have hlimit := lt_of_returns hmul hsafe.returns
  have hlimit' : ∀ ms ≤ timeoutMs, ms * 1000 * 1000 < scale.mul.toNat * 2 ^ 32 :=
    fun ms hle => Nat.lt_of_le_of_lt (nanoseconds_le hle) hlimit
  refine ⟨hlimit, ?_⟩
  -- by induction on the timeout: every deadline is exact, starting with the one for 0
  have hexact : ∀ ms ≤ timeoutMs, scale.exactDeadline tsc ms < 2 ^ 64 := by
    intro ms
    induction ms with
    | zero =>
      intro _
      simpa [exactDeadline, exactTicks, quotient, FixedPoint.scale] using htsc
    | succ ms ih =>
      intro hle
      have hbefore := ih (Nat.le_of_succ_le hle)
      have hstep := scale.exact_deadline_succ_le hmul tsc ms
      have hmono := hsafe.mono ms (ms + 1) (Nat.le_succ ms) hle
      rw [timeout_deadline_eq hmul (hlimit' ms (Nat.le_of_succ_le hle)),
        timeout_deadline_eq hmul (hlimit' (ms + 1) hle), u64_of_lt hbefore] at hmono
      by_contra hwraps
      have hgrows := scale.exact_deadline_mono tsc (Nat.le_succ ms)
      unfold u64 at hmono
      omega
  exact hexact timeoutMs (Nat.le_refl timeoutMs)

end Arch.TscScale

open TscScale

/-- Up to a timeout that fits, no timeout raises a divide error, no deadline is in the past, and a
longer timeout has no earlier deadline. On a clock with less than `2 ^ 64` ticks in a millisecond this
holds only up to a timeout that fits, and on every clock divide errors are missing only up to the limit
of the division. The deadlines are those of `sleep` and of `add_task`. -/
theorem timeouts_safe_iff (scale : TscScale) (hmul : 0 < scale.mul.toNat) {tsc : Nat}
    (htsc : tsc < 2 ^ 64) (timeoutMs : Nat) :
    (scale.Fits tsc timeoutMs →
      scale.SafeUpTo tsc (fun ms => timeoutDeadline scale.ticks ms tsc) timeoutMs) ∧
    (scale.tickBound < 2 ^ 64 →
      (scale.SafeUpTo tsc (fun ms => timeoutDeadline scale.ticks ms tsc) timeoutMs ↔
        scale.Fits tsc timeoutMs)) ∧
    ((∀ ms ≤ timeoutMs, (scale.nsToTsc (u64 (ms * 1000 * 1000))).isSome) ↔
      timeoutMs * 1000 * 1000 < scale.mul.toNat * 2 ^ 32) ∧
    (∀ ms, ms ≠ infinite →
      Scheduler.sleepDeadline scale.ticks ms tsc = timeoutDeadline scale.ticks ms tsc) ∧
    ∀ (service after : TimerService) (cb ctx ms : Nat),
      service.addTask scale.ticks cb ctx ms tsc = some after →
        (after.descs service.taskPool).deadlineTsc = timeoutDeadline scale.ticks ms tsc := by
  refine ⟨Fits.safe hmul, fun hrate => ⟨SafeUpTo.fits hmul htsc hrate, Fits.safe hmul⟩, ?_,
    fun ms hfinite => sleep_deadline_eq _ hfinite tsc, fun _ _ _ _ _ => add_task_deadline⟩
  refine ⟨lt_of_returns hmul, fun hlimit ms hle => ?_⟩
  rw [ns_to_tsc_timeout hmul (Nat.lt_of_le_of_lt (nanoseconds_le hle) hlimit)]
  rfl

/-- A minute on a counter with 2.5 ticks for a nanosecond. -/
theorem timeouts_safe_minute :
    TscScale.SafeUpTo ⟨3435973836, -1⟩ 1000000
      (fun ms => timeoutDeadline (TscScale.ticks ⟨3435973836, -1⟩) ms 1000000) 60000 := by
  have h := timeouts_safe_iff ⟨3435973836, -1⟩ (by decide) (show 1000000 < 2 ^ 64 by decide) 60000
  exact h.1 ⟨by decide, by decide +kernel⟩

/-- On every clock there is a finite timeout that raises a divide error. On the counter with 2.5 ticks
for a nanosecond, seven million million milliseconds have a later deadline than eight, and after half
of the range of the counter, four million million milliseconds are over before they have begun. -/
theorem long_timeout_traps :
    (∀ scale : TscScale, 0 < scale.mul.toNat →
      scale.nsToTsc (u64 (18446744073709 * 1000 * 1000)) = none) ∧
    Scheduler.sleepDeadline (TscScale.ticks ⟨3435973836, -1⟩) 8000000000000 0 <
      Scheduler.sleepDeadline (TscScale.ticks ⟨3435973836, -1⟩) 7000000000000 0 ∧
    Scheduler.sleepDeadline (TscScale.ticks ⟨3435973836, -1⟩) 4000000000000 (2 ^ 63) < 2 ^ 63 := by
  refine ⟨fun scale hmul => ?_, by decide +kernel, by decide +kernel⟩
  have hmul' := scale.mul.toNat_lt
  have hns : (18446744073709 * 1000 * 1000 : Nat) < 2 ^ 64 := by decide
  rw [u64_of_lt hns]
  refine scale.ns_to_tsc_eq_none hns (Nat.le_of_not_lt fun hquotient => ?_)
  have hlt := (quotient_lt_iff_lt hmul _).mp hquotient
  omega

end Otrix
