import Otrix.Common.Word
import Otrix.Foundation.FixedPoint
import Otrix.Foundation.SeqLock

/-!
# The paravirtual clock

`arch/x86_64/kvmclock.cpp`. The hypervisor tells how many nanoseconds a tick of the time stamp counter
takes, as a multiplier with 32 bits behind the point and a signed shift. `ns_to_tsc` divides by it and
`systime_ns` multiplies, with the 128-bit instructions of the processor, given here as the inline
assembly uses them. `divq` raises a divide error when the quotient has more than 64 bits.

The hypervisor may rewrite `time_info` at any time. `readScale` is the loop that reads it again until
the version is even and has not changed, and `systime_ns` and `boottime_ns` have the same loop over
other fields. What a loop returns was in memory at one time (`clock_is_not_torn`).
-/

namespace Otrix.Arch

open FixedPoint

/-! ## Instructions -/

/-- `shl`, or `<<` on a `uint64_t`. The processor uses the low six bits of the count. -/
def shl (value count : Nat) : Nat :=
  u64 (value * 2 ^ (count % 64))

/-- `shr`, or `>>` on a `uint64_t`. -/
def shr (value count : Nat) : Nat :=
  value / 2 ^ (count % 64)

/-- `shld`: the destination is shifted left and filled with the high bits of the source. -/
def shld (count source destination : Nat) : Nat :=
  u64 ((destination * 2 ^ 64 + source) * 2 ^ (count % 64) / 2 ^ 64)

/-- `shrd`: the destination is shifted right and filled with the low bits of the source. -/
def shrd (count source destination : Nat) : Nat :=
  u64 ((source * 2 ^ 64 + destination) / 2 ^ (count % 64))

/-- `divq`: the quotient of `rdx:rax`, or a divide error. -/
def divq (rdx rax divisor : Nat) : Option Nat :=
  if divisor = 0 ∨ 2 ^ 64 ≤ (rdx * 2 ^ 64 + rax) / divisor then none
  else some ((rdx * 2 ^ 64 + rax) / divisor)

/-- `mulq`: the product in `rdx` and `rax`. -/
def mulq (rax factor : Nat) : Nat × Nat :=
  (rax * factor / 2 ^ 64, u64 (rax * factor))

/-! ## The clock -/

/-- `pvclock_vcpu_time_info`, without its flags. -/
structure PvclockVcpuTimeInfo where
  version : UInt32
  tscTimestamp : UInt64
  systemTime : UInt64
  tscToSystemMul : UInt32
  tscShift : Int8

/-- The rate of the time stamp counter. -/
structure TscScale where
  mul : UInt32
  shift : Int8

/-- The loop of `ns_to_tsc` over the contents of `time_info` at the times of its reads. `now`
counts the reads so far. The second test of the version is only made when the first one finds it even. -/
def readScale (timeInfo : Nat → PvclockVcpuTimeInfo) : Nat → Nat → Option TscScale
  | 0, _ => none
  | fuel + 1, now =>
    let version := (timeInfo now).version
    let scale : TscScale := ⟨(timeInfo (now + 1)).tscToSystemMul, (timeInfo (now + 2)).tscShift⟩
    if (timeInfo (now + 3)).version &&& 1 ≠ 0 then readScale timeInfo fuel (now + 4)
    else if (timeInfo (now + 4)).version ≠ version then readScale timeInfo fuel (now + 5)
    else some scale

namespace TscScale

/-- The inline assembly of `ns_to_tsc`, with `ns` in `rax` and `0` in `rdx`. -/
def divide (scale : TscScale) (ns : Nat) : Option Nat :=
  let rdx := shld 32 ns 0
  let rax := shl ns 32
  divq rdx rax scale.mul.toNat

/-- `ns_to_tsc` behind its loop. `none` is a divide error. -/
def nsToTsc (scale : TscScale) (ns : Nat) : Option Nat := do
  let ticks ← scale.divide ns
  if scale.shift.toInt < 0 then some (shl ticks (-scale.shift.toInt).toNat)
  else some (shr ticks scale.shift.toInt.toNat)

/-- The conversion in `systime_ns`: of the ticks since `tsc_timestamp` to nanoseconds. -/
def tscToNs (scale : TscScale) (ticks : Nat) : Nat :=
  let time :=
    if scale.shift.toInt < 0 then shr ticks (-scale.shift.toInt).toNat
    else shl ticks scale.shift.toInt.toNat
  let (hi, lo) := mulq time scale.mul.toNat
  shrd 32 hi lo

/-- The ticks for a number of nanoseconds, before the shift, when there is no limit to numbers. -/
def quotient (scale : TscScale) (ns : Nat) : Nat :=
  FixedPoint.scale (2 ^ 32) scale.mul.toNat ns

/-- `tsc_shift` as the processor uses it. The language leaves it open what a shift by more than 63
does. -/
def usedShift (scale : TscScale) : Int :=
  if scale.shift.toInt < 0 then -((-scale.shift.toInt).toNat % 64 : Nat)
  else (scale.shift.toInt.toNat % 64 : Nat)

/-- The ticks for a number of nanoseconds, when there is no limit to numbers. -/
def exactTicks (scale : TscScale) (ns : Nat) : Nat :=
  FixedPoint.shift (-scale.usedShift) (scale.quotient ns)

/-- The ticks after the shift of `systime_ns`, when there is no limit to numbers. -/
def exactTime (scale : TscScale) (ticks : Nat) : Nat :=
  FixedPoint.shift scale.usedShift ticks

/-- The nanoseconds for a number of ticks, when there is no limit to numbers. -/
def exactNs (scale : TscScale) (ticks : Nat) : Nat :=
  FixedPoint.scale scale.mul.toNat (2 ^ 32) (scale.exactTime ticks)

end TscScale

/-- `systime_ns` behind its loop, at a reading of the time stamp counter. -/
def PvclockVcpuTimeInfo.systimeNs (info : PvclockVcpuTimeInfo) (currentTsc : Nat) : Nat :=
  let time := sub64 currentTsc info.tscTimestamp.toNat
  u64 (TscScale.tscToNs ⟨info.tscToSystemMul, info.tscShift⟩ time + info.systemTime.toNat)

/-- `pvclock_wall_clock`. -/
structure PvclockWallClock where
  version : UInt32
  sec : UInt32
  nsec : UInt32

/-- `boottime_ns` behind its loop. The sum is one of `uint32_t`, and in milliseconds. -/
def PvclockWallClock.boottimeNs (wall : PvclockWallClock) : Nat :=
  (wall.sec * 1000 + wall.nsec / 1000000).toNat

/-! ## What the loops read -/

/-- `systime_ns` with its loop, which reads four fields one after the other. -/
def systimeNs (timeInfo : Nat → PvclockVcpuTimeInfo) (currentTsc fuel now : Nat) : Option Nat :=
  SeqLock.read PvclockVcpuTimeInfo.version 4 (fun read => PvclockVcpuTimeInfo.systimeNs
    { read 0 with
      systemTime := (read 1).systemTime
      tscToSystemMul := (read 2).tscToSystemMul
      tscShift := (read 3).tscShift } currentTsc) timeInfo fuel now

/-- `boottime_ns` with its loop. -/
def boottimeNs (wallClock : Nat → PvclockWallClock) (fuel now : Nat) : Option Nat :=
  SeqLock.read PvclockWallClock.version 2 (fun read => PvclockWallClock.boottimeNs
    { read 0 with nsec := (read 1).nsec }) wallClock fuel now

/-- The loop of `ns_to_tsc` reads two fields. -/
theorem read_scale_eq (timeInfo : Nat → PvclockVcpuTimeInfo) (fuel now : Nat) :
    readScale timeInfo fuel now = SeqLock.read PvclockVcpuTimeInfo.version 2
      (fun read => ⟨(read 0).tscToSystemMul, (read 1).tscShift⟩) timeInfo fuel now := by
  induction fuel generalizing now with
  | zero => rfl
  | succ fuel ih => simp only [readScale, SeqLock.read, ih, Nat.add_assoc, Nat.reduceAdd, Nat.add_zero]

/-- Whenever the hypervisor writes, the rate that `ns_to_tsc` reads and the times that `systime_ns` and
`boottime_ns` compute are those of one content of the record that was there during the call. All calls
return when the hypervisor has come to rest. -/
theorem clock_is_not_torn {timeInfo : Nat → PvclockVcpuTimeInfo} {wallClock : Nat → PvclockWallClock}
    (htime : SeqLock.Versioned PvclockVcpuTimeInfo.version timeInfo)
    (hwall : SeqLock.Versioned PvclockWallClock.version wallClock) (now : Nat) :
    (∀ fuel scale, readScale timeInfo fuel now = some scale →
      ∃ moment, now ≤ moment ∧ moment < now + fuel * 5 ∧
        scale = ⟨(timeInfo moment).tscToSystemMul, (timeInfo moment).tscShift⟩) ∧
    (∀ currentTsc fuel time, systimeNs timeInfo currentTsc fuel now = some time →
      ∃ moment, now ≤ moment ∧ moment < now + fuel * 7 ∧ time = (timeInfo moment).systimeNs currentTsc) ∧
    (∀ fuel time, boottimeNs wallClock fuel now = some time →
      ∃ moment, now ≤ moment ∧ moment < now + fuel * 5 ∧ time = (wallClock moment).boottimeNs) ∧
    ∀ quiet, (∀ moment, quiet ≤ moment → timeInfo moment = timeInfo quiet) →
      (∀ moment, quiet ≤ moment → wallClock moment = wallClock quiet) →
      (timeInfo quiet).version &&& 1 = 0 → (wallClock quiet).version &&& 1 = 0 →
      (readScale timeInfo (quiet + 1) now).isSome ∧
        (∀ currentTsc, (systimeNs timeInfo currentTsc (quiet + 1) now).isSome) ∧
        (boottimeNs wallClock (quiet + 1) now).isSome := by
  refine ⟨fun fuel scale hread => ?_, fun currentTsc fuel time hread => ?_, fun fuel time hread => ?_,
    fun quiet hquiet hrest heven heven' => ⟨?_, fun currentTsc => ?_, ?_⟩⟩
  · rw [read_scale_eq] at hread
    exact htime.read_eq (fun first second hsame => by simp [hsame]) hread
  · exact htime.read_eq (fun first second hsame => by simp [hsame]) hread
  · exact hwall.read_eq (fun first second hsame => by simp [hsame]) hread
  · rw [read_scale_eq]
    exact SeqLock.read_isSome_of_quiet hquiet heven quiet (by omega)
  · exact SeqLock.read_isSome_of_quiet hquiet heven quiet (by omega)
  · exact SeqLock.read_isSome_of_quiet hrest heven' quiet (by omega)

/-- The hypervisor writes while the first round of the loop is going on, and the second round returns
what it has written. -/
theorem clock_is_not_torn_rewritten :
    let timeInfo := fun moment : Nat =>
      if moment < 2 then PvclockVcpuTimeInfo.mk 2 0 0 7 1 else ⟨4, 5, 9, 8, 2⟩
    readScale timeInfo 2 0 = some ⟨8, 2⟩ ∧ ∃ moment, 0 ≤ moment ∧ moment < 10 ∧
      TscScale.mk 8 2 = ⟨(timeInfo moment).tscToSystemMul, (timeInfo moment).tscShift⟩ := by
  intro timeInfo
  have htime : SeqLock.Versioned PvclockVcpuTimeInfo.version timeInfo := by
    refine ⟨fun first last hle => ?_, fun first last hle heq _ => ?_⟩ <;> simp only [timeInfo] at *
    · split_ifs <;> first | decide | omega
    · split_ifs at heq ⊢ <;> first | rfl | omega | cases heq
  have hwall : SeqLock.Versioned PvclockWallClock.version fun _ => ⟨2, 0, 0⟩ :=
    ⟨fun _ _ _ => UInt32.le_refl _, fun _ _ _ _ _ => rfl⟩
  have hread : readScale timeInfo 2 0 = some ⟨8, 2⟩ := by
    simp [readScale, timeInfo, show (4 &&& 1 : UInt32) = 0 by decide]
  exact ⟨hread, (clock_is_not_torn htime hwall 0).1 2 ⟨8, 2⟩ hread⟩

/-! ## What the instructions compute -/

section Conversions

variable (scale : TscScale)

theorem TscScale.used_shift_of_lt (hshift : scale.shift.toInt.natAbs < 64) :
    scale.usedShift = scale.shift.toInt := by
  unfold TscScale.usedShift
  split <;> omega

/-- A shift of a word to the left, up to the bits that it loses. -/
theorem shl_eq_shift (value count : Nat) :
    shl value count = u64 (FixedPoint.shift (count % 64 : Nat) value) := by
  have hleft : ¬ ((count % 64 : Nat) : Int) < 0 := by omega
  rw [shl, FixedPoint.shift, if_neg hleft, Int.toNat_natCast]

theorem shr_eq_shift {value : Nat} (hvalue : value < 2 ^ 64) (count : Nat) :
    shr value count = u64 (FixedPoint.shift (-(count % 64 : Nat)) value) := by
  rw [shr, FixedPoint.shift]
  split
  · rw [Int.neg_neg, Int.toNat_natCast, u64_of_lt (Nat.lt_of_le_of_lt (Nat.div_le_self _ _) hvalue)]
  · have hnone : count % 64 = 0 := by omega
    rw [hnone, Int.natCast_zero, Int.neg_zero, Int.toNat_zero, Nat.pow_zero, Nat.div_one,
      Nat.mul_one, u64_of_lt hvalue]

variable {ticks : Nat}

/-- The two shifts of `ns_to_tsc` are one, up to the bits that a shift to the left loses. -/
theorem TscScale.shift_ticks_eq (hticks : ticks < 2 ^ 64) :
    (if scale.shift.toInt < 0 then shl ticks (-scale.shift.toInt).toNat
      else shr ticks scale.shift.toInt.toNat) = u64 (FixedPoint.shift (-scale.usedShift) ticks) := by
  unfold TscScale.usedShift
  split
  · rw [Int.neg_neg]
    exact shl_eq_shift _ _
  · exact shr_eq_shift hticks _

/-- The two shifts of `systime_ns` are one, up to the bits that a shift to the left loses. -/
theorem TscScale.shift_time_eq (hticks : ticks < 2 ^ 64) :
    (if scale.shift.toInt < 0 then shr ticks (-scale.shift.toInt).toNat
      else shl ticks scale.shift.toInt.toNat) = u64 (scale.exactTime ticks) := by
  unfold TscScale.exactTime TscScale.usedShift
  split
  · exact shr_eq_shift hticks _
  · exact shl_eq_shift _ _

variable {ns : Nat}

/-- The assembly divides the exact product, and traps when the quotient is too long. -/
theorem TscScale.divide_eq (hns : ns < 2 ^ 64) :
    scale.divide ns = if scale.mul.toNat = 0 ∨ 2 ^ 64 ≤ scale.quotient ns then none
      else some (scale.quotient ns) := by
  have hdividend : shld 32 ns 0 * 2 ^ 64 + shl ns 32 = ns * 2 ^ 32 := by
    have hhigh : ns * 2 ^ 32 / 2 ^ 64 < 2 ^ 64 := by omega
    simp only [shld, shl, Nat.zero_mul, Nat.zero_add, Nat.reduceMod, u64_of_lt hhigh]
    exact Nat.div_add_mod' (ns * 2 ^ 32) (2 ^ 64)
  simp only [TscScale.divide, divq, hdividend]
  rfl

/-- The quotient fits exactly when the high part of the dividend is below the divisor. -/
theorem TscScale.quotient_lt_iff (hmul : 0 < scale.mul.toNat) (ns : Nat) :
    scale.quotient ns < 2 ^ 64 ↔ ns / 2 ^ 32 < scale.mul.toNat := by
  rw [TscScale.quotient, scale_lt_iff hmul, Nat.div_lt_iff_lt_mul (by decide)]
  omega

/-- `ns_to_tsc` gives the exact number of ticks, up to the bits that the shift loses, when the quotient
has 64 bits. -/
theorem TscScale.ns_to_tsc_eq (hmul : 0 < scale.mul.toNat) (hns : ns < 2 ^ 64)
    (hquotient : scale.quotient ns < 2 ^ 64) :
    scale.nsToTsc ns = some (u64 (scale.exactTicks ns)) := by
  have hnot : ¬ (scale.mul.toNat = 0 ∨ 2 ^ 64 ≤ scale.quotient ns) := by omega
  rw [TscScale.exactTicks, ← scale.shift_ticks_eq hquotient]
  simp only [TscScale.nsToTsc, scale.divide_eq hns, if_neg hnot, Option.bind_eq_bind,
    Option.bind_some, apply_ite some]

/-- `ns_to_tsc` raises a divide error when the quotient has more than 64 bits. -/
theorem TscScale.ns_to_tsc_eq_none (hns : ns < 2 ^ 64)
    (hquotient : 2 ^ 64 ≤ scale.quotient ns) : scale.nsToTsc ns = none := by
  simp only [TscScale.nsToTsc, scale.divide_eq hns, if_pos (Or.inr hquotient), Option.bind_eq_bind,
    Option.bind_none]

/-- The conversion back is the exact one when the shifted ticks and the result have 64 bits. -/
theorem TscScale.tsc_to_ns_eq (hticks : ticks < 2 ^ 64)
    (htime : scale.exactTime ticks < 2 ^ 64) (hns : scale.exactNs ticks < 2 ^ 64) :
    scale.tscToNs ticks = scale.exactNs ticks := by
  have hmulq : ∀ time, shrd 32 (mulq time scale.mul.toNat).1 (mulq time scale.mul.toNat).2 =
      u64 (FixedPoint.scale scale.mul.toNat (2 ^ 32) time) := by
    intro time
    simp only [shrd, mulq, u64, Nat.div_add_mod', FixedPoint.scale, Nat.reduceMod]
  have hshifted := (scale.shift_time_eq hticks).trans (u64_of_lt htime)
  rw [← u64_of_lt hns, TscScale.exactNs, ← hmulq, ← hshifted]
  rfl

theorem TscScale.exact_ticks_mono {ns longer : Nat} (hle : ns ≤ longer) :
    scale.exactTicks ns ≤ scale.exactTicks longer :=
  shift_mono _ (scale_mono _ _ hle)

end Conversions

/-! ## There and back -/

/-- The numbers on the way from nanoseconds to ticks and back have 64 bits wherever the instructions
keep 64, so that the ticks and the nanoseconds are the exact ones. -/
structure TscScale.Exact (scale : TscScale) (ns ticks : Nat) : Prop where
  quotient_lt : scale.quotient ns < 2 ^ 64
  ticks_eq : ticks = scale.exactTicks ns
  ticks_lt : ticks < 2 ^ 64
  time_lt : scale.exactTime ticks < 2 ^ 64
  ns_lt : scale.exactNs ticks < 2 ^ 64
  ns_eq : scale.tscToNs ticks = scale.exactNs ticks

/-- A time whose quotient fits and whose shift to the left loses no bits is converted to ticks without
a divide error, and back to a time that is at most `2 ^ max(tsc_shift, 0)` shorter. No number on the
way is truncated, and no shorter time has more ticks. -/
theorem clock_round_trip (scale : TscScale) (hmul : 0 < scale.mul.toNat)
    (hshift : scale.shift.toInt.natAbs < 64) {ns : Nat} (hns : ns < 2 ^ 64)
    (hhigh : ns / 2 ^ 32 < scale.mul.toNat)
    (hkept : scale.shift.toInt < 0 →
      scale.quotient ns * 2 ^ (-scale.shift.toInt).toNat < 2 ^ 64) :
    ∃ ticks, scale.nsToTsc ns = some ticks ∧ scale.Exact ns ticks ∧
      scale.tscToNs ticks ≤ ns ∧
      ns ≤ scale.tscToNs ticks + 2 ^ (max scale.shift.toInt 0).toNat ∧
      ∀ shorter ≤ ns, ∃ fewer, scale.nsToTsc shorter = some fewer ∧ fewer ≤ ticks := by
  have hused := scale.used_shift_of_lt hshift
  have hquotient : scale.quotient ns < 2 ^ 64 := (scale.quotient_lt_iff hmul ns).mpr hhigh
  have hticks : scale.exactTicks ns < 2 ^ 64 := by
    rw [TscScale.exactTicks, hused, FixedPoint.shift]
    split
    · exact Nat.lt_of_le_of_lt (Nat.div_le_self _ _) hquotient
    · rcases Int.lt_or_le scale.shift.toInt 0 with hneg | hpos
      · exact hkept hneg
      · have hnone : (-scale.shift.toInt).toNat = 0 := by omega
        rwa [hnone, Nat.pow_zero, Nat.mul_one]
  have htime : scale.exactTime (scale.exactTicks ns) ≤ scale.quotient ns := shift_shift_neg_le _ _
  have hback : scale.exactNs (scale.exactTicks ns) ≤ ns :=
    Nat.le_trans (scale_mono _ _ htime) (scale_scale_le _ _ _)
  have htime' := Nat.lt_of_le_of_lt htime hquotient
  have hback' := Nat.lt_of_le_of_lt hback hns
  have hns' := scale.tsc_to_ns_eq hticks htime' hback'
  have hconverts : ∀ shorter ≤ ns, scale.nsToTsc shorter = some (scale.exactTicks shorter) := by
    intro shorter hle
    have hfewer := Nat.lt_of_le_of_lt (scale.exact_ticks_mono hle) hticks
    rw [scale.ns_to_tsc_eq hmul (Nat.lt_of_le_of_lt hle hns)
      (Nat.lt_of_le_of_lt (scale_mono _ _ hle) hquotient), u64_of_lt hfewer]
  refine ⟨scale.exactTicks ns, hconverts ns (Nat.le_refl ns),
    ⟨hquotient, rfl, hticks, htime', hback', hns'⟩, ?_, ?_, ?_⟩
  · rw [hns']
    exact hback
  · have hexponent : (max scale.shift.toInt 0).toNat = scale.usedShift.toNat := by
      rw [hused]
      omega
    rw [hns', hexponent]
    exact le_scale_add hmul (Nat.le_of_lt scale.mul.toNat_lt)
      (lt_shift_shift_neg_add scale.usedShift (scale.quotient ns))
  · intro shorter hle
    exact ⟨scale.exactTicks shorter, hconverts shorter hle, scale.exact_ticks_mono hle⟩

/-- A counter with 2.5 ticks for a nanosecond: a microsecond has 2500 ticks, and they make 999
nanoseconds. -/
theorem clock_round_trip_microsecond : ∃ ticks,
    TscScale.nsToTsc ⟨3435973836, -1⟩ 1000 = some ticks ∧ ticks = 2500 ∧
      TscScale.tscToNs ⟨3435973836, -1⟩ ticks = 999 ∧
      1000 ≤ TscScale.tscToNs ⟨3435973836, -1⟩ ticks + 1 := by
  obtain ⟨ticks, hticks, _, _, hge, _⟩ := clock_round_trip ⟨3435973836, -1⟩ (by decide) (by decide)
    (show 1000 < 2 ^ 64 by decide) (by decide) (by decide)
  have hvalue : ticks = 2500 := Option.some.inj (hticks.symm.trans (by decide +kernel))
  refine ⟨ticks, hticks, hvalue, ?_, hge⟩
  rw [hvalue]
  decide +kernel

end Otrix.Arch
