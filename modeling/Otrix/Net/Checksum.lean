import Otrix.Foundation.OnesComplement
import Otrix.Net.Ipv4

/-!
# What `ip_checksum` computes

The loop of `ip_checksum` adds the words of a byte string as the machine reads them,
and the result is the complement of the sum after one fold: `ip_checksum_eq`. As a
check of received data, which is for a result of zero, that is exact for every
string that a frame can hold: `ip_checksum_exact`.
-/

namespace Otrix.Net

open Bytes OnesComplement

/-! ## The loop -/

theorem foldl_add_mod (term : Nat → Nat) (indices : List Nat) {initial : Nat}
    (hinitial : initial < 2 ^ 32) :
    indices.foldl (fun csum i => (csum + term i) % 2 ^ 32) initial =
      (initial + (indices.map term).sum) % 2 ^ 32 := by
  induction indices generalizing initial with
  | nil => exact (Nat.mod_eq_of_lt hinitial).symm
  | cons i indices ih =>
    rw [List.foldl_cons, ih (Nat.mod_lt _ (by decide)), List.map_cons, List.sum_cons]
    omega

theorem load_byte_word (memory : Mem) (address : Nat) :
    memory.load address 1 = (memory.byte address).toNat ∧
      memory.load address 2 =
        (memory.byte address).toNat + 256 * (memory.byte (address + 1)).toNat := by
  simp [Mem.load]

/-- The words that the loop reads, and the byte behind them, are the words of the string. -/
theorem leSum_read (memory : Mem) (data size : Nat) :
    leSum (memory.read data size) =
      ((List.range (size / 2)).map fun i => memory.load (data + 2 * i) 2).sum +
        if size % 2 ≠ 0 then memory.load (data + 2 * (size / 2)) 1 else 0 := by
  induction size using Nat.twoStepInduction generalizing data with
  | zero => rfl
  | one =>
    rw [(load_byte_word memory _).1]
    simp [Mem.read, leSum, leWords]
  | more size ih _ =>
    have hwords : leSum (memory.read data (size + 2)) =
        memory.load data 2 + leSum (memory.read (data + 2) size) := by
      rw [(load_byte_word memory data).2]
      simp [Mem.read, leSum, leWords]
    have hshift : ∀ i, data + 2 + 2 * i = data + 2 * (i + 1) := fun i => by omega
    have hhalf : (size + 2) / 2 = size / 2 + 1 := by omega
    have hodd : (size + 2) % 2 = size % 2 := by omega
    rw [hwords, ih, hhalf, hodd, List.range_succ_eq_map, List.map_cons, List.sum_cons,
      List.map_map, hshift, Nat.add_assoc]
    simp only [hshift]
    rfl

theorem halves_eq {csum : Nat} (hlt : csum < 2 ^ 32) :
    csum &&& 0xffff = csum % 2 ^ 16 ∧ (csum &&& 0xffff0000) >>> 16 = csum / 2 ^ 16 := by
  have hmask : ∀ value, value &&& 0xffff = value % 2 ^ 16 :=
    fun value => Nat.and_two_pow_sub_one_eq_mod value 16
  refine ⟨hmask csum, ?_⟩
  have hshifted : 0xffff0000 >>> 16 = 0xffff := by decide
  rw [Nat.shiftRight_and_distrib, hshifted, hmask, Nat.shiftRight_eq_div_pow]
  omega

/-- `ip_checksum` complements the sum of the words after one fold. -/
theorem ip_checksum_eq (memory : Mem) (data size : Nat) {initialSum : Nat}
    (hinitial : initialSum < 2 ^ 32) :
    ipChecksum memory data size initialSum =
      foldOnce (initialSum + leSum (memory.read data size)) := by
  -- the byte of an odd length is added like the words
  have hsum : (if size % 2 ≠ 0 then
      ((initialSum + ((List.range (size / 2)).map fun i => memory.load (data + 2 * i) 2).sum) %
          2 ^ 32 + memory.load (data + 2 * (size / 2)) 1) % 2 ^ 32
      else (initialSum + ((List.range (size / 2)).map fun i => memory.load (data + 2 * i) 2).sum) %
        2 ^ 32) = (initialSum + leSum (memory.read data size)) % 2 ^ 32 := by
    rw [leSum_read]
    split
    · omega
    · rfl
  have hlt : (initialSum + leSum (memory.read data size)) % 2 ^ 32 < 2 ^ 32 :=
    Nat.mod_lt _ (by decide)
  have hcomplement : ∀ folded, folded < 2 ^ 32 →
      (2 ^ 32 - 1 - folded) % 2 ^ 16 = 0xffff - folded % 2 ^ 16 := fun folded hfolded => by omega
  obtain ⟨hlow, hhigh⟩ := halves_eq hlt
  unfold ipChecksum
  simp only [foldl_add_mod _ _ hinitial, hsum, hlow, hhigh]
  rw [hcomplement _ (by omega), foldOnce]
  omega

theorem ip_checksum_holds {memory : Mem} {data : Nat} {bytes : List UInt8} {initialSum : Nat}
    (hholds : memory.Holds data bytes) (hinitial : initialSum < 2 ^ 32) :
    ipChecksum memory data bytes.length initialSum = foldOnce (initialSum + leSum bytes) := by
  rw [ip_checksum_eq memory data _ hinitial, hholds]

/-! ## Checking received data -/

/-- A sum of zero is the check of a receiver, for strings that the 32-bit sum has room for. -/
theorem ip_checksum_eq_zero_iff {memory : Mem} {data : Nat} {bytes : List UInt8}
    (hholds : memory.Holds data bytes) (hlength : bytes.length ≤ 131070) :
    ipChecksum memory data bytes.length 0 = 0 ↔ Verifies bytes := by
  have hle : leSum bytes ≤ 0xffff * 0xffff := by
    have hsum := leSum_le bytes
    have hwords : (bytes.length + 1) / 2 ≤ 0xffff := by omega
    exact Nat.le_trans hsum (Nat.mul_le_mul_left _ hwords)
  rw [ip_checksum_holds hholds (by decide), Nat.zero_add, fold_once_eq_zero_iff hle, verifies_iff]

/-- The checks on a header, with the check of a receiver in place of the computed sum. -/
theorem header_accepted_iff (ip : Ipv4) (memory : Mem) (hdr : Nat) :
    headerAccepted ip memory hdr = true ↔
      Verifies (memory.read hdr ipHdrBytes) ∧ memory.load hdr 1 = versionIhlIpv4 ∧
        (memory.load (hdr + 16) 4 = bswap32 ip.addr ∨
          memory.load (hdr + 16) 4 = bswap32 broadcast) := by
  have hchecksum : ipChecksum memory hdr ipHdrBytes 0 = 0 ↔
      Verifies (memory.read hdr ipHdrBytes) := by
    have hholds : memory.Holds hdr (memory.read hdr ipHdrBytes) := by
      rw [Mem.Holds, Mem.length_read]
    have hiff := ip_checksum_eq_zero_iff hholds (by rw [Mem.length_read]; decide)
    rwa [Mem.length_read] at hiff
  rw [headerAccepted, decide_eq_true_eq, hchecksum]

/-- Checksum verification is exact. Wherever a byte string of at most 131070 bytes lies,
`ip_checksum` is zero when the string passes the check, and only then. So `process_packet` passes a
packet on to the handlers when the checksum of its header is right and the other two checks
succeed, and drops every other packet. -/
theorem ip_checksum_exact (memory : Mem) :
    (∀ (data : Nat) (bytes : List UInt8), memory.Holds data bytes → bytes.length ≤ 131070 →
      (ipChecksum memory data bytes.length 0 = 0 ↔ Verifies bytes)) ∧
    ∀ (ip : Ipv4) (skb : Sockbuf), processPacket ip memory skb =
      if skb.payloadSize < ipHdrBytes then []
      else
        let parsed := skb.addParsedHeader ipHdrBytes .ip
        let hdr := parsed.headers .ip
        if Verifies (memory.read hdr ipHdrBytes) ∧ memory.load hdr 1 = versionIhlIpv4 ∧
            (memory.load (hdr + 16) 4 = bswap32 ip.addr ∨
              memory.load (hdr + 16) 4 = bswap32 broadcast) then
          dispatch memory (protocol memory hdr) ip.rxHandlers
            (parsed.setPayloadSize (sub64 (totalLength memory hdr) ipHdrBytes))
        else [] := by
  refine ⟨fun data bytes hholds hlength => ip_checksum_eq_zero_iff hholds hlength, ?_⟩
  intro ip skb
  unfold processPacket
  simp only [header_accepted_iff]

/-- Three bytes whose sum is all ones, and three whose sum is not. -/
theorem ip_checksum_exact_three_bytes :
    ipChecksum ((⟨fun _ => 0⟩ : Mem).write 0 [0xfe, 0xff, 0x01]) 0 3 0 = 0 ∧
      ipChecksum ((⟨fun _ => 0⟩ : Mem).write 0 [0xff, 0xff, 0x01]) 0 3 0 ≠ 0 := by
  have hsum : Verifies [0xfe, 0xff, 0x01] ∧ ¬ Verifies [0xff, 0xff, 0x01] := by decide
  have hright := (ip_checksum_exact ((⟨fun _ => 0⟩ : Mem).write 0 [0xfe, 0xff, 0x01])).1 0 _
    (Mem.holds_write _ _ _) (by decide)
  have hwrong := (ip_checksum_exact ((⟨fun _ => 0⟩ : Mem).write 0 [0xff, 0xff, 0x01])).1 0 _
    (Mem.holds_write _ _ _) (by decide)
  exact ⟨hright.mpr hsum.1, fun hzero => hsum.2 (hwrong.mp hzero)⟩

end Otrix.Net
