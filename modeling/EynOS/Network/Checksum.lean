import EynOS.Foundation.MachineWord
import EynOS.Foundation.OnesComplement
import Mathlib.Data.List.GetD

/-!
# Checksums

`checksum16_add_bytes` of `netstack.c` and the checksums of TCP and UDP segments that are made with
it, each over a pseudo-header, a header whose checksum field counts as zero, and a payload. The
pieces are summed one after the other, with the carries folded in after each of them.

A checksum that is computed so is the complement of the reduced sum of all words
(`tcpChecksum16Ex_eq`), which makes the comparison with a received field exact:
a segment is accepted where its words and its field add up to all ones.

Null pointers are left out.
-/

namespace EynOS.Network

open Foundation

/-- An IPv4 address. -/
structure Ipv4Address where
  a : UInt8
  b : UInt8
  c : UInt8
  d : UInt8
deriving DecidableEq

def Ipv4Address.bytes (address : Ipv4Address) : List UInt8 :=
  [address.a, address.b, address.c, address.d]

/-! ### The computation -/

/-- The loop of `checksum16_add_bytes` over the words of its bytes. -/
def addWords (sum : ℕ) : List UInt8 → ℕ
  | [] => sum
  | [byte] => u32 (sum + word byte 0)
  | high :: low :: rest => addWords (u32 (sum + word high low)) rest

/-- `while (sum >> 16) sum = (sum & 0xFFFF) + (sum >> 16)`. -/
def fold (sum : ℕ) : ℕ :=
  if sum / 65536 = 0 then sum else fold (sum % 65536 + sum / 65536)
termination_by sum
decreasing_by omega

def checksum16AddBytes (sum : ℕ) (data : List UInt8) : ℕ :=
  fold (addWords sum data)

/-- `(uint16)(~sum)`, with all ones for zero. -/
def complement16 (sum : ℕ) : ℕ :=
  let csum := 65535 - sum % 65536
  if csum = 0 then 65535 else csum

/-- `sizeof(tcp_hdr)`. -/
def tcpHdrSize : ℕ := 20

/-- `tcp_checksum16_ex`, over the bytes of a header. -/
def tcpChecksum16Ex (srcIp dstIp : Ipv4Address) (header payload : List UInt8) : ℕ :=
  if header.length < tcpHdrSize ∨ 60 < header.length then 0
  else
    let tcpLen := (header.length + payload.length) % 65536
    let sum := checksum16AddBytes 0 (srcIp.bytes ++ dstIp.bytes ++ [0, 6] ++ be16 tcpLen)
    let sum := checksum16AddBytes sum ((header.set 16 0).set 17 0)
    let sum := if payload = [] then sum else checksum16AddBytes sum payload
    complement16 sum

/-- `udp_checksum16`, from the ports and the length of a header. -/
def udpChecksum16 (srcIp dstIp : Ipv4Address) (srcPort dstPort len : ℕ)
    (payload : List UInt8) : ℕ :=
  let sum := checksum16AddBytes 0 srcIp.bytes
  let sum := checksum16AddBytes sum dstIp.bytes
  let sum := checksum16AddBytes sum ([0, 17] ++ be16 len)
  let sum := checksum16AddBytes sum (be16 srcPort ++ be16 dstPort ++ be16 len ++ [0, 0])
  let sum := if payload = [] then sum else checksum16AddBytes sum payload
  complement16 sum

def ipv4Checksum16 (data : List UInt8) : ℕ :=
  65535 - checksum16AddBytes 0 data

/-! ### What it computes -/

variable {sum : ℕ} {data header payload : List UInt8} {srcIp dstIp : Ipv4Address}

theorem fold_eq (sum : ℕ) : fold sum = reduce sum := by
  fun_induction fold sum with
  | case1 sum hsmall => exact (reduce_of_lt (by omega)).symm
  | case2 sum _ ih => rw [ih, reduce_fold]

theorem addWords_eq (hsum : sum + (words data).sum < 4294967296) :
    addWords sum data = sum + (words data).sum := by
  fun_induction addWords sum data with
  | case1 sum => rfl
  | case2 sum byte =>
    rw [words, List.sum_singleton] at hsum ⊢
    exact u32_of_lt _ hsum
  | case3 sum high low rest ih =>
    rw [words, List.sum_cons] at hsum ⊢
    rw [u32_of_lt _ (by omega)] at ih ⊢
    rw [ih (by omega), Nat.add_assoc]

theorem checksum16AddBytes_eq (hsum : sum < 65536) (hdata : data.length < 65536) :
    checksum16AddBytes sum data = reduce (sum + (words data).sum) := by
  have hwords := sum_words_le data
  rw [checksum16AddBytes, addWords_eq (by omega), fold_eq]

theorem checksum16AddBytes_reduce (sum : ℕ) (hdata : data.length < 65536) :
    checksum16AddBytes (reduce sum) data = reduce (sum + (words data).sum) := by
  rw [checksum16AddBytes_eq (reduce_lt sum) hdata, reduce_reduce_add]

theorem add_payload (sum : ℕ) (hpayload : payload.length < 65536) :
    (if payload = [] then reduce sum else checksum16AddBytes (reduce sum) payload) =
      reduce (sum + (words payload).sum) := by
  split_ifs with hempty
  · rw [hempty]
    rfl
  · exact checksum16AddBytes_reduce sum hpayload

theorem complement16_reduce (sum : ℕ) :
    complement16 (reduce sum) =
      if 65535 - reduce sum = 0 then 65535 else 65535 - reduce sum := by
  rw [complement16, Nat.mod_eq_of_lt (reduce_lt sum)]

def tcpPseudoHeader (srcIp dstIp : Ipv4Address) (tcpLen : ℕ) : List UInt8 :=
  srcIp.bytes ++ dstIp.bytes ++ [0, 6] ++ be16 tcpLen

def tcpSum (srcIp dstIp : Ipv4Address) (header payload : List UInt8) : ℕ :=
  (words (tcpPseudoHeader srcIp dstIp (header.length + payload.length))).sum +
    (words header).sum + (words payload).sum

/-- A TCP checksum is the complement of the sum over the segment with a zero in its field. -/
theorem tcpChecksum16Ex_eq (hheader : 20 ≤ header.length) (hsize : header.length ≤ 60)
    (hlength : header.length + payload.length < 65536) :
    tcpChecksum16Ex srcIp dstIp header payload =
      complement16 (reduce (tcpSum srcIp dstIp ((header.set 16 0).set 17 0) payload)) := by
  have hrange : ¬(header.length < tcpHdrSize ∨ 60 < header.length) := by
    rw [tcpHdrSize]
    omega
  have hzeroed : ((header.set 16 0).set 17 0).length = header.length := by
    rw [List.length_set, List.length_set]
  rw [tcpChecksum16Ex, if_neg hrange, Nat.mod_eq_of_lt hlength]
  dsimp only
  rw [checksum16AddBytes_eq (Nat.succ_pos _) (by simp [Ipv4Address.bytes]),
    checksum16AddBytes_reduce _ (by omega), add_payload _ (by omega), tcpSum, hzeroed, Nat.zero_add,
    tcpPseudoHeader]

theorem complement16_pos (sum : ℕ) : 0 < complement16 sum := by
  rw [complement16]
  split_ifs <;> omega

theorem complement16_lt (sum : ℕ) : complement16 sum < 65536 := by
  rw [complement16]
  split_ifs <;> omega

/-! ### Verification -/

def checksumField (header : List UInt8) : ℕ :=
  word (header.getD 16 0) (header.getD 17 0)

/-- What `net_poll` compares for a segment with a checksum. -/
def tcpChecksumOk (srcIp dstIp : Ipv4Address) (header payload : List UInt8) : Bool :=
  checksumField header = 0 ∨
    checksumField header = tcpChecksum16Ex srcIp dstIp header payload

/-- The words of a header add up to those with a zero in the field and the field. -/
theorem sum_words_header (hheader : 18 ≤ header.length) :
    (words header).sum = (words ((header.set 16 0).set 17 0)).sum + checksumField header := by
  obtain ⟨first, rest, rfl, hfirst⟩ : ∃ first rest, header = first ++ rest ∧ first.length = 16 :=
    ⟨header.take 16, header.drop 16, (List.take_append_drop 16 header).symm, by grind⟩
  match rest, hheader with
  | high :: low :: later, _ =>
    have hset : ((first ++ high :: low :: later).set 16 0).set 17 0 =
        first ++ 0 :: 0 :: later := by
      rw [List.set_append_right _ _ (by omega), List.set_append_right _ _ (by omega), hfirst]
      rfl
    have hfield : checksumField (first ++ high :: low :: later) = word high low := by
      rw [checksumField, List.getD_append_right _ _ _ _ (by omega),
        List.getD_append_right _ _ _ _ (by omega), hfirst]
      rfl
    rw [hset, hfield, words_append (by omega), words_append (by omega)]
    simp only [words, List.sum_append, List.sum_cons]
    have hzero : word 0 0 = 0 := rfl
    omega
  | [], hheader => simp only [List.append_nil] at hheader; omega
  | [_], hheader =>
    rw [List.length_append, List.length_singleton] at hheader
    omega

/-- A segment with a checksum passes where its words, those of the pseudo-header and the field
included, add up to all ones. -/
theorem tcpChecksumOk_iff (hfield : checksumField header ≠ 0) (hheader : 20 ≤ header.length)
    (hsize : header.length ≤ 60) (haligned : header.length % 2 = 0)
    (hlength : header.length + payload.length < 65536) :
    tcpChecksumOk srcIp dstIp header payload = true ↔
      sumEndAround (words (tcpPseudoHeader srcIp dstIp (header.length + payload.length) ++
        header ++ payload)) = 0xFFFF := by
  have hpseudo : (tcpPseudoHeader srcIp dstIp (header.length + payload.length)).length = 12 := rfl
  have hzeroed : ((header.set 16 0).set 17 0).length = header.length := by
    rw [List.length_set, List.length_set]
  have hsum : (words (tcpPseudoHeader srcIp dstIp (header.length + payload.length) ++
      header ++ payload)).sum =
        tcpSum srcIp dstIp ((header.set 16 0).set 17 0) payload + checksumField header := by
    have heven : (tcpPseudoHeader srcIp dstIp (header.length + payload.length) ++
        header).length % 2 = 0 := by
      rw [List.length_append, hpseudo]
      omega
    have hsplit : (words header).sum =
        (words ((header.set 16 0).set 17 0)).sum + checksumField header :=
          sum_words_header (by omega)
    rw [words_append heven, words_append (by rw [hpseudo]), List.sum_append,
      List.sum_append, hsplit,
      tcpSum, hzeroed]
    omega
  have hfieldLt : checksumField header < 65536 := word_lt _ _
  rw [sumEndAround_eq (words_lt _), hsum, sum_eq_ones_iff hfieldLt hfield, tcpChecksumOk,
    tcpChecksum16Ex_eq hheader hsize hlength, complement16_reduce, decide_eq_true_iff]
  exact or_iff_right hfield

end EynOS.Network
