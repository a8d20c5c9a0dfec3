import EynOS.Network.FrameLayout

/-!
# Segments are verified exactly

A TCP segment with a checksum in a frame for the own address gets past the check of `net_poll`
exactly where the sum with end-around carry of its pseudo-header, its header and its payload is all
ones, and every segment that `tcp_send_segment` builds gets past it with its fields
(`verifies_exactly`). The received checksum is compared with one that is computed again, piece by
piece and with a zero in the field; `tcpChecksumOk_iff` is the arithmetic behind that.
-/

namespace EynOS.Network

open Foundation Traced Reader

variable {frame : ℕ → UInt8} {len : ℕ} {localIp srcIp dstIp : Ipv4Address}
  {dstMac srcMac header payload : List UInt8} {ip : Ipv4Header}

/-- A frame gets a segment to the sockets. -/
def Accepts (localIp : Ipv4Address) (frame : ℕ → UInt8) (len : ℕ) : Prop :=
  ∃ received segment, (receiveFrame localIp frame len).Yields received ∧
    received.content = .tcp segment

/-! ### Segments of any sender -/

/-- What `net_poll` makes of a segment for the own address. -/
theorem yields_receiveFrame_tcp (hcarries : Carries frame len dstMac srcMac ip)
    (htcp : CarriesTcp frame len ip.length header payload) (hproto : ip.proto = 6)
    (hlen : len < 65536) :
    (receiveFrame ip.dstIp frame len).Yields
      { learned := some (ip.srcIp, srcMac)
        content :=
          if tcpChecksumOk ip.srcIp ip.dstIp header payload = false then .nothing
          else .tcp (segmentOf ip.srcIp ip.dstIp header payload) } := by
  refine hcarries.yields_receiveFrame (Or.inl rfl) ?_
  rw [receivePacket, hproto, if_neg (by decide), if_pos rfl, if_neg (not_not.mpr rfl)]
  exact htcp.yields_receiveTcp hlen

/-- A segment is accepted where its checksum is right. -/
theorem accepts_iff (hcarries : Carries frame len dstMac srcMac ip)
    (htcp : CarriesTcp frame len ip.length header payload) (hproto : ip.proto = 6)
    (hlen : len < 65536) :
    Accepts ip.dstIp frame len ↔ tcpChecksumOk ip.srcIp ip.dstIp header payload = true := by
  have hyields := yields_receiveFrame_tcp hcarries htcp hproto hlen
  constructor
  · rintro ⟨received, segment, hreceived, hsegment⟩
    rw [← hyields.unique hreceived] at hsegment
    by_contra hwrong
    rw [if_pos (Bool.eq_false_iff.mpr hwrong)] at hsegment
    exact nomatch hsegment
  · intro hright
    refine ⟨_, segmentOf ip.srcIp ip.dstIp header payload, hyields, ?_⟩
    simp [hright]

/-! ### Segments of the stack itself -/

variable {id srcPort dstPort seq ack flags checksum : ℕ}

theorem length_tcpHeader (checksum : ℕ) :
    (tcpHeader srcPort dstPort seq ack flags checksum).length = 20 := rfl

theorem set_tcpHeader (checksum : ℕ) :
    ((tcpHeader srcPort dstPort seq ack flags checksum).set 16 0).set 17 0 =
      tcpHeader srcPort dstPort seq ack flags 0 := rfl

theorem tcpChecksum16Ex_tcpHeader :
    tcpChecksum16Ex srcIp dstIp (tcpHeader srcPort dstPort seq ack flags checksum) payload =
      tcpChecksum16Ex srcIp dstIp (tcpHeader srcPort dstPort seq ack flags 0) payload := by
  have hrange : ¬(20 < tcpHdrSize ∨ 60 < 20) := by decide
  simp only [tcpChecksum16Ex, length_tcpHeader, hrange, if_false, set_tcpHeader]

theorem checksumField_tcpHeader (hchecksum : checksum < 65536) :
    checksumField (tcpHeader srcPort dstPort seq ack flags checksum) = checksum :=
  (word_be16 checksum).trans (Nat.mod_eq_of_lt hchecksum)

theorem tcpChecksum16Ex_range :
    tcpChecksum16Ex srcIp dstIp (tcpHeader srcPort dstPort seq ack flags checksum) payload ≠ 0 ∧
      tcpChecksum16Ex srcIp dstIp (tcpHeader srcPort dstPort seq ack flags checksum) payload <
        65536 := by
  rw [tcpChecksum16Ex, length_tcpHeader, if_neg (by decide)]
  exact ⟨(complement16_pos _).ne', complement16_lt _⟩

theorem tcpChecksumOk_sent :
    tcpChecksumOk srcIp dstIp (tcpHeader srcPort dstPort seq ack flags
      (tcpChecksum16Ex srcIp dstIp (tcpHeader srcPort dstPort seq ack flags 0) payload))
      payload = true := by
  set checksum := tcpChecksum16Ex srcIp dstIp (tcpHeader srcPort dstPort seq ack flags 0) payload
    with hchecksum
  have hsame : checksum =
      tcpChecksum16Ex srcIp dstIp (tcpHeader srcPort dstPort seq ack flags checksum) payload := by
    rw [tcpChecksum16Ex_tcpHeader, hchecksum]
  rw [tcpChecksumOk, checksumField_tcpHeader tcpChecksum16Ex_range.2, decide_eq_true_iff]
  exact Or.inr hsame

/-- What a sent header and a payload make up. -/
theorem segmentOf_tcpHeader (hsrcPort : srcPort < 65536) (hdstPort : dstPort < 65536)
    (hseq : seq < 4294967296) (hack : ack < 4294967296) (hflags : flags < 256) :
    segmentOf srcIp dstIp (tcpHeader srcPort dstPort seq ack flags checksum) payload =
      { srcIp := srcIp.value, srcPort := srcPort, dstIp := dstIp.value, dstPort := dstPort
        seq := seq, ack := ack, flags := flags, payload := payload } := by
  have hport (port : ℕ) (hport : port < 65536) :
      word (UInt8.ofNat (port / 256)) (UInt8.ofNat port) = port :=
    (word_be16 port).trans (Nat.mod_eq_of_lt hport)
  have hnumber (value : ℕ) (hvalue : value < 4294967296) :
      doubleWord (UInt8.ofNat (value / 65536 / 256)) (UInt8.ofNat (value / 65536))
        (UInt8.ofNat (value / 256)) (UInt8.ofNat value) = value :=
    (doubleWord_be32 value).trans (Nat.mod_eq_of_lt hvalue)
  have hbits : (UInt8.ofNat flags).toNat = flags := by
    rw [UInt8.toNat_ofNat']
    exact Nat.mod_eq_of_lt hflags
  change Tcp.Segment.mk srcIp.value (word (UInt8.ofNat (srcPort / 256)) (UInt8.ofNat srcPort))
    dstIp.value (word (UInt8.ofNat (dstPort / 256)) (UInt8.ofNat dstPort))
    (doubleWord (UInt8.ofNat (seq / 65536 / 256)) (UInt8.ofNat (seq / 65536))
      (UInt8.ofNat (seq / 256)) (UInt8.ofNat seq))
    (doubleWord (UInt8.ofNat (ack / 65536 / 256)) (UInt8.ofNat (ack / 65536))
      (UInt8.ofNat (ack / 256)) (UInt8.ofNat ack)) (UInt8.ofNat flags).toNat payload = _
  rw [hport srcPort hsrcPort, hport dstPort hdstPort, hnumber seq hseq, hnumber ack hack, hbits]

section Sent

variable (hdstMac : dstMac.length = 6) (hsrcMac : srcMac.length = 6)
  (hpayload : payload.length ≤ 1400)
  (hframe : Holds frame 0
    (tcpFrame dstMac srcMac id srcIp srcPort dstIp dstPort seq ack flags payload))
  (hroom :
    (tcpFrame dstMac srcMac id srcIp srcPort dstIp dstPort seq ack flags payload).length ≤ len)

include hdstMac hsrcMac hpayload hframe hroom

/-- The packet of a sent segment, and the segment in it. -/
theorem carries_tcpFrame (hsrcPort : srcPort ≠ 0 ∧ srcPort < 65536)
    (hdstPort : dstPort ≠ 0 ∧ dstPort < 65536) (hshort : tcpHdrSize + payload.length < 65516) :
    Carries frame len dstMac srcMac
        (sentHeader 6 id srcIp dstIp (tcpHdrSize + payload.length) hshort) ∧
      CarriesTcp frame len ipv4HdrSize
        (tcpHeader srcPort dstPort seq ack flags
          (tcpChecksum16Ex srcIp dstIp (tcpHeader srcPort dstPort seq ack flags 0) payload))
        payload := by
  set checksum := tcpChecksum16Ex srcIp dstIp (tcpHeader srcPort dstPort seq ack flags 0) payload
    with hchecksum
  rw [tcpFrame, ← hchecksum, List.append_assoc] at hframe
  have hlength : 54 + payload.length ≤ len := by
    refine le_of_eq_of_le ?_ hroom
    simp [tcpFrame, ethHeader, hdstMac, hsrcMac, ipv4Header, Ipv4Address.bytes, tcpHeader]
    omega
  have hheaders : 34 ≤ len := by omega
  obtain ⟨hcarries, htotal, hrest⟩ :=
    carries_sent hdstMac hsrcMac hshort hheaders hframe
  obtain ⟨hbytes, hdata⟩ := holds_append.mp hrest
  have hoffset : 20 = (0x50 : UInt8).toNat / 16 * 4 := by decide
  refine ⟨hcarries, ?_, hbytes, hdata, ?_, hoffset, Nat.le_refl 20, ?_, ?_⟩
  · rw [length_tcpHeader, Nat.add_assoc]
    exact htotal
  · rw [length_tcpHeader, ethHdrSize, ipv4HdrSize]
    exact hlength
  · change word (UInt8.ofNat (srcPort / 256)) (UInt8.ofNat srcPort) ≠ 0
    rw [word_be16, Nat.mod_eq_of_lt hsrcPort.2]
    exact hsrcPort.1
  · change word (UInt8.ofNat (dstPort / 256)) (UInt8.ofNat dstPort) ≠ 0
    rw [word_be16, Nat.mod_eq_of_lt hdstPort.2]
    exact hdstPort.1

end Sent

/-! ### Exactness -/

/-- A segment with a checksum gets past the check exactly where the sum over it is all ones, and
every segment that `tcp_send_segment` builds gets past it. -/
theorem verifies_exactly :
    (∀ (frame : ℕ → UInt8) (len : ℕ) (dstMac srcMac : List UInt8) (ip : Ipv4Header)
        (header payload : List UInt8), len ≤ 1600 → Carries frame len dstMac srcMac ip →
        ip.proto = 6 → CarriesTcp frame len ip.length header payload →
        checksumField header ≠ 0 →
        (Accepts ip.dstIp frame len ↔
          sumEndAround (words
            (tcpPseudoHeader ip.srcIp ip.dstIp (header.length + payload.length) ++ header ++
              payload)) = 0xFFFF)) ∧
    ∀ (frame : ℕ → UInt8) (len : ℕ) (dstMac srcMac : List UInt8) (id : ℕ)
      (srcIp dstIp : Ipv4Address) (srcPort dstPort seq ack flags : ℕ) (payload : List UInt8),
      dstMac.length = 6 → srcMac.length = 6 → srcPort ≠ 0 ∧ srcPort < 65536 →
      dstPort ≠ 0 ∧ dstPort < 65536 → seq < 4294967296 → ack < 4294967296 → flags < 256 →
      payload.length ≤ 1400 → len ≤ 1600 →
      Holds frame 0 (tcpFrame dstMac srcMac id srcIp srcPort dstIp dstPort seq ack flags payload) →
      (tcpFrame dstMac srcMac id srcIp srcPort dstIp dstPort seq ack flags payload).length ≤ len →
      (receiveFrame dstIp frame len).Yields
        { learned := some (srcIp, srcMac)
          content := .tcp
            { srcIp := srcIp.value, srcPort := srcPort, dstIp := dstIp.value, dstPort := dstPort
              seq := seq, ack := ack, flags := flags, payload := payload } } := by
  constructor
  · intro frame len dstMac srcMac ip header payload hlen hcarries hproto htcp hfield
    have hroom := htcp.room
    have hlength := htcp.headerLength
    have hwhole := htcp.wholeHeader
    have hbyte := (header.getD 12 0).toNat_lt
    rw [tcpHdrSize] at hwhole
    rw [accepts_iff hcarries htcp hproto (by omega)]
    exact tcpChecksumOk_iff hfield hwhole (by omega) (by omega) (by omega)
  · intro frame len dstMac srcMac id srcIp dstIp srcPort dstPort seq ack flags payload hdstMac
      hsrcMac hsrcPort hdstPort hseq hack hflags hpayload hlen hframe hroom
    have hshort : tcpHdrSize + payload.length < 65516 := by
      rw [tcpHdrSize]
      omega
    obtain ⟨hcarries, htcp⟩ :=
      carries_tcpFrame hdstMac hsrcMac hpayload hframe hroom hsrcPort hdstPort hshort
    have hyields := yields_receiveFrame_tcp hcarries htcp rfl (by omega)
    change (receiveFrame dstIp frame len).Yields
      { learned := some (srcIp, srcMac)
        content := if tcpChecksumOk srcIp dstIp _ payload = false then .nothing
          else .tcp (segmentOf srcIp dstIp _ payload) } at hyields
    rwa [tcpChecksumOk_sent, if_neg (by simp),
      segmentOf_tcpHeader hsrcPort.2 hdstPort.2 hseq hack hflags] at hyields

/-- The sum over a SYN of the stack is all ones, and the stack that it is for takes it. -/
theorem verifies_exactly_syn :
    ∃ header, sumEndAround (words
        (tcpPseudoHeader ⟨10, 0, 2, 15⟩ ⟨10, 0, 2, 2⟩ 20 ++ header ++ [])) = 0xFFFF ∧
      Accepts ⟨10, 0, 2, 2⟩
        ((tcpFrame [2, 0, 0, 0, 0, 2] [2, 0, 0, 0, 0, 1] 0x6000 ⟨10, 0, 2, 15⟩ 40000
          ⟨10, 0, 2, 2⟩ 80
          7 0 2 []).getD · 0) 54 := by
  set frame := tcpFrame [2, 0, 0, 0, 0, 2] [2, 0, 0, 0, 0, 1] 0x6000 ⟨10, 0, 2, 15⟩ 40000
    ⟨10, 0, 2, 2⟩ 80 7 0 2 []
  have hframe : Holds (frame.getD · 0) 0 frame := holds_getD frame
  have hroom : frame.length ≤ 54 := Nat.le_refl 54
  have hyields :=
    verifies_exactly.2 (frame.getD · 0) 54 [2, 0, 0, 0, 0, 2] [2, 0, 0, 0, 0, 1] 0x6000
    ⟨10, 0, 2, 15⟩ ⟨10, 0, 2, 2⟩ 40000 80 7 0 2 [] rfl rfl (by decide) (by decide)
    (by decide) (by decide) (by decide) (by decide) (by decide) hframe hroom
  have haccepts : Accepts ⟨10, 0, 2, 2⟩ (frame.getD · 0) 54 := ⟨_, _, hyields, rfl⟩
  obtain ⟨hcarries, htcp⟩ := carries_tcpFrame rfl rfl (Nat.zero_le _) hframe hroom (by decide)
    (by decide) (by decide)
  have hfield : checksumField (tcpHeader 40000 80 7 0 2 (tcpChecksum16Ex ⟨10, 0, 2, 15⟩
      ⟨10, 0, 2, 2⟩ (tcpHeader 40000 80 7 0 2 0) [])) ≠ 0 := by
    rw [checksumField_tcpHeader tcpChecksum16Ex_range.2]
    exact tcpChecksum16Ex_range.1
  have hexact := verifies_exactly.1 (frame.getD · 0) 54 [2, 0, 0, 0, 0, 2] [2, 0, 0, 0, 0, 1]
    (sentHeader 6 0x6000 ⟨10, 0, 2, 15⟩ ⟨10, 0, 2, 2⟩ 20 (by decide)) _ [] (by decide) hcarries rfl
    htcp hfield
  exact ⟨_, hexact.mp haccepts, haccepts⟩

end EynOS.Network
