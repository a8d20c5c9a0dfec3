import EynOS.Network.Replies

/-!
# Received bytes are read in bounds

Every byte that `net_poll` reads of a frame is one that the driver delivered, and every byte that
the walks over a response of a name server and over the options of a DHCP reply read is one of the
message, whatever the lengths in them say (`messages_read_in_bounds`). The walks end, since every
turn moves their offset on.

Each function has a lemma of its own, which follows its branches: what has been checked bounds what
is read next.
-/

namespace EynOS.Network

open Foundation Traced Reader

variable {frame : ℕ → UInt8} {len ipHdrLen : ℕ} {localIp srcIp dstIp : Ipv4Address}

/-! ### Frames -/

theorem availableLen_le {payloadOff payloadLen : ℕ} (hoff : payloadOff ≤ len) :
    payloadOff + availableLen len payloadOff payloadLen ≤ len := by
  unfold availableLen
  split_ifs <;> omega

theorem bounded_readAddress {index : ℕ} (hindex : index + 3 < len) :
    ReadsBelow len (readAddress frame index) fun _ ↦ True := by
  refine (ReadsBelow.readByte (by omega)).bind fun _ _ ↦ ?_
  refine (ReadsBelow.readByte (by omega)).bind fun _ _ ↦ ?_
  refine (ReadsBelow.readByte (by omega)).bind fun _ _ ↦ ?_
  exact (ReadsBelow.readByte hindex).bind fun _ _ ↦ .pure trivial

/-- An ARP packet is inside a frame that has room for one. -/
theorem bounded_receiveArp (hlen : ethHdrSize + arpPktSize ≤ len) :
    ReadsBelow len (receiveArp localIp frame) fun _ ↦ True := by
  rw [ethHdrSize, arpPktSize] at hlen
  unfold receiveArp ethHdrSize
  refine (ReadsBelow.readBe16 (by omega)).bind fun _ _ ↦ .ite (fun _ ↦ ?_) fun _ ↦ .ite ?_ ?_
  · refine (ReadsBelow.readBytes (by omega)).bind fun _ _ ↦ ?_
    refine (bounded_readAddress (by omega)).bind fun _ _ ↦ ?_
    exact (bounded_readAddress (by omega)).bind fun _ _ ↦ .pure trivial
  · intro _
    refine (ReadsBelow.readBytes (by omega)).bind fun _ _ ↦ ?_
    exact (bounded_readAddress (by omega)).bind fun _ _ ↦ .pure trivial
  · exact fun _ ↦ .pure trivial

/-- What an ICMP message says about its length does not lead out of the frame. -/
theorem bounded_receiveIcmp (srcMac : List UInt8) :
    ReadsBelow len (receiveIcmp frame len ipHdrLen srcMac srcIp dstIp) fun _ ↦ True := by
  unfold receiveIcmp ethHdrSize icmpEchoHdrSize
  refine .ite (fun _ ↦ .pure trivial) fun hroom ↦ ?_
  refine (ReadsBelow.readBe16 (by omega)).bind fun _ _ ↦ ?_
  refine (ReadsBelow.readBe16 (by omega)).bind fun _ _ ↦ ?_
  refine (ReadsBelow.readBe16 (by omega)).bind fun _ _ ↦ ?_
  refine .ite (fun _ ↦ .pure trivial) fun _ ↦ .ite (fun _ ↦ .pure trivial) fun hoff ↦ ?_
  refine (ReadsBelow.readByte (by omega)).bind fun _ _ ↦ ?_
  refine (ReadsBelow.readByte (by omega)).bind fun _ _ ↦ ?_
  refine .ite (fun _ ↦ ?_) fun _ ↦ .ite (fun _ ↦ .pure trivial) fun _ ↦ .pure trivial
  exact (ReadsBelow.readBytes (availableLen_le (Nat.le_of_not_lt hoff))).bind fun _ _ ↦
    .pure trivial

/-- Nor does what a TCP segment says about the lengths of its header and its payload. -/
theorem bounded_receiveTcp :
    ReadsBelow len (receiveTcp frame len ipHdrLen srcIp dstIp) fun _ ↦ True := by
  unfold receiveTcp ethHdrSize tcpHdrSize
  refine .ite (fun _ ↦ .pure trivial) fun hroom ↦ ?_
  refine (ReadsBelow.readByte (by omega)).bind fun _ _ ↦ .ite (fun _ ↦ .pure trivial) fun _ ↦ ?_
  refine (ReadsBelow.readBe16 (by omega)).bind fun _ _ ↦ ?_
  refine (ReadsBelow.readBe16 (by omega)).bind fun _ _ ↦ .ite (fun _ ↦ .pure trivial) fun _ ↦ ?_
  refine (ReadsBelow.readBe16 (by omega)).bind fun _ _ ↦ .ite (fun _ ↦ .pure trivial) fun hoff ↦ ?_
  refine (ReadsBelow.readBytes (Nat.le_of_not_lt hoff)).bind fun _ _ ↦ ?_
  refine (ReadsBelow.readBytes (availableLen_le (Nat.le_of_not_lt hoff))).bind fun _ _ ↦ ?_
  refine .ite (fun _ ↦ .pure trivial) fun _ ↦ ?_
  refine (ReadsBelow.readBe32 (by omega)).bind fun _ _ ↦ ?_
  refine (ReadsBelow.readBe32 (by omega)).bind fun _ _ ↦ ?_
  exact (ReadsBelow.readByte (by omega)).bind fun _ _ ↦ .pure trivial

/-- Nor does what a UDP datagram says about its length. -/
theorem bounded_receiveUdp :
    ReadsBelow len (receiveUdp frame len ipHdrLen srcIp dstIp) fun _ ↦ True := by
  unfold receiveUdp ethHdrSize udpHdrSize
  refine .ite (fun _ ↦ .pure trivial) fun hroom ↦ ?_
  refine (ReadsBelow.readBe16 (by omega)).bind fun _ _ ↦ ?_
  refine (ReadsBelow.readBe16 (by omega)).bind fun _ _ ↦ .ite (fun _ ↦ .pure trivial) fun _ ↦ ?_
  refine (ReadsBelow.readBe16 (by omega)).bind fun _ _ ↦ .ite (fun _ ↦ .pure trivial) fun _ ↦ ?_
  refine .ite (fun _ ↦ .pure trivial) fun hoff ↦ ?_
  refine (ReadsBelow.readBe16 (by omega)).bind fun _ _ ↦ ?_
  refine (ReadsBelow.readBytes (availableLen_le (Nat.le_of_not_lt hoff))).bind fun _ _ ↦ ?_
  exact .ite (fun _ ↦ .pure trivial) fun _ ↦ .pure trivial

theorem bounded_receivePacket (proto : UInt8) (srcMac : List UInt8) :
    ReadsBelow len (receivePacket localIp frame len ipHdrLen proto srcMac srcIp dstIp)
      fun _ ↦ True := by
  unfold receivePacket
  refine .ite (fun _ ↦ ?_) fun _ ↦ .ite (fun _ ↦ ?_) fun _ ↦ ?_
  · exact .ite (fun _ ↦ .pure trivial) fun _ ↦ bounded_receiveIcmp srcMac
  · exact .ite (fun _ ↦ .pure trivial) fun _ ↦ bounded_receiveTcp
  · exact .ite (fun _ ↦ .pure trivial) fun _ ↦ bounded_receiveUdp

theorem bounded_receiveIpv4 :
    ReadsBelow len (receiveIpv4 localIp frame len) fun _ ↦ True := by
  unfold receiveIpv4 ethHdrSize ipv4HdrSize
  refine .ite (fun _ ↦ .pure trivial) fun hroom ↦ ?_
  refine (ReadsBelow.readBe16 (by omega)).bind fun _ _ ↦ .ite (fun _ ↦ .pure trivial) fun _ ↦ ?_
  refine (ReadsBelow.readByte (by omega)).bind fun _ _ ↦ .ite (fun _ ↦ .pure trivial) fun _ ↦ ?_
  refine (ReadsBelow.readBe16 (by omega)).bind fun _ _ ↦ .ite (fun _ ↦ .pure trivial) fun _ ↦ ?_
  refine (bounded_readAddress (by omega)).bind fun _ _ ↦ .ite (fun _ ↦ .pure trivial) fun _ ↦ ?_
  refine (bounded_readAddress (by omega)).bind fun _ _ ↦ ?_
  refine (ReadsBelow.readBytes (by omega)).bind fun _ _ ↦ ?_
  refine (ReadsBelow.readByte (by omega)).bind fun _ _ ↦ ?_
  exact (bounded_receivePacket _ _).bind fun _ _ ↦ .pure trivial

/-- `net_poll` reads no byte of a frame behind those that the driver delivered. -/
theorem bounded_receiveFrame (localIp : Ipv4Address) (frame : ℕ → UInt8) (len : ℕ) :
    ReadsBelow len (receiveFrame localIp frame len) fun _ ↦ True := by
  unfold receiveFrame
  refine .ite (fun hroom ↦ ?_) fun _ ↦ bounded_receiveIpv4
  have hlen : 13 < len := by
    rw [ethHdrSize, arpPktSize] at hroom
    omega
  refine (ReadsBelow.readBe16 hlen).bind fun _ _ ↦ ?_
  exact .ite (fun _ ↦ bounded_receiveArp hroom) fun _ ↦ bounded_receiveIpv4

/-! ### Responses of a name server -/

variable {rx : ℕ → UInt8}

/-- The skipper reads nothing behind a message and ends inside it. -/
theorem bounded_dnsSkipName (hlen : len < 65536) (off : ℕ) :
    ReadsBelow len (Dns.dnsSkipName rx len off) fun result ↦
      ∀ next, result = .ok next → next ≤ len := by
  unfold Dns.dnsSkipName
  refine ReadsBelow.turns (fun _ ↦ True) (len - ·) (fun off _ ↦ ?_) trivial (by omega)
  unfold Dns.skipTurn
  refine .ite (fun hoff ↦ ?_) fun _ ↦ .pure (by simp)
  have hnext : u32 (off + 1) = off + 1 := u32_of_lt _ (by omega)
  refine (ReadsBelow.readByte hoff).bind fun byte _ ↦ .ite (fun _ ↦ .pure ?_) fun _ ↦ ?_
  · rintro next ⟨⟩
    omega
  · refine .ite (fun _ ↦ .ite (fun _ ↦ .pure (by simp)) fun hroom ↦ .pure ?_) fun _ ↦ ?_
    · rintro next ⟨⟩
      rw [hnext] at hroom
      exact Nat.le_trans (u32_le _) (by omega)
    · refine .ite (fun _ ↦ .pure (by simp)) fun _ ↦ .ite (fun _ ↦ .pure (by simp)) fun hroom ↦ ?_
      have hbyte := byte.toNat_lt
      rw [hnext, u32_of_lt _ (by omega)] at hroom ⊢
      exact .pure ⟨trivial, by omega⟩

/-- A turn over the questions stays inside the message and comes to the next one. -/
theorem bounded_questionTurn (hlen : len < 65536) {qdcount q roff : ℕ} :
    ReadsBelow len (Dns.questionTurn rx len qdcount (q, roff)) fun turn ↦
      match turn with
      | .inl _ => True
      | .inr next => qdcount - next.1 < qdcount - q := by
  unfold Dns.questionTurn
  refine .ite (fun hq ↦ ?_) fun _ ↦ .pure trivial
  refine (bounded_dnsSkipName hlen roff).bind fun skipped _ ↦ ?_
  cases skipped with
  | error rc => exact .pure trivial
  | ok roff =>
    refine .ite (fun _ ↦ .pure trivial) fun _ ↦ .pure ?_
    change qdcount - (q + 1) < qdcount - q
    omega

/-- A turn over the answers does the same. -/
theorem bounded_answerTurn (hlen : len < 65536) {ancount a roff : ℕ} :
    ReadsBelow len (Dns.answerTurn rx len ancount (a, roff)) fun turn ↦
      match turn with
      | .inl _ => True
      | .inr next => ancount - next.1 < ancount - a := by
  unfold Dns.answerTurn
  refine .ite (fun ha ↦ ?_) fun _ ↦ .pure trivial
  refine (bounded_dnsSkipName hlen roff).bind fun skipped hskipped ↦ ?_
  cases skipped with
  | error rc => exact .pure trivial
  | ok roff =>
    have hroff : roff ≤ len := hskipped roff rfl
    refine .ite (fun _ ↦ .pure trivial) fun hfields ↦ ?_
    rw [u32_of_lt _ (by omega)] at hfields ⊢
    refine (ReadsBelow.readBe16 (by omega)).bind fun _ _ ↦ ?_
    refine (ReadsBelow.readBe16 (by omega)).bind fun _ _ ↦ ?_
    refine (ReadsBelow.readBe16 (by omega)).bind fun rdlen hrdlen ↦ ?_
    have hsize : rdlen < 65536 := hrdlen ▸ word_lt _ _
    refine .ite (fun _ ↦ .pure trivial) fun hdata ↦ .ite (fun haddress ↦ ?_) fun _ ↦ .pure ?_
    · rw [haddress.2.2, u32_of_lt _ (by omega)] at hdata
      exact (bounded_readAddress (by omega)).bind fun _ _ ↦ .pure trivial
    · change ancount - (a + 1) < ancount - a
      omega

/-- The walk over a response reads nothing behind it and ends. -/
theorem bounded_dnsResponse (hlen : len < 65536) (txId : ℕ) :
    ReadsBelow len (Dns.dnsResponse txId rx len) fun _ ↦ True := by
  unfold Dns.dnsResponse
  refine .ite (fun _ ↦ .pure trivial) fun hroom ↦ ?_
  refine (ReadsBelow.readBe16 (by omega)).bind fun _ _ ↦ .ite (fun _ ↦ .pure trivial) fun _ ↦ ?_
  refine (ReadsBelow.readBe16 (by omega)).bind fun _ _ ↦ .ite (fun _ ↦ .pure trivial) fun _ ↦ ?_
  refine .ite (fun _ ↦ .pure trivial) fun _ ↦ ?_
  refine (ReadsBelow.readBe16 (by omega)).bind fun qdcount _ ↦ ?_
  refine (ReadsBelow.readBe16 (by omega)).bind fun ancount _ ↦ ?_
  have hquestions : ReadsBelow len
      (turns (Dns.questionTurn rx len qdcount) (qdcount + 1) (0, 12)) fun _ ↦ True := by
    refine ReadsBelow.turns (fun _ ↦ True) (qdcount - ·.1) (fun state _ ↦ ?_) trivial
      (by omega)
    refine (bounded_questionTurn hlen).mono fun turn hturn ↦ ?_
    cases turn with
    | inl _ => exact trivial
    | inr next => exact ⟨trivial, hturn⟩
  refine hquestions.bind fun result _ ↦ ?_
  cases result with
  | error rc => exact .pure trivial
  | ok roff =>
    refine ReadsBelow.turns (fun _ ↦ True) (ancount - ·.1) (fun state _ ↦ ?_) trivial
      (by omega)
    refine (bounded_answerTurn hlen).mono fun turn hturn ↦ ?_
    cases turn with
    | inl _ => exact trivial
    | inr next => exact ⟨trivial, hturn⟩

/-! ### Replies of a DHCP server -/

/-- The value of an option is read inside the option. -/
theorem bounded_takeOption (takesServerId : Bool) {roff : ℕ} {opt optLen : UInt8}
    (options : Dhcp.Options) (hend : roff + optLen.toNat ≤ len) :
    ReadsBelow len (Dhcp.takeOption takesServerId rx roff opt optLen options) fun _ ↦ True := by
  unfold Dhcp.takeOption
  have hone (hlength : optLen = 1) : roff < len := by
    rw [hlength] at hend
    exact hend
  have hfour (hlength : optLen = 4) : roff + 3 < len := by
    rw [hlength] at hend
    exact hend
  refine .ite (fun hoption ↦ ?_) fun _ ↦ .ite (fun hoption ↦ ?_) fun _ ↦ ?_
  · exact (ReadsBelow.readByte (hone hoption.2)).bind fun _ _ ↦ .pure trivial
  · exact (bounded_readAddress (hfour hoption.2)).bind fun _ _ ↦ .pure trivial
  refine .ite (fun hoption ↦ ?_) fun _ ↦ .ite (fun hoption ↦ ?_) fun _ ↦ ?_
  · exact (bounded_readAddress (by omega)).bind fun _ _ ↦ .pure trivial
  · exact (bounded_readAddress (by omega)).bind fun _ _ ↦ .pure trivial
  · refine .ite (fun hoption ↦ ?_) fun _ ↦ .pure trivial
    exact (bounded_readAddress (hfour hoption.2.2)).bind fun _ _ ↦ .pure trivial

/-- The walk over the options of a reply reads nothing behind it and ends. -/
theorem bounded_options (hlen : len < 65536) (takesServerId : Bool) (options : Dhcp.Options) :
    ReadsBelow len (turns (Dhcp.optionTurn takesServerId rx len) (len + 1) (240, options))
      fun _ ↦ True := by
  refine ReadsBelow.turns (fun _ ↦ True) (len - ·.1) (fun ⟨roff, options⟩ _ ↦ ?_)
    trivial (by omega)
  unfold Dhcp.optionTurn
  refine .ite (fun hroff ↦ ?_) fun _ ↦ .pure trivial
  have hnext : u32 (roff + 1) = roff + 1 := u32_of_lt _ (by omega)
  refine (ReadsBelow.readByte hroff).bind fun opt _ ↦ .ite (fun _ ↦ .pure trivial) fun _ ↦ ?_
  rw [hnext]
  refine .ite (fun _ ↦ .pure ⟨trivial, ?_⟩) fun _ ↦ .ite (fun _ ↦ .pure trivial) fun hlength ↦ ?_
  · change len - (roff + 1) < len - roff
    omega
  · refine (ReadsBelow.readByte (by omega)).bind fun optLen _ ↦ ?_
    have hsize := optLen.toNat_lt
    rw [u32_of_lt (roff + 1 + 1) (by omega)]
    refine .ite (fun _ ↦ .pure trivial) fun hend ↦ ?_
    rw [u32_of_lt _ (by omega)] at hend ⊢
    refine (bounded_takeOption _ _ (Nat.le_of_not_lt hend)).bind fun _ _ ↦ .pure ⟨trivial, ?_⟩
    change len - (roff + 1 + 1 + optLen.toNat) < len - roff
    omega

theorem bounded_dhcpReply (hlen : len < 65536) (takesServerId : Bool) (wanted : UInt8) (xid : ℕ)
    (options : Dhcp.Options) :
    ReadsBelow len (Dhcp.dhcpReply takesServerId wanted xid options rx len) fun _ ↦ True := by
  unfold Dhcp.dhcpReply
  refine .ite (fun _ ↦ .pure trivial) fun hroom ↦ ?_
  refine (ReadsBelow.readBe32 (by omega)).bind fun _ _ ↦ ?_
  refine (ReadsBelow.readByte (by omega)).bind fun _ _ ↦ .ite (fun _ ↦ .pure trivial) fun _ ↦ ?_
  refine (ReadsBelow.readBe32 (by omega)).bind fun _ _ ↦ .ite (fun _ ↦ .pure trivial) fun _ ↦ ?_
  refine (bounded_options hlen _ _).bind fun _ _ ↦ .ite (fun _ ↦ .pure trivial) fun _ ↦ ?_
  exact (bounded_readAddress (by omega)).bind fun _ _ ↦ .pure trivial

/-! ### All of them -/

/-- Whatever a frame holds, `net_poll` reads only bytes of it; and whatever a message of a UDP
datagram holds, so do the walks over a response of a name server and over the options of the two
DHCP replies, and they end. -/
theorem messages_read_in_bounds :
    (∀ (localIp : Ipv4Address) (frame : ℕ → UInt8) (len : ℕ), len ≤ 1600 →
      ReadsBelow len (receiveFrame localIp frame len) fun _ ↦ True) ∧
    ∀ (rx : ℕ → UInt8) (n : ℕ), n ≤ 65535 - udpHdrSize →
      (∀ off, ReadsBelow n (Dns.dnsSkipName rx n off) fun _ ↦ True) ∧
      (∀ txId, ReadsBelow n (Dns.dnsResponse txId rx n) fun _ ↦ True) ∧
      (∀ xid options, ReadsBelow n (Dhcp.dhcpOffer xid options rx n) fun _ ↦ True) ∧
      ∀ xid options, ReadsBelow n (Dhcp.dhcpAck xid options rx n) fun _ ↦ True := by
  refine ⟨fun localIp frame len _ ↦ bounded_receiveFrame localIp frame len, fun rx n hn ↦ ?_⟩
  have hlen : n < 65536 := by
    rw [udpHdrSize] at hn
    omega
  refine ⟨fun off ↦ (bounded_dnsSkipName hlen off).mono fun _ _ ↦ trivial,
    bounded_dnsResponse hlen, ?_, ?_⟩
  · exact bounded_dhcpReply hlen true 2
  · exact bounded_dhcpReply hlen false 5

/-- A frame of 60 zeros and a message of 300 zeros are read inside them. -/
theorem messages_read_in_bounds_zeros :
    ReadsBelow 60 (receiveFrame ⟨10, 0, 2, 15⟩ (fun _ ↦ 0) 60) (fun _ ↦ True) ∧
      ReadsBelow 300 (Dns.dnsResponse 7 (fun _ ↦ 0) 300) fun _ ↦ True :=
  ⟨messages_read_in_bounds.1 _ _ 60 (by decide),
    (messages_read_in_bounds.2 _ 300 (by decide)).2.1 7⟩

end EynOS.Network
