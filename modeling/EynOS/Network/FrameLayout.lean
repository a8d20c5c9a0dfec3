import EynOS.Network.Frame

/-!
# Frames laid out

An IPv4 packet in an Ethernet frame, as any sender may lay it out, and what `receiveFrame` makes of
a buffer that holds it (`yields_receiveFrame`): the packet for its own address is taken apart at the
offsets where its fields are. `yields_receiveTcp` and `yields_receiveUdp` do the same for what the
packet holds. The frames of `tcp_send_segment` and `net_udp_send` are laid out so.
-/

namespace EynOS.Network

open Foundation Traced Reader

/-! ### IPv4 headers -/

/-- The header of an IPv4 packet that is not a fragment, with options. -/
structure Ipv4Header where
  tos : UInt8
  totalLen : ℕ
  id : ℕ
  frag : ℕ
  ttl : UInt8
  proto : UInt8
  checksum : ℕ
  srcIp : Ipv4Address
  dstIp : Ipv4Address
  options : List UInt8
  totalLen_lt : totalLen < 65536
  frag_lt : frag < 65536
  whole : ¬(frag &&& 0x1FFF ≠ 0 ∨ frag &&& 0xE000 &&& 0x2000 ≠ 0)
  aligned : options.length % 4 = 0
  short : options.length ≤ 40

namespace Ipv4Header

def length (header : Ipv4Header) : ℕ := ipv4HdrSize + header.options.length

/-- The first byte: the version and the length in words of four bytes. -/
def verIhl (header : Ipv4Header) : UInt8 :=
  UInt8.ofNat (4 * 16 + (5 + header.options.length / 4))

def bytes (header : Ipv4Header) : List UInt8 :=
  [header.verIhl, header.tos] ++ be16 header.totalLen ++ be16 header.id ++ be16 header.frag ++
    [header.ttl, header.proto] ++ be16 header.checksum ++ header.srcIp.bytes ++
    header.dstIp.bytes ++ header.options

variable (header : Ipv4Header)

theorem length_bytes : header.bytes.length = header.length := by
  simp [bytes, length, Ipv4Address.bytes, ipv4HdrSize]
  omega

theorem toNat_verIhl : header.verIhl.toNat = 64 + (5 + header.options.length / 4) := by
  have hshort := header.short
  rw [verIhl, UInt8.toNat_ofNat']
  exact Nat.mod_eq_of_lt (by omega)

theorem version_eq : header.verIhl.toNat / 16 = 4 := by
  have hshort := header.short
  rw [toNat_verIhl]
  omega

theorem ihl_eq : header.verIhl.toNat % 16 * 4 = header.length := by
  have hshort := header.short
  have haligned := header.aligned
  rw [toNat_verIhl, length, ipv4HdrSize]
  omega

end Ipv4Header

variable {frame : ℕ → UInt8} {start len ipHdrLen : ℕ} {localIp srcIp dstIp : Ipv4Address}
  {dstMac srcMac header payload : List UInt8} {ip : Ipv4Header} {content : Content}

/-! ### Reading what is laid out -/

theorem yields_readAddress {address : Ipv4Address} (hholds : Holds frame start address.bytes) :
    (readAddress frame start).Yields address := by
  simp only [Ipv4Address.bytes, holds_cons] at hholds
  obtain ⟨ha, hb, hc, hd, -⟩ := hholds
  refine yields_bind.mpr ⟨_, yields_readByte.mpr ha, ?_⟩
  refine yields_bind.mpr ⟨_, yields_readByte.mpr hb, ?_⟩
  refine yields_bind.mpr ⟨_, yields_readByte.mpr hc, ?_⟩
  exact yields_bind.mpr ⟨_, yields_readByte.mpr hd, (yields_pure _ _).mpr rfl⟩

/-- A buffer with the head of an IPv4 frame. -/
structure Carries (frame : ℕ → UInt8) (len : ℕ) (dstMac srcMac : List UInt8) (ip : Ipv4Header) :
    Prop where
  dstMac_length : dstMac.length = 6
  srcMac_length : srcMac.length = 6
  eth : Holds frame 0 (ethHeader dstMac srcMac)
  header : Holds frame ethHdrSize ip.bytes
  room : ethHdrSize + ip.length ≤ len

namespace Carries

variable (hcarries : Carries frame len dstMac srcMac ip)

include hcarries

theorem ethertype : (readBe16 frame 12).Yields 0x0800 := by
  obtain ⟨hdst, hsrc, heth, -, -⟩ := hcarries
  rw [ethHeader, holds_append, List.length_append, hdst, hsrc] at heth
  exact heth.2.readBe16 (by decide)

theorem source : (readBytes frame 6 6).Yields srcMac := by
  obtain ⟨hdst, hsrc, heth, -, -⟩ := hcarries
  rw [ethHeader, holds_append, holds_append, hdst] at heth
  have hread := heth.1.2.readBytes
  rwa [hsrc] at hread

theorem fields :
    frame 14 = ip.verIhl ∧ Holds frame 16 (be16 ip.totalLen) ∧ Holds frame 20 (be16 ip.frag) ∧
      frame 23 = ip.proto ∧ Holds frame 26 ip.srcIp.bytes ∧ Holds frame 30 ip.dstIp.bytes := by
  have hheader := hcarries.header
  simp only [Ipv4Header.bytes, holds_append, holds_cons, List.length_append, List.length_cons,
    List.length_nil, length_be16, ethHdrSize, Ipv4Address.bytes] at hheader
  obtain ⟨⟨⟨⟨⟨⟨⟨⟨⟨hverIhl, -⟩, htotal⟩, -⟩, hfrag⟩, -, hproto, -⟩, -⟩, hsrc⟩, hdst⟩, -⟩ := hheader
  simp only [Ipv4Address.bytes, holds_cons]
  exact ⟨hverIhl, htotal, hfrag, hproto, hsrc, hdst⟩

/-- What `net_poll` makes of a packet for the own address or for all. -/
theorem yields_receiveFrame (hdst : ip.dstIp = localIp ∨ ipv4IsBroadcast ip.dstIp = true)
    (hcontent : (receivePacket localIp frame len ip.length ip.proto srcMac ip.srcIp
      ip.dstIp).Yields content) :
    (receiveFrame localIp frame len).Yields
      { learned := some (ip.srcIp, srcMac), content := content } := by
  obtain ⟨hverIhl, -, hfrag, hproto, hsrc, hdstBytes⟩ := hcarries.fields
  have hroom := hcarries.room
  have hlength : ipv4HdrSize ≤ ip.length := Nat.le_add_right _ _
  have hlocal : ¬(ip.dstIp ≠ localIp ∧ ipv4IsBroadcast ip.dstIp = false) := by
    rintro ⟨hother, hbroadcast⟩
    rw [hbroadcast] at hdst
    exact hdst.elim hother Bool.noConfusion
  have hihl : ¬(ip.verIhl.toNat / 16 ≠ 4 ∨ ip.verIhl.toNat % 16 < 5) := by
    have hwords := ip.ihl_eq
    have hversion := ip.version_eq
    rw [ipv4HdrSize] at hlength
    omega
  have hpacket : (receiveIpv4 localIp frame len).Yields
      { learned := some (ip.srcIp, srcMac), content := content } := by
    rw [receiveIpv4, if_neg (by omega)]
    refine yields_bind.mpr ⟨_, hcarries.ethertype, ?_⟩
    rw [if_neg (by simp)]
    refine yields_bind.mpr ⟨_, yields_readByte.mpr hverIhl, ?_⟩
    rw [if_neg hihl, ip.ihl_eq]
    refine yields_bind.mpr ⟨_, hfrag.readBe16 ip.frag_lt, ?_⟩
    rw [if_neg ip.whole]
    refine yields_bind.mpr ⟨_, yields_readAddress hdstBytes, ?_⟩
    rw [if_neg hlocal]
    refine yields_bind.mpr ⟨_, yields_readAddress hsrc, ?_⟩
    refine yields_bind.mpr ⟨_, hcarries.source, ?_⟩
    refine yields_bind.mpr ⟨_, yields_readByte.mpr hproto, ?_⟩
    exact yields_bind.mpr ⟨_, hcontent, (yields_pure _ _).mpr rfl⟩
  unfold receiveFrame
  split_ifs
  · refine yields_bind.mpr ⟨_, hcarries.ethertype, ?_⟩
    rwa [if_neg (by decide)]
  · exact hpacket

end Carries

/-! ### Packets of the stack itself -/

/-- The IPv4 header that the stack sends. -/
def sentHeader (proto : UInt8) (id : ℕ) (srcIp dstIp : Ipv4Address) (payloadLen : ℕ)
    (hpayload : payloadLen < 65516) : Ipv4Header where
  tos := 0
  totalLen := ipv4HdrSize + payloadLen
  id := id
  frag := 0x4000
  ttl := 64
  proto := proto
  checksum := ipv4Checksum16 ([0x45, 0] ++ be16 (ipv4HdrSize + payloadLen) ++ be16 id ++
    be16 0x4000 ++ [64, proto] ++ [0, 0] ++ (srcIp.bytes ++ dstIp.bytes))
  srcIp := srcIp
  dstIp := dstIp
  options := []
  totalLen_lt := by
    rw [ipv4HdrSize]
    omega
  frag_lt := by decide
  whole := by decide
  aligned := rfl
  short := Nat.zero_le _

theorem bytes_sentHeader (proto : UInt8) (id : ℕ) (srcIp dstIp : Ipv4Address) (payloadLen : ℕ)
    (hpayload : payloadLen < 65516) :
    (sentHeader proto id srcIp dstIp payloadLen hpayload).bytes =
      ipv4Header proto id srcIp dstIp payloadLen := by
  simp [Ipv4Header.bytes, sentHeader, ipv4Header, Ipv4Header.verIhl, Ipv4Address.bytes]

/-- What a buffer with a packet of the stack holds. -/
theorem carries_sent {proto : UInt8} {id payloadLen : ℕ} {rest : List UInt8}
    (hdstMac : dstMac.length = 6) (hsrcMac : srcMac.length = 6) (hpayload : payloadLen < 65516)
    (hroom : 34 ≤ len)
    (hframe : Holds frame 0
      (ethHeader dstMac srcMac ++ ipv4Header proto id srcIp dstIp payloadLen ++ rest)) :
    Carries frame len dstMac srcMac (sentHeader proto id srcIp dstIp payloadLen hpayload) ∧
      Holds frame 16 (be16 (ipv4HdrSize + payloadLen)) ∧ Holds frame 34 rest := by
  have heth : (ethHeader dstMac srcMac).length = 14 := by
    simp [ethHeader, hdstMac, hsrcMac]
  have hip : (ipv4Header proto id srcIp dstIp payloadLen).length = 20 := rfl
  obtain ⟨hheaders, hrest⟩ := holds_append.mp hframe
  obtain ⟨hethBytes, hipBytes⟩ := holds_append.mp hheaders
  rw [List.length_append, heth, hip] at hrest
  rw [heth] at hipBytes
  have hcarries : Carries frame len dstMac srcMac
      (sentHeader proto id srcIp dstIp payloadLen hpayload) :=
    { dstMac_length := hdstMac
      srcMac_length := hsrcMac
      eth := hethBytes
      header := by
        rw [bytes_sentHeader]
        exact hipBytes
      room := hroom }
  exact ⟨hcarries, hcarries.fields.2.1, hrest⟩

/-! ### TCP segments -/

/-- The segment that a TCP header and a payload make up. -/
def segmentOf (srcIp dstIp : Ipv4Address) (header payload : List UInt8) : Tcp.Segment where
  srcIp := srcIp.value
  srcPort := word (header.getD 0 0) (header.getD 1 0)
  dstIp := dstIp.value
  dstPort := word (header.getD 2 0) (header.getD 3 0)
  seq := doubleWord (header.getD 4 0) (header.getD 5 0) (header.getD 6 0) (header.getD 7 0)
  ack := doubleWord (header.getD 8 0) (header.getD 9 0) (header.getD 10 0) (header.getD 11 0)
  flags := (header.getD 13 0).toNat
  payload := payload

/-- A TCP header and a payload in an IPv4 packet, as long as they say. -/
structure CarriesTcp (frame : ℕ → UInt8) (len ipHdrLen : ℕ) (header payload : List UInt8) :
    Prop where
  totalLen : Holds frame 16 (be16 (ipHdrLen + header.length + payload.length))
  headerBytes : Holds frame (ethHdrSize + ipHdrLen) header
  payloadBytes : Holds frame (ethHdrSize + ipHdrLen + header.length) payload
  room : ethHdrSize + ipHdrLen + header.length + payload.length ≤ len
  headerLength : header.length = (header.getD 12 0).toNat / 16 * 4
  wholeHeader : tcpHdrSize ≤ header.length
  srcPort : word (header.getD 0 0) (header.getD 1 0) ≠ 0
  dstPort : word (header.getD 2 0) (header.getD 3 0) ≠ 0

/-- What `net_poll` makes of it: the segment, where the checksum is right. -/
theorem CarriesTcp.yields_receiveTcp (hcarries : CarriesTcp frame len ipHdrLen header payload)
    (hlen : len < 65536) :
    (receiveTcp frame len ipHdrLen srcIp dstIp).Yields
      (if tcpChecksumOk srcIp dstIp header payload = false then .nothing
      else .tcp (segmentOf srcIp dstIp header payload)) := by
  obtain ⟨htotal, hheader, hpayload, hroom, hlength, hwhole, hsrc, hdst⟩ := hcarries
  rw [tcpHdrSize] at hwhole
  rw [ethHdrSize] at hheader hpayload hroom
  have hbyte (index : ℕ) (hindex : index < 20) :
      frame (14 + ipHdrLen + index) = header.getD index 0 := by
    rw [hheader index (by omega), List.getD_eq_getElem _ _ (by omega)]
  have hword (index : ℕ) (hindex : index + 1 < 20) :
      (readBe16 frame (14 + ipHdrLen + index)).Yields
        (word (header.getD index 0) (header.getD (index + 1) 0)) := by
    rw [yields_readBe16, hbyte index (by omega), Nat.add_assoc, hbyte (index + 1) hindex]
  have hdouble (index : ℕ) (hindex : index + 3 < 20) :
      (readBe32 frame (14 + ipHdrLen + index)).Yields
        (doubleWord (header.getD index 0) (header.getD (index + 1) 0)
          (header.getD (index + 2) 0) (header.getD (index + 3) 0)) := by
    rw [yields_readBe32, hbyte index (by omega), Nat.add_assoc, hbyte (index + 1) (by omega),
      Nat.add_assoc, hbyte (index + 2) (by omega), Nat.add_assoc, hbyte (index + 3) hindex]
  have hports : ¬(word (header.getD 2 0) (header.getD 3 0) = 0 ∨
      word (header.getD 0 0) (header.getD 1 0) = 0) := not_or.mpr ⟨hdst, hsrc⟩
  have havailable : availableLen len (14 + ipHdrLen + header.length)
      (if ipHdrLen + header.length ≤ ipHdrLen + header.length + payload.length then
        ipHdrLen + header.length + payload.length - ipHdrLen - header.length else 0) =
      payload.length := by
    have hsub : ipHdrLen + header.length + payload.length - ipHdrLen - header.length =
        payload.length := by omega
    rw [if_pos (Nat.le_add_right _ _), hsub]
    exact if_neg (by omega)
  unfold receiveTcp ethHdrSize tcpHdrSize
  rw [if_neg (by omega)]
  refine yields_bind.mpr ⟨_, yields_readByte.mpr (hbyte 12 (by omega)), ?_⟩
  rw [← hlength, if_neg (Nat.not_lt_of_le hwhole)]
  refine yields_bind.mpr ⟨_, hword 0 (by omega), yields_bind.mpr ⟨_, hword 2 (by omega), ?_⟩⟩
  rw [if_neg hports]
  refine yields_bind.mpr ⟨_, htotal.readBe16 (by omega), ?_⟩
  rw [if_neg (by omega), havailable]
  refine yields_bind.mpr ⟨_, hheader.readBytes, yields_bind.mpr ⟨_, hpayload.readBytes, ?_⟩⟩
  split_ifs
  · exact (yields_pure _ _).mpr rfl
  · refine yields_bind.mpr ⟨_, hdouble 4 (by omega), yields_bind.mpr ⟨_, hdouble 8 (by omega), ?_⟩⟩
    refine yields_bind.mpr ⟨_, yields_readByte.mpr (hbyte 13 (by omega)), ?_⟩
    exact (yields_pure _ _).mpr rfl

/-! ### UDP datagrams -/

/-- A UDP header and a payload in an IPv4 packet. -/
structure CarriesUdp (frame : ℕ → UInt8) (len ipHdrLen srcPort dstPort checksum : ℕ)
    (payload : List UInt8) : Prop where
  headerBytes : Holds frame (ethHdrSize + ipHdrLen)
    (be16 srcPort ++ be16 dstPort ++ be16 (udpHdrSize + payload.length) ++ be16 checksum)
  payloadBytes : Holds frame (ethHdrSize + ipHdrLen + udpHdrSize) payload
  room : ethHdrSize + ipHdrLen + udpHdrSize + payload.length ≤ len
  srcPort : srcPort ≠ 0 ∧ srcPort < 65536
  dstPort : dstPort ≠ 0 ∧ dstPort < 65536

/-- What `net_poll` makes of it: the datagram, where the checksum is right. -/
theorem CarriesUdp.yields_receiveUdp {srcPort dstPort checksum : ℕ}
    (hcarries : CarriesUdp frame len ipHdrLen srcPort dstPort checksum payload)
    (hlen : len < 65536)
    (hchecksum : checksum = udpChecksum16 srcIp dstIp srcPort dstPort
      (udpHdrSize + payload.length) payload) :
    (receiveUdp frame len ipHdrLen srcIp dstIp).Yields
      (.udp { srcIp := srcIp, srcPort := srcPort, dstIp := dstIp, dstPort := dstPort
              payload := payload }) := by
  obtain ⟨hheader, hpayload, hroom, hsrc, hdst⟩ := hcarries
  simp only [holds_append, List.length_append, length_be16] at hheader
  obtain ⟨⟨⟨hsrcBytes, hdstBytes⟩, htotal⟩, hfield⟩ := hheader
  rw [ethHdrSize, udpHdrSize] at *
  have havailable : availableLen len (14 + ipHdrLen + 8) (8 + payload.length - 8) =
      payload.length := by
    rw [Nat.add_sub_cancel_left]
    exact if_neg (by omega)
  have hfieldLt : checksum < 65536 := hchecksum ▸ complement16_lt _
  unfold receiveUdp ethHdrSize udpHdrSize
  rw [if_neg (by omega)]
  refine yields_bind.mpr ⟨_, hsrcBytes.readBe16 hsrc.2, ?_⟩
  refine yields_bind.mpr ⟨_, hdstBytes.readBe16 hdst.2, ?_⟩
  rw [if_neg (not_or.mpr ⟨hdst.1, hsrc.1⟩)]
  refine yields_bind.mpr ⟨_, htotal.readBe16 (by omega), ?_⟩
  rw [if_neg (by omega), if_neg (by omega), havailable]
  refine yields_bind.mpr ⟨_, hfield.readBe16 hfieldLt, yields_bind.mpr ⟨_, hpayload.readBytes, ?_⟩⟩
  rw [if_neg fun hwrong ↦ hwrong.2 hchecksum]
  exact (yields_pure _ _).mpr rfl

end EynOS.Network
