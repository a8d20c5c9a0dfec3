import EynOS.Foundation.Reader
import EynOS.Network.Checksum
import EynOS.Network.Tcp

/-!
# Frames

What `net_poll` of `netstack.c` reads in one frame that the driver delivered, from the Ethernet
header down to the payload, and what it makes of it: an entry for the address table, an answer to an
echo request, a TCP segment or a UDP datagram. The buffer holds what it held before behind the bytes
that were delivered; a frame is that buffer with the delivered length. `tcp_send_segment` and
`net_udp_send` are here as far as they lay out a frame.

The reads of a layer that several branches repeat, and those that handling a segment or an echo
message may make, are made once, before the branch. Not modelled: statistics and messages, the
address table, and what answers are made of.
-/

namespace EynOS.Network

open Foundation Traced Reader

/-! ### Layout -/

/-- `sizeof(eth_hdr)`. -/
def ethHdrSize : ℕ := 14

/-- `sizeof(arp_pkt)`. -/
def arpPktSize : ℕ := 28

/-- `sizeof(ipv4_hdr)`. -/
def ipv4HdrSize : ℕ := 20

/-- `sizeof(icmp_echo_hdr)`. -/
def icmpEchoHdrSize : ℕ := 8

/-- `sizeof(udp_hdr)`. -/
def udpHdrSize : ℕ := 8

def Ipv4Address.value (address : Ipv4Address) : ℕ :=
  doubleWord address.a address.b address.c address.d

def ipv4IsBroadcast (ip : Ipv4Address) : Bool :=
  ip = { a := 255, b := 255, c := 255, d := 255 }

/-- A datagram as `udp_rxq_enqueue` gets it. -/
structure Datagram where
  srcIp : Ipv4Address
  srcPort : ℕ
  dstIp : Ipv4Address
  dstPort : ℕ
  payload : List UInt8
deriving DecidableEq

/-- What a frame holds for the rest of the stack. -/
inductive Content
  | nothing
  | arpRequest (sha : List UInt8) (spa : Ipv4Address)
  | echoRequest (srcMac : List UInt8) (srcIp dstIp : Ipv4Address) (id seq : ℕ)
    (payload : List UInt8)
  | echoReply (srcIp : Ipv4Address) (id seq payloadLen : ℕ)
  | tcp (segment : Tcp.Segment)
  | udp (datagram : Datagram)

/-- What `net_poll` makes of a frame: the pair that it puts into the address table, and the
content. -/
structure Received where
  learned : Option (Ipv4Address × List UInt8)
  content : Content

/-! ### Parsing -/

def readAddress (frame : ℕ → UInt8) (index : ℕ) : Reader Ipv4Address := do
  let a ← readByte frame index
  let b ← readByte frame (index + 1)
  let c ← readByte frame (index + 2)
  let d ← readByte frame (index + 3)
  pure { a := a, b := b, c := c, d := d }

/-- The length of a payload, cut off at the end of the frame. -/
def availableLen (len payloadOff payloadLen : ℕ) : ℕ :=
  if len < payloadOff + payloadLen then if payloadOff < len then len - payloadOff else 0
  else payloadLen

/-- An ARP packet: learn from it, and answer a request for the own address. -/
def receiveArp (localIp : Ipv4Address) (frame : ℕ → UInt8) : Reader Received := do
  let oper ← readBe16 frame (ethHdrSize + 6)
  if oper = 1 then
    let sha ← readBytes frame (ethHdrSize + 8) 6
    let spa ← readAddress frame (ethHdrSize + 14)
    let tpa ← readAddress frame (ethHdrSize + 24)
    pure
      { learned := some (spa, sha)
        content := if tpa = localIp then .arpRequest sha spa else .nothing }
  else if oper = 2 then
    let sha ← readBytes frame (ethHdrSize + 8) 6
    let spa ← readAddress frame (ethHdrSize + 14)
    pure { learned := some (spa, sha), content := .nothing }
  else pure { learned := none, content := .nothing }

/-- An ICMP message. -/
def receiveIcmp (frame : ℕ → UInt8) (len ipHdrLen : ℕ) (srcMac : List UInt8)
    (srcIp dstIp : Ipv4Address) : Reader Content :=
  if len < ethHdrSize + ipHdrLen + icmpEchoHdrSize then pure .nothing
  else do
    let icmp := ethHdrSize + ipHdrLen
    let id ← readBe16 frame (icmp + 4)
    let seq ← readBe16 frame (icmp + 6)
    let ipTotalLen ← readBe16 frame (ethHdrSize + 2)
    if ipTotalLen < ipHdrLen + icmpEchoHdrSize then pure .nothing
    else
      let payloadLen := ipTotalLen - ipHdrLen - icmpEchoHdrSize
      let payloadOff := icmp + icmpEchoHdrSize
      if len < payloadOff then pure .nothing
      else do
        let payloadLen := availableLen len payloadOff payloadLen
        let type ← readByte frame icmp
        let code ← readByte frame (icmp + 1)
        if type = 8 ∧ code = 0 then
          let payload ← readBytes frame payloadOff payloadLen
          pure (.echoRequest srcMac srcIp dstIp id seq payload)
        else if type = 0 ∧ code = 0 then pure (.echoReply srcIp id seq payloadLen)
        else pure .nothing

/-- A TCP segment, with its checksum verified where it has one. -/
def receiveTcp (frame : ℕ → UInt8) (len ipHdrLen : ℕ) (srcIp dstIp : Ipv4Address) :
    Reader Content :=
  if len < ethHdrSize + ipHdrLen + tcpHdrSize then pure .nothing
  else do
    let tcp := ethHdrSize + ipHdrLen
    let dataOff ← readByte frame (tcp + 12)
    let tcpHdrLen := dataOff.toNat / 16 * 4
    if tcpHdrLen < tcpHdrSize then pure .nothing
    else do
      let srcPort ← readBe16 frame tcp
      let dstPort ← readBe16 frame (tcp + 2)
      if dstPort = 0 ∨ srcPort = 0 then pure .nothing
      else do
        let payloadOff := tcp + tcpHdrLen
        let ipTotalLen ← readBe16 frame (ethHdrSize + 2)
        let payloadLen :=
          if ipHdrLen + tcpHdrLen ≤ ipTotalLen then ipTotalLen - ipHdrLen - tcpHdrLen else 0
        if len < payloadOff then pure .nothing
        else do
          let header ← readBytes frame tcp tcpHdrLen
          let payload ← readBytes frame payloadOff (availableLen len payloadOff payloadLen)
          if tcpChecksumOk srcIp dstIp header payload = false then pure .nothing
          else do
            let seq ← readBe32 frame (tcp + 4)
            let ack ← readBe32 frame (tcp + 8)
            let flags ← readByte frame (tcp + 13)
            pure (.tcp
              { srcIp := srcIp.value, srcPort := srcPort, dstIp := dstIp.value
                dstPort := dstPort, seq := seq, ack := ack, flags := flags.toNat
                payload := payload })

/-- A UDP datagram, with its checksum verified where it has one. -/
def receiveUdp (frame : ℕ → UInt8) (len ipHdrLen : ℕ) (srcIp dstIp : Ipv4Address) :
    Reader Content :=
  if len < ethHdrSize + ipHdrLen + udpHdrSize then pure .nothing
  else do
    let udp := ethHdrSize + ipHdrLen
    let srcPort ← readBe16 frame udp
    let dstPort ← readBe16 frame (udp + 2)
    if dstPort = 0 ∨ srcPort = 0 then pure .nothing
    else do
      let udpTotalLen ← readBe16 frame (udp + 4)
      if udpTotalLen < udpHdrSize then pure .nothing
      else
        let payloadOff := udp + udpHdrSize
        if len < payloadOff then pure .nothing
        else do
          let saved ← readBe16 frame (udp + 6)
          let payload ← readBytes frame payloadOff
            (availableLen len payloadOff (udpTotalLen - udpHdrSize))
          if saved ≠ 0 ∧ saved ≠ udpChecksum16 srcIp dstIp srcPort dstPort udpTotalLen payload then
            pure .nothing
          else
            pure (.udp
              { srcIp := srcIp, srcPort := srcPort, dstIp := dstIp, dstPort := dstPort
                payload := payload })

def receivePacket (localIp : Ipv4Address) (frame : ℕ → UInt8) (len ipHdrLen : ℕ) (proto : UInt8)
    (srcMac : List UInt8) (srcIp dstIp : Ipv4Address) : Reader Content :=
  if proto = 1 then
    if dstIp ≠ localIp then pure .nothing
    else receiveIcmp frame len ipHdrLen srcMac srcIp dstIp
  else if proto = 6 then
    if dstIp ≠ localIp then pure .nothing
    else receiveTcp frame len ipHdrLen srcIp dstIp
  else if proto ≠ 17 then pure .nothing
  else receiveUdp frame len ipHdrLen srcIp dstIp

/-- An IPv4 packet for the own address or for all. -/
def receiveIpv4 (localIp : Ipv4Address) (frame : ℕ → UInt8) (len : ℕ) : Reader Received :=
  if len < ethHdrSize + ipv4HdrSize then pure { learned := none, content := .nothing }
  else do
    let ethertype ← readBe16 frame 12
    if ethertype ≠ 0x0800 then pure { learned := none, content := .nothing }
    else do
      let verIhl ← readByte frame ethHdrSize
      let ihlWords := verIhl.toNat % 16
      if verIhl.toNat / 16 ≠ 4 ∨ ihlWords < 5 then pure { learned := none, content := .nothing }
      else do
        let ipHdrLen := ihlWords * 4
        let frag ← readBe16 frame (ethHdrSize + 6)
        if frag &&& 0x1FFF ≠ 0 ∨ frag &&& 0xE000 &&& 0x2000 ≠ 0 then
          pure { learned := none, content := .nothing }
        else do
          let dstIp ← readAddress frame (ethHdrSize + 16)
          if dstIp ≠ localIp ∧ ipv4IsBroadcast dstIp = false then
            pure { learned := none, content := .nothing }
          else do
            let srcIp ← readAddress frame (ethHdrSize + 12)
            let srcMac ← readBytes frame 6 6
            let proto ← readByte frame (ethHdrSize + 9)
            let content ← receivePacket localIp frame len ipHdrLen proto srcMac srcIp dstIp
            pure { learned := some (srcIp, srcMac), content := content }

/-- What `net_poll` does with a frame. -/
def receiveFrame (localIp : Ipv4Address) (frame : ℕ → UInt8) (len : ℕ) : Reader Received :=
  if ethHdrSize + arpPktSize ≤ len then do
    let ethertype ← readBe16 frame 12
    if ethertype = 0x0806 then receiveArp localIp frame
    else receiveIpv4 localIp frame len
  else receiveIpv4 localIp frame len

/-! ### Sending -/

def ethHeader (dstMac srcMac : List UInt8) : List UInt8 :=
  dstMac ++ srcMac ++ be16 0x0800

def ipv4Header (proto : UInt8) (id : ℕ) (srcIp dstIp : Ipv4Address) (payloadLen : ℕ) :
    List UInt8 :=
  let head := [0x45, 0] ++ be16 (ipv4HdrSize + payloadLen) ++ be16 id ++ be16 0x4000 ++ [64, proto]
  let addresses := srcIp.bytes ++ dstIp.bytes
  head ++ be16 (ipv4Checksum16 (head ++ [0, 0] ++ addresses)) ++ addresses

/-- The TCP header of a segment, with a value in its checksum field. -/
def tcpHeader (srcPort dstPort seq ack flags checksum : ℕ) : List UInt8 :=
  be16 srcPort ++ be16 dstPort ++ be32 seq ++ be32 ack ++ [0x50, UInt8.ofNat flags] ++
    be16 4096 ++ be16 checksum ++ [0, 0]

/-- The frame of `tcp_send_segment`. -/
def tcpFrame (dstMac srcMac : List UInt8) (id : ℕ) (srcIp : Ipv4Address) (srcPort : ℕ)
    (dstIp : Ipv4Address) (dstPort seq ack flags : ℕ) (payload : List UInt8) : List UInt8 :=
  let checksum := tcpChecksum16Ex srcIp dstIp (tcpHeader srcPort dstPort seq ack flags 0) payload
  ethHeader dstMac srcMac ++ ipv4Header 6 id srcIp dstIp (tcpHdrSize + payload.length) ++
    tcpHeader srcPort dstPort seq ack flags checksum ++ payload

/-- The frame of `net_udp_send`, filled up to the least length of a frame. -/
def udpFrame (dstMac srcMac : List UInt8) (id : ℕ) (datagram : Datagram) : List UInt8 :=
  let len := udpHdrSize + datagram.payload.length
  let checksum := udpChecksum16 datagram.srcIp datagram.dstIp datagram.srcPort datagram.dstPort len
    datagram.payload
  let frame := ethHeader dstMac srcMac ++ ipv4Header 17 id datagram.srcIp datagram.dstIp len ++
    (be16 datagram.srcPort ++ be16 datagram.dstPort ++ be16 len ++ be16 checksum) ++
    datagram.payload
  frame ++ List.replicate (60 - frame.length) 0

end EynOS.Network
