import EynOS.Network.DnsName
import EynOS.Network.Frame

/-!
# Replies of name servers and DHCP servers

What `net_dns_resolve` and `net_dhcp_request` of `netstack.c` read in one received message. The
resolver checks the header, steps over the questions and looks for an address among the answers. The
DHCP client checks the header and walks the options behind it, once for an offer and once for an
acknowledgement, where a walk stops at the end option, at the end of the message, or at an option
that would lead out of it.

Loops are given the turns that suffice for them. Not modelled: sending, the wait for a message, the
check of its sender, and what is done with the result.
-/

namespace EynOS.Network

open Foundation Traced Reader

namespace Dns

/-! ### Responses of a name server -/

/-- How `net_dns_resolve` goes on after a message: with the next one, with a failure, or with the
address that it looked for. -/
inductive Answer
  | next
  | failed (rc : ℤ)
  | address (ip : Ipv4Address)

/-- A turn of the loop over the questions, with their number so far and the offset. -/
def questionTurn (rx : ℕ → UInt8) (len qdcount : ℕ) :
    ℕ × ℕ → Reader (Except ℤ ℕ ⊕ ℕ × ℕ)
  | (q, roff) =>
    if q < qdcount then do
      match ← dnsSkipName rx len roff with
      | .error _ => pure (.inl (.error (-9)))
      | .ok roff =>
        if len < u32 (roff + 4) then pure (.inl (.error (-9)))
        else pure (.inr (q + 1, u32 (roff + 4)))
    else pure (.inl (.ok roff))

/-- A turn of the loop over the answers, with their number so far and the offset. -/
def answerTurn (rx : ℕ → UInt8) (len ancount : ℕ) : ℕ × ℕ → Reader (Answer ⊕ ℕ × ℕ)
  | (a, roff) =>
    if a < ancount then do
      match ← dnsSkipName rx len roff with
      | .error _ => pure (.inl (.failed (-10)))
      | .ok roff =>
        if len < u32 (roff + 10) then pure (.inl (.failed (-10)))
        else do
          let type ← readBe16 rx roff
          let class' ← readBe16 rx (roff + 2)
          let rdlen ← readBe16 rx (roff + 8)
          let roff := u32 (roff + 10)
          if len < u32 (roff + rdlen) then pure (.inl (.failed (-11)))
          else if type = 1 ∧ class' = 1 ∧ rdlen = 4 then do
            let ip ← readAddress rx roff
            pure (.inl (.address ip))
          else pure (.inr (a + 1, u32 (roff + rdlen)))
    else pure (.inl .next)

/-- What `net_dns_resolve` makes of a message for its question. -/
def dnsResponse (txId : ℕ) (rx : ℕ → UInt8) (len : ℕ) : Reader Answer :=
  if len < 12 then pure .next
  else do
    let rxId ← readBe16 rx 0
    if rxId ≠ txId then pure .next
    else do
      let flags ← readBe16 rx 2
      if flags &&& 0x8000 = 0 then pure .next
      else if flags &&& 0x000F ≠ 0 then pure (.failed (-8))
      else do
        let qdcount ← readBe16 rx 4
        let ancount ← readBe16 rx 6
        match ← turns (questionTurn rx len qdcount) (qdcount + 1) (0, 12) with
        | .error rc => pure (.failed rc)
        | .ok roff => turns (answerTurn rx len ancount) (ancount + 1) (0, roff)

end Dns

namespace Dhcp

/-! ### Replies of a DHCP server -/

/-- `NET_DHCP_MAGIC_COOKIE`. -/
def magicCookie : ℕ := 0x63825363

/-- What the options of replies have said. -/
structure Options where
  msgType : UInt8
  netmask : Ipv4Address
  gateway : Ipv4Address
  dns : Ipv4Address
  serverId : Ipv4Address

/-- Take an option over. Only the walk over an offer looks at the identifier of the server. -/
def takeOption (takesServerId : Bool) (rx : ℕ → UInt8) (roff : ℕ) (opt optLen : UInt8)
    (options : Options) : Reader Options :=
  if opt = 53 ∧ optLen = 1 then do
    let msgType ← readByte rx roff
    pure { options with msgType := msgType }
  else if opt = 1 ∧ optLen = 4 then do
    let netmask ← readAddress rx roff
    pure { options with netmask := netmask }
  else if opt = 3 ∧ 4 ≤ optLen.toNat then do
    let gateway ← readAddress rx roff
    pure { options with gateway := gateway }
  else if opt = 6 ∧ 4 ≤ optLen.toNat then do
    let dns ← readAddress rx roff
    pure { options with dns := dns }
  else if takesServerId ∧ opt = 54 ∧ optLen = 4 then do
    let serverId ← readAddress rx roff
    pure { options with serverId := serverId }
  else pure options

/-- A turn of the walk over the options. -/
def optionTurn (takesServerId : Bool) (rx : ℕ → UInt8) (len : ℕ) :
    ℕ × Options → Reader (Options ⊕ ℕ × Options)
  | (roff, options) =>
    if roff < len then do
      let opt ← readByte rx roff
      let roff := u32 (roff + 1)
      if opt = 255 then pure (.inl options)
      else if opt = 0 then pure (.inr (roff, options))
      else if len ≤ roff then pure (.inl options)
      else do
        let optLen ← readByte rx roff
        let roff := u32 (roff + 1)
        if len < u32 (roff + optLen.toNat) then pure (.inl options)
        else do
          let options ← takeOption takesServerId rx roff opt optLen options
          pure (.inr (u32 (roff + optLen.toNat), options))
    else pure (.inl options)

/-- What `net_dhcp_request` makes of a message while it waits for a reply of one type: what the
options have said by then, and the address in a reply of that type. -/
def dhcpReply (takesServerId : Bool) (wanted : UInt8) (xid : ℕ) (options : Options)
    (rx : ℕ → UInt8) (len : ℕ) : Reader (Options × Option Ipv4Address) :=
  if len < 240 then pure (options, none)
  else do
    let rxXid ← readBe32 rx 4
    let op ← readByte rx 0
    if op ≠ 2 ∨ rxXid ≠ xid then pure (options, none)
    else do
      let cookie ← readBe32 rx 236
      if cookie ≠ magicCookie then pure (options, none)
      else do
        let options ← turns (optionTurn takesServerId rx len) (len + 1)
          (240, { options with msgType := 0 })
        if options.msgType ≠ wanted then pure (options, none)
        else do
          let ip ← readAddress rx 16
          pure (options, some ip)

def dhcpOffer : ℕ → Options → (ℕ → UInt8) → ℕ → Reader (Options × Option Ipv4Address) :=
  dhcpReply true 2

/-- The wait for an acknowledgement. -/
def dhcpAck : ℕ → Options → (ℕ → UInt8) → ℕ → Reader (Options × Option Ipv4Address) :=
  dhcpReply false 5

end Dhcp

end EynOS.Network
