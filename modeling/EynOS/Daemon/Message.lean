import EynOS.Foundation.Framing

/-!
# Messages of the daemon library

A message on a FIFO is an `eyn_daemon_hdr_t` and the payload. `encode` is what the senders write;
`framing` is how `eyn_daemon__recv_framed` reads it: the header, then the payload in pieces of 256
bytes. `isFrame_encode` says that it reads what was written.
-/

namespace EynOS.Daemon

open Foundation

def EYN_DAEMON_PATH_MAX : ℕ := 96

def EYN_DAEMON_MSG_MAX : ℕ := 2048

def EYN_DAEMON_MAGIC : ℕ := 0x444E4559

def wordBytes (value : ℕ) : List UInt8 :=
  [UInt8.ofNat value, UInt8.ofNat (value / 256), UInt8.ofNat (value / 65536),
    UInt8.ofNat (value / 16777216)]

def bytesWord : List UInt8 → ℕ
  | [first, second, third, fourth] =>
    first.toNat + 256 * second.toNat + 65536 * third.toNat + 16777216 * fourth.toNat
  | _ => 0

theorem bytesWord_wordBytes {value : ℕ} (hvalue : value < 4294967296) :
    bytesWord (wordBytes value) = value := by
  unfold bytesWord wordBytes
  simp only [UInt8.toNat_ofNat']
  omega

/-- `eyn_daemon_hdr_t`. -/
structure Header where
  magic : ℕ
  payloadLen : ℕ
  wantsReply : ℕ
  replyPath : List UInt8

/-- The size of `eyn_daemon_hdr_t`. -/
def headerSize : ℕ := 12 + EYN_DAEMON_PATH_MAX

def Header.bytes (header : Header) : List UInt8 :=
  wordBytes header.magic ++ wordBytes header.payloadLen ++ wordBytes header.wantsReply ++
    header.replyPath

def Header.ofBytes (bytes : List UInt8) : Header where
  magic := bytesWord (bytes.take 4)
  payloadLen := bytesWord ((bytes.drop 4).take 4)
  wantsReply := bytesWord ((bytes.drop 8).take 4)
  replyPath := (bytes.drop 12).take EYN_DAEMON_PATH_MAX

/-- A message: its payload, the flag that asks for a reply, and all bytes of the reply path, those
behind its end included. -/
structure Message where
  payload : List UInt8
  wantsReply : ℕ
  replyPath : List UInt8
  payload_lt : payload.length < 4294967296
  path_length : replyPath.length = EYN_DAEMON_PATH_MAX

def Message.header (message : Message) : Header where
  magic := EYN_DAEMON_MAGIC
  payloadLen := message.payload.length
  wantsReply := message.wantsReply
  replyPath := message.replyPath

def Message.encode (message : Message) : List UInt8 := message.header.bytes ++ message.payload

/-- The payload length of a header, unless its magic number is wrong. -/
def payloadLength (bytes : List UInt8) : Option ℕ :=
  if (Header.ofBytes bytes).magic = EYN_DAEMON_MAGIC then some (Header.ofBytes bytes).payloadLen
  else none

/-- How `eyn_daemon__recv_framed` reads a message from a stream whose items have a byte each. -/
def framing {Item : Type*} (byte : Item → UInt8) : Framing Item where
  headerLength := headerSize
  bodyLength items := payloadLength (items.map byte)
  chunk := 256
  chunk_pos := by decide

/-- What `eyn_daemon__recv_framed` copies to a buffer from a message that it has read. -/
def received (bufCap : ℕ) (bytes : List UInt8) : List UInt8 := (bytes.drop headerSize).take bufCap

variable {Item : Type*} {byte : Item → UInt8} {items : List Item} {message : Message}

@[simp] theorem length_wordBytes (value : ℕ) : (wordBytes value).length = 4 := rfl

@[simp] theorem length_header (message : Message) : message.header.bytes.length = headerSize := by
  simp [Header.bytes, Message.header, message.path_length, headerSize, EYN_DAEMON_PATH_MAX]

@[simp] theorem length_encode (message : Message) :
    message.encode.length = headerSize + message.payload.length := by
  rw [Message.encode, List.length_append, length_header]

/-- The header of a message is read back. -/
theorem payloadLength_header (message : Message) :
    payloadLength message.header.bytes = some message.payload.length := by
  have hmagic : (Header.ofBytes message.header.bytes).magic = EYN_DAEMON_MAGIC := by
    unfold Header.ofBytes Header.bytes
    simp only [List.append_assoc]
    rw [List.take_left' (length_wordBytes _)]
    exact bytesWord_wordBytes (by decide : EYN_DAEMON_MAGIC < 4294967296)
  have hlen : (Header.ofBytes message.header.bytes).payloadLen = message.payload.length := by
    unfold Header.ofBytes Header.bytes
    simp only [List.append_assoc]
    rw [List.drop_left' (length_wordBytes _), List.take_left' (length_wordBytes _)]
    exact bytesWord_wordBytes message.payload_lt
  rw [payloadLength, if_pos hmagic, hlen]

/-- What is written for a message is read as a frame. -/
theorem isFrame_encode (hitems : items.map byte = message.encode) :
    (framing byte).IsFrame items := by
  have hlength : items.length = headerSize + message.payload.length := by
    rw [← length_encode, ← hitems, List.length_map]
  constructor
  · exact hlength ▸ Nat.le_add_right _ _
  · change payloadLength ((items.take headerSize).map byte) = some (items.length - headerSize)
    rw [List.map_take, hitems, Message.encode, List.take_left' (length_header message),
      payloadLength_header, hlength, Nat.add_sub_cancel_left]

/-- The payload of a message, cut off at the length of the buffer, is copied. -/
theorem received_encode (bufCap : ℕ) (message : Message) :
    received bufCap message.encode = message.payload.take bufCap := by
  rw [received, Message.encode, List.drop_left' (length_header message)]

end EynOS.Daemon
