import GazeboRcll.Library.BigEndian
import GazeboRcll.Library.Strings

/-!
# Messages in a byte stream

`ProtobufStreamClient::send` puts a frame header before every message, and the receive loop
(`handle_read_header`, `handle_read_message`) takes the stream apart again. In version 2 the
payload starts with the message header and `payload_size` counts it; in version 1 the ids
are part of the frame header and are not counted. `MessageRegister` always counts them.

The receive buffer is reused, so that the bytes of earlier frames stay behind those of the
last one.

Main results: `receive_frames` (what is sent is received) and `safe_iff_sizeOk` (the frames of
which nothing but their own bytes is used).
-/

namespace GazeboRcll

abbrev Bytes := List UInt8

/-! ## Headers -/

def htonl (n : ℕ) : Bytes := BigEndian.encode 4 n

def ntohl (bs : Bytes) : ℕ := BigEndian.decode bs

def htons (n : ℕ) : Bytes := BigEndian.encode 2 n

def ntohs (bs : Bytes) : ℕ := BigEndian.decode bs

/-- `frame_header_version_t`. -/
inductive FrameVersion where
  | V1 | V2
deriving DecidableEq, Repr

/-- `frame_header_t`, the size as its four bytes in memory. -/
structure FrameHeader where
  headerVersion : UInt8
  cipher : UInt8
  reserved2 : UInt8
  reserved3 : UInt8
  payloadSize : Bytes
deriving DecidableEq

/-- `message_header_t`, its fields as their bytes in memory. -/
structure MessageHeader where
  componentId : Bytes
  msgType : Bytes
deriving DecidableEq

/-- `frame_header_v1_t`, its fields as their bytes in memory. -/
structure FrameHeaderV1 where
  componentId : Bytes
  msgType : Bytes
  payloadSize : Bytes
deriving DecidableEq

/-- `sizeof(message_header_t)`. -/
def sizeofMessageHeader : ℕ := 4

/-- `in_frame_header_size_`; the headers of both versions have eight bytes. -/
def FrameVersion.headerSize : FrameVersion → ℕ
  | .V1 => 8
  | .V2 => 8

def FrameHeader.bytes (h : FrameHeader) : Bytes :=
  [h.headerVersion, h.cipher, h.reserved2, h.reserved3] ++ h.payloadSize

def MessageHeader.bytes (h : MessageHeader) : Bytes := h.componentId ++ h.msgType

def FrameHeaderV1.bytes (h : FrameHeaderV1) : Bytes :=
  h.componentId ++ h.msgType ++ h.payloadSize

/-- The bytes at the beginning of `mem` as a `message_header_t`. -/
def MessageHeader.read (mem : Bytes) : MessageHeader where
  componentId := mem.take 2
  msgType := (mem.drop 2).take 2

/-- The bytes of a frame header as a `frame_header_v1_t`. -/
def FrameHeaderV1.read (mem : Bytes) : FrameHeaderV1 where
  componentId := mem.take 2
  msgType := (mem.drop 2).take 2
  payloadSize := (mem.drop 4).take 4

/-- `payload_size` of a frame header of the given version. -/
def FrameVersion.payloadSize (v : FrameVersion) (mem : Bytes) : ℕ :=
  match v with
  | .V1 => ntohl (FrameHeaderV1.read mem).payloadSize
  | .V2 => ntohl ((mem.drop 4).take 4)

/-! ## Sending -/

/-- A message with its ids, serialised. The size of its payload fits in 32 bits. -/
structure OutMessage where
  componentId : UInt16
  msgType : UInt16
  body : Bytes
  fits : body.length < 2 ^ 32 - 4

/-- `QueueEntry`, without the buffers, which point to the other members. -/
structure QueueEntry where
  serializedMessage : Bytes
  frameHeader : FrameHeader
  frameHeaderV1 : FrameHeaderV1
  messageHeader : MessageHeader

namespace QueueEntry

/-- The constructor: what it does not set is what the memory held before. -/
def new (mem : QueueEntry) : QueueEntry :=
  { mem with
    serializedMessage := []
    frameHeader := { mem.frameHeader with headerVersion := 2, cipher := 0 } }

/-- `MessageRegister::serialize` into the entry. -/
def serialize (e : QueueEntry) (m : OutMessage) : QueueEntry :=
  { e with
    serializedMessage := m.body
    messageHeader := ⟨htons m.componentId.toNat, htons m.msgType.toNat⟩
    frameHeader :=
      { e.frameHeader with payloadSize := htonl (sizeofMessageHeader + m.body.length) } }

/-- The header of version 1 is filled in from the other ones. -/
def fillV1 (e : QueueEntry) : QueueEntry :=
  { e with
    frameHeaderV1.componentId := e.messageHeader.componentId
    frameHeaderV1.msgType := e.messageHeader.msgType
    frameHeaderV1.payloadSize :=
      htonl (Strings.sizeSub (ntohl e.frameHeader.payloadSize) sizeofMessageHeader) }

/-- The bytes that `async_write` is given. -/
def bytes (e : QueueEntry) : FrameVersion → Bytes
  | .V1 => e.fillV1.frameHeaderV1.bytes ++ e.serializedMessage
  | .V2 => e.frameHeader.bytes ++ e.messageHeader.bytes ++ e.serializedMessage

end QueueEntry

/-- The frame that `ProtobufStreamClient::send` builds in newly allocated memory. -/
def sendFrame (v : FrameVersion) (mem : QueueEntry) (m : OutMessage) : Bytes :=
  ((QueueEntry.new mem).serialize m).bytes v

/-! ## Receiving -/

/-- What `realloc` does: whether it finds that many bytes, and what they hold. -/
structure Heap where
  alloc : ℕ → Bool
  fresh : ℕ → UInt8

/-- The members that the receive loop works on. -/
structure Receiver where
  inFrameHeader : Bytes
  inData : Bytes
  inDataSize : ℕ

/-- The arguments of `MessageRegister::deserialize`, together with what was read for this
frame. -/
structure DeserializeCall where
  payloadSize : Bytes
  messageHeader : MessageHeader
  /-- `data` points to this byte of `inData`. -/
  offset : ℕ
  inData : Bytes
  inFrameHeader : Bytes
  toRead : ℕ
  capacity : ℕ
deriving DecidableEq

/-- `boost::asio::async_read` of that many bytes; `none` if the stream ends before. -/
def asyncRead (n : ℕ) (stream : Bytes) : Option (Bytes × Bytes) :=
  if n ≤ stream.length then some (stream.take n, stream.drop n) else none

namespace Receiver

/-- The constructor of `ProtobufStreamClient`. -/
def start (heap : Heap) : Receiver where
  inFrameHeader := []
  inData := (List.range 1024).map heap.fresh
  inDataSize := 1024

/-- The first half of `handle_read_header`: the size of the payload, with room for it in the
buffer. Without memory the connection is closed. -/
def handleReadHeader (heap : Heap) (v : FrameVersion) (r : Receiver) : Option (ℕ × Receiver) :=
  let toRead := v.payloadSize r.inFrameHeader
  if toRead > r.inDataSize then
    if heap.alloc toRead then
      some (toRead, { r with
        inData := r.inData ++ (List.range (toRead - r.inDataSize)).map heap.fresh
        inDataSize := toRead })
    else none
  else some (toRead, r)

/-- `handle_read_message`: what it hands to `deserialize`. -/
def handleReadMessage (v : FrameVersion) (toRead : ℕ) (r : Receiver) : DeserializeCall :=
  match v with
  | .V1 =>
    let header := FrameHeaderV1.read r.inFrameHeader
    { payloadSize := htonl (ntohl header.payloadSize + sizeofMessageHeader)
      messageHeader := ⟨header.componentId, header.msgType⟩
      offset := 0
      inData := r.inData
      inFrameHeader := r.inFrameHeader
      toRead := toRead
      capacity := r.inDataSize }
  | .V2 =>
    { payloadSize := (r.inFrameHeader.drop 4).take 4
      messageHeader := .read r.inData
      offset := sizeofMessageHeader
      inData := r.inData
      inFrameHeader := r.inFrameHeader
      toRead := toRead
      capacity := r.inDataSize }

/-- From `start_recv` to the next `start_recv`; `none` if the connection is closed before. -/
def frame (heap : Heap) (v : FrameVersion) (r : Receiver) (stream : Bytes) :
    Option (DeserializeCall × Receiver × Bytes) :=
  match asyncRead v.headerSize stream with
  | none => none
  | some (header, stream) =>
    match { r with inFrameHeader := header }.handleReadHeader heap v with
    | none => none
    | some (toRead, r) =>
      match asyncRead toRead stream with
      | none => none
      | some (payload, stream) =>
        let r := { r with inData := payload ++ r.inData.drop toRead }
        some (r.handleReadMessage v toRead, r, stream)

/-- At most `n` rounds of the receive loop: its calls of `deserialize`, and the bytes that
are left. -/
def receiveN (heap : Heap) (v : FrameVersion) : ℕ → Receiver → Bytes → List DeserializeCall × Bytes
  | 0, _, stream => ([], stream)
  | n + 1, r, stream =>
    match r.frame heap v stream with
    | none => ([], stream)
    | some (call, r, stream) =>
      let (calls, left) := receiveN heap v n r stream
      (call :: calls, left)

/-- The receive loop until the connection is closed: no round goes without a byte. -/
def receive (heap : Heap) (v : FrameVersion) (r : Receiver) (stream : Bytes) :
    List DeserializeCall × Bytes :=
  receiveN heap v stream.length r stream

end Receiver

namespace DeserializeCall

/-- `data_size` in `MessageRegister::deserialize`. -/
def dataSize (c : DeserializeCall) : ℕ :=
  Strings.sizeSub (ntohl c.payloadSize) sizeofMessageHeader

/-- The bytes that `ParseFromArray` is given. -/
def body (c : DeserializeCall) : Bytes := (c.inData.drop c.offset).take c.dataSize

end DeserializeCall

/-! ## Lossless framing -/

/-- What `deserialize` makes a message of. -/
structure Handed where
  componentId : ℕ
  msgType : ℕ
  body : Bytes
deriving DecidableEq

def DeserializeCall.handed (c : DeserializeCall) : Handed where
  componentId := ntohs c.messageHeader.componentId
  msgType := ntohs c.messageHeader.msgType
  body := c.body

def OutMessage.handed (m : OutMessage) : Handed where
  componentId := m.componentId.toNat
  msgType := m.msgType.toNat
  body := m.body

theorem ntohl_htonl (n : ℕ) : ntohl (htonl n) = n % 2 ^ 32 := BigEndian.decode_encode 4 n

theorem ntohs_htons (n : UInt16) : ntohs (htons n.toNat) = n.toNat :=
  BigEndian.decode_encode_of_lt n.toNat_lt

@[simp] theorem length_htonl (n : ℕ) : (htonl n).length = 4 := BigEndian.length_encode 4 n

@[simp] theorem length_htons (n : ℕ) : (htons n).length = 2 := BigEndian.length_encode 2 n

theorem asyncRead_append (a b : Bytes) : asyncRead a.length (a ++ b) = some (a, b) := by
  rw [asyncRead, if_pos (by rw [List.length_append]; omega), List.take_left, List.drop_left]

namespace Receiver

variable {heap : Heap} {v : FrameVersion}

/-- With enough memory there is room for the payload, and the header stays as it is. -/
theorem exists_handleReadHeader (halloc : ∀ n, heap.alloc n = true) (r : Receiver) :
    ∃ r', r.handleReadHeader heap v = some (v.payloadSize r.inFrameHeader, r') ∧
      r'.inFrameHeader = r.inFrameHeader ∧ v.payloadSize r.inFrameHeader ≤ r'.inDataSize := by
  rw [handleReadHeader]
  by_cases hgrow : v.payloadSize r.inFrameHeader > r.inDataSize
  · rw [if_pos hgrow, if_pos (halloc _)]
    exact ⟨_, rfl, rfl, Nat.le_refl _⟩
  · rw [if_neg hgrow]
    exact ⟨_, rfl, rfl, Nat.le_of_not_lt hgrow⟩

/-- A frame with its payload is read, and nothing after it. -/
theorem exists_frame (halloc : ∀ n, heap.alloc n = true) (r : Receiver)
    {header payload : Bytes} (hheader : header.length = v.headerSize)
    (hpayload : v.payloadSize header = payload.length) (rest : Bytes) :
    ∃ r', r.frame heap v (header ++ (payload ++ rest)) =
        some (r'.handleReadMessage v payload.length, r', rest) ∧
      r'.inFrameHeader = header ∧ payload <+: r'.inData ∧ payload.length ≤ r'.inDataSize := by
  obtain ⟨r₁, hread, hsame, hroom⟩ :=
    exists_handleReadHeader (v := v) halloc { r with inFrameHeader := header }
  have hsize : v.payloadSize ({ r with inFrameHeader := header } : Receiver).inFrameHeader
      = payload.length := hpayload
  rw [hsize] at hread hroom
  refine ⟨{ r₁ with inData := payload ++ r₁.inData.drop payload.length }, ?_, hsame,
    List.prefix_append .., hroom⟩
  simp only [frame, ← hheader, asyncRead_append, hread]

end Receiver

/-- A frame of version 1 is its header and the message. -/
theorem sendFrame_V1 (mem : QueueEntry) (m : OutMessage) :
    sendFrame .V1 mem m =
      (⟨htons m.componentId.toNat, htons m.msgType.toNat, htonl m.body.length⟩ :
        FrameHeaderV1).bytes ++ m.body := by
  have hfits := m.fits
  have hsize : Strings.sizeSub (ntohl (htonl (sizeofMessageHeader + m.body.length)))
      sizeofMessageHeader = m.body.length := by
    rw [ntohl_htonl, sizeofMessageHeader, Nat.mod_eq_of_lt (by omega),
      Strings.sizeSub_of_le (by omega) (by omega)]
    omega
  show FrameHeaderV1.bytes ⟨_, _, htonl (Strings.sizeSub
    (ntohl (htonl (sizeofMessageHeader + m.body.length))) sizeofMessageHeader)⟩ ++ _ = _
  rw [hsize]
  rfl

theorem MessageHeader.read_bytes (h : MessageHeader) (hid : h.componentId.length = 2)
    (htype : h.msgType.length = 2) (rest : Bytes) : read (h.bytes ++ rest) = h := by
  rw [read, bytes, List.append_assoc, List.take_left' hid, List.drop_left' hid,
    List.take_left' htype]

theorem FrameHeaderV1.read_bytes (h : FrameHeaderV1) (hid : h.componentId.length = 2)
    (htype : h.msgType.length = 2) (hsize : h.payloadSize.length = 4) (rest : Bytes) :
    read (h.bytes ++ rest) = h := by
  have hids : (h.componentId ++ h.msgType).length = 4 := by
    rw [List.length_append, hid, htype]
  have hid' : (h.bytes ++ rest).take 2 = h.componentId := by
    rw [bytes, List.append_assoc, List.append_assoc, List.take_left' hid]
  have htype' : ((h.bytes ++ rest).drop 2).take 2 = h.msgType := by
    rw [bytes, List.append_assoc, List.append_assoc, List.drop_left' hid, List.take_left' htype]
  have hsize' : ((h.bytes ++ rest).drop 4).take 4 = h.payloadSize := by
    rw [bytes, List.append_assoc, List.drop_left' hids, List.take_left' hsize]
  rw [read, hid', htype', hsize']

/-- The frame that `send` builds in version 1. -/
theorem exists_frame_V1 {heap : Heap} (halloc : ∀ n, heap.alloc n = true) (r : Receiver)
    (mem : QueueEntry) (m : OutMessage) (rest : Bytes) :
    ∃ c r', r.frame heap .V1 (sendFrame .V1 mem m ++ rest) = some (c, r', rest) ∧
      c.handed = m.handed ∧ c.toRead ≤ c.capacity := by
  have hfits := m.fits
  let header : FrameHeaderV1 :=
    ⟨htons m.componentId.toNat, htons m.msgType.toNat, htonl m.body.length⟩
  have hread : FrameHeaderV1.read header.bytes = header := by
    rw [← List.append_nil header.bytes]
    exact header.read_bytes (length_htons _) (length_htons _) (length_htonl _) []
  have hsize : FrameVersion.V1.payloadSize header.bytes = m.body.length := by
    show ntohl (FrameHeaderV1.read header.bytes).payloadSize = _
    rw [hread]
    show ntohl (htonl m.body.length) = _
    rw [ntohl_htonl, Nat.mod_eq_of_lt (by omega)]
  have hlength : header.bytes.length = FrameVersion.V1.headerSize := by
    simp [header, FrameHeaderV1.bytes, FrameVersion.headerSize]
  obtain ⟨r', hframe, hheader, ⟨behind, hdata⟩, hroom⟩ :=
    r.exists_frame halloc hlength hsize rest
  refine ⟨r'.handleReadMessage .V1 m.body.length, r', ?_, ?_, hroom⟩
  · rw [sendFrame_V1, List.append_assoc]
    exact hframe
  · have hcall : r'.handleReadMessage .V1 m.body.length =
        ⟨htonl (ntohl (htonl m.body.length) + sizeofMessageHeader),
          ⟨htons m.componentId.toNat, htons m.msgType.toNat⟩, 0, m.body ++ behind,
          header.bytes, m.body.length, r'.inDataSize⟩ := by
      rw [Receiver.handleReadMessage, hheader, hread, hdata]
    have hdataSize : (r'.handleReadMessage .V1 m.body.length).dataSize = m.body.length := by
      rw [hcall]
      show Strings.sizeSub (ntohl (htonl (ntohl (htonl m.body.length) + 4))) 4 = _
      rw [ntohl_htonl, ntohl_htonl, Nat.mod_eq_of_lt (by omega), Nat.mod_eq_of_lt (by omega),
        Strings.sizeSub_of_le (by omega) (by omega)]
      omega
    rw [DeserializeCall.handed, DeserializeCall.body, hdataSize, hcall]
    show Handed.mk (ntohs (htons _)) (ntohs (htons _)) ((m.body ++ behind).take _) = _
    rw [ntohs_htons, ntohs_htons, List.take_left, OutMessage.handed]

/-- The frame that `send` builds in version 2. -/
theorem exists_frame_V2 {heap : Heap} (halloc : ∀ n, heap.alloc n = true) (r : Receiver)
    (mem : QueueEntry) (m : OutMessage) (rest : Bytes) :
    ∃ c r', r.frame heap .V2 (sendFrame .V2 mem m ++ rest) = some (c, r', rest) ∧
      c.handed = m.handed ∧ c.toRead ≤ c.capacity := by
  have hfits := m.fits
  let entry := (QueueEntry.new mem).serialize m
  let payload := entry.messageHeader.bytes ++ m.body
  have hpayload : payload.length = sizeofMessageHeader + m.body.length := by
    simp [payload, entry, QueueEntry.serialize, MessageHeader.bytes, sizeofMessageHeader]
    omega
  have hdrop : (entry.frameHeader.bytes.drop 4).take 4 =
      htonl (sizeofMessageHeader + m.body.length) :=
    List.take_of_length_le (Nat.le_of_eq (length_htonl _))
  -- the size in the header is that of message header and body together
  have hsize : FrameVersion.V2.payloadSize entry.frameHeader.bytes = payload.length := by
    show ntohl ((entry.frameHeader.bytes.drop 4).take 4) = _
    rw [hdrop, ntohl_htonl, hpayload, sizeofMessageHeader, Nat.mod_eq_of_lt (by omega)]
  have hlength : entry.frameHeader.bytes.length = FrameVersion.V2.headerSize :=
    congrArg (· + 4) (length_htonl _)
  obtain ⟨r', hframe, hheader, ⟨behind, hdata⟩, hroom⟩ :=
    r.exists_frame halloc hlength hsize rest
  have hread : MessageHeader.read r'.inData = entry.messageHeader := by
    rw [← hdata, List.append_assoc]
    exact MessageHeader.read_bytes _ (length_htons _) (length_htons _) _
  refine ⟨r'.handleReadMessage .V2 payload.length, r', ?_, ?_, hroom⟩
  · show r.frame heap .V2 (entry.frameHeader.bytes ++ entry.messageHeader.bytes ++ m.body ++ rest)
      = _
    rw [List.append_assoc, List.append_assoc, ← List.append_assoc entry.messageHeader.bytes]
    exact hframe
  -- `handle_read_message` splits them again
  · have hcall : r'.handleReadMessage .V2 payload.length =
        ⟨htonl (sizeofMessageHeader + m.body.length), entry.messageHeader, 4,
          payload ++ behind, entry.frameHeader.bytes, payload.length, r'.inDataSize⟩ := by
      rw [Receiver.handleReadMessage, hheader, hread, hdrop, hdata]
      rfl
    have hdataSize : (r'.handleReadMessage .V2 payload.length).dataSize = m.body.length := by
      rw [hcall]
      show Strings.sizeSub (ntohl (htonl (4 + m.body.length))) 4 = _
      rw [ntohl_htonl, Nat.mod_eq_of_lt (by omega), Strings.sizeSub_of_le (by omega) (by omega)]
      omega
    have hids : entry.messageHeader.bytes.length = 4 := by
      simp [entry, QueueEntry.serialize, MessageHeader.bytes]
    rw [DeserializeCall.handed, DeserializeCall.body, hdataSize, hcall]
    show Handed.mk (ntohs (htons _)) (ntohs (htons _))
      (((entry.messageHeader.bytes ++ m.body ++ behind).drop 4).take _) = _
    rw [ntohs_htons, ntohs_htons, List.append_assoc, List.drop_left' hids, List.take_left,
      OutMessage.handed]

/-- What is sent in one frame is handed to `deserialize`, and nothing after it is read. -/
theorem exists_frame_sendFrame {heap : Heap} (halloc : ∀ n, heap.alloc n = true)
    (v : FrameVersion) (r : Receiver) (mem : QueueEntry) (m : OutMessage) (rest : Bytes) :
    ∃ c r', r.frame heap v (sendFrame v mem m ++ rest) = some (c, r', rest) ∧
      c.handed = m.handed ∧ c.toRead ≤ c.capacity :=
  match v with
  | .V1 => exists_frame_V1 halloc r mem m rest
  | .V2 => exists_frame_V2 halloc r mem m rest

/-- The frames of some messages, each built in the memory it is paired with. -/
def sendFrames (v : FrameVersion) (sent : List (QueueEntry × OutMessage)) : Bytes :=
  sent.flatMap fun p => sendFrame v p.1 p.2

theorem receiveN_frames {heap : Heap} (halloc : ∀ n, heap.alloc n = true) (v : FrameVersion)
    (sent : List (QueueEntry × OutMessage)) {n : ℕ} (hn : sent.length ≤ n) (r : Receiver) :
    (r.receiveN heap v n (sendFrames v sent)).1.map DeserializeCall.handed =
        sent.map (fun p => p.2.handed) ∧
      (r.receiveN heap v n (sendFrames v sent)).2 = [] ∧
      ∀ c ∈ (r.receiveN heap v n (sendFrames v sent)).1, c.toRead ≤ c.capacity := by
  induction sent generalizing n r with
  | nil =>
    have hempty : r.frame heap v [] = none := by
      cases v with
      | V1 => rfl
      | V2 => rfl
    cases n with
    | zero => exact ⟨rfl, rfl, nofun⟩
    | succ n =>
      rw [show sendFrames v [] = [] from rfl, Receiver.receiveN, hempty]
      exact ⟨rfl, rfl, nofun⟩
  | cons p sent ih =>
    -- one frame is read, the receiver is ready for the next one whatever its memory holds
    obtain ⟨n, rfl⟩ : ∃ k, n = k + 1 := ⟨n - 1, by rw [List.length_cons] at hn; omega⟩
    obtain ⟨c, r', hframe, hhanded, hroom⟩ :=
      exists_frame_sendFrame halloc v r p.1 p.2 (sendFrames v sent)
    obtain ⟨hmap, hleft, hrooms⟩ := ih (Nat.le_of_succ_le_succ hn) r'
    have hstream : sendFrames v (p :: sent) = sendFrame v p.1 p.2 ++ sendFrames v sent :=
      List.flatMap_cons
    have hstep : r.receiveN heap v (n + 1) (sendFrames v (p :: sent)) =
        (c :: (r'.receiveN heap v n (sendFrames v sent)).1,
          (r'.receiveN heap v n (sendFrames v sent)).2) := by
      rw [hstream, Receiver.receiveN, hframe]
    rw [hstep]
    refine ⟨?_, hleft, ?_⟩
    · rw [List.map_cons, hhanded, hmap, List.map_cons]
    · intro d hd
      rcases List.mem_cons.mp hd with rfl | hd
      · exact hroom
      · exact hrooms d hd

/-- Every frame has at least one byte. -/
theorem length_le_sendFrames (v : FrameVersion) (sent : List (QueueEntry × OutMessage)) :
    sent.length ≤ (sendFrames v sent).length := by
  induction sent with
  | nil => exact Nat.zero_le _
  | cons p sent ih =>
    have hframe : 1 ≤ (sendFrame v p.1 p.2).length := by
      cases v with
      | V1 =>
        rw [sendFrame_V1]
        simp [FrameHeaderV1.bytes]
        omega
      | V2 =>
        show 1 ≤ (FrameHeader.bytes _ ++ _ ++ _ : Bytes).length
        simp [FrameHeader.bytes]
    rw [show sendFrames v (p :: sent) = sendFrame v p.1 p.2 ++ sendFrames v sent from
      List.flatMap_cons, List.length_append, List.length_cons]
    omega

/-- The receive loop hands on what was sent, in order and completely, and the buffer is
never too small. -/
theorem receive_frames (heap : Heap) (halloc : ∀ n, heap.alloc n = true) (v : FrameVersion)
    (sent : List (QueueEntry × OutMessage)) :
    ((Receiver.start heap).receive heap v (sendFrames v sent)).1.map DeserializeCall.handed =
        sent.map (fun p => p.2.handed) ∧
      ((Receiver.start heap).receive heap v (sendFrames v sent)).2 = [] ∧
      ∀ c ∈ ((Receiver.start heap).receive heap v (sendFrames v sent)).1,
        c.toRead ≤ c.capacity :=
  receiveN_frames halloc v sent (length_le_sendFrames v sent) _

/-- A machine reply and an order of the game state, with some bodies. -/
def twoMessages : List (QueueEntry × OutMessage) :=
  let mem : QueueEntry := ⟨[], ⟨7, 7, 7, 7, []⟩, ⟨[], [], []⟩, ⟨[], []⟩⟩
  [(mem, ⟨2000, 103, [1, 2, 3], by decide⟩),
    (mem, ⟨2000, 21, [8, 2], by decide⟩)]

theorem receive_frames_two :
    let heap : Heap := ⟨fun _ => true, fun _ => 0⟩
    ((Receiver.start heap).receive heap .V2 (sendFrames .V2 twoMessages)).1.length = 2 := by
  have h := (receive_frames ⟨fun _ => true, fun _ => 0⟩ (fun _ => rfl) .V2 twoMessages).1
  have hlength := congrArg List.length h
  rw [List.length_map, List.length_map] at hlength
  exact hlength

/-! ## Frames that are too short -/

namespace Receiver

variable {heap : Heap} {v : FrameVersion} {r r' : Receiver}

/-- The buffer has as many bytes as `in_data_size_` says. -/
def Sized (r : Receiver) : Prop := r.inData.length = r.inDataSize

theorem sized_start (heap : Heap) : (start heap).Sized := by
  rw [Sized, start, List.length_map, List.length_range]

/-- The buffer is grown before it is too small. -/
theorem handleReadHeader_spec {toRead : ℕ} (hsized : r.Sized)
    (h : r.handleReadHeader heap v = some (toRead, r')) :
    toRead = v.payloadSize r'.inFrameHeader ∧ r'.Sized ∧ toRead ≤ r'.inDataSize := by
  rw [handleReadHeader] at h
  by_cases hgrow : v.payloadSize r.inFrameHeader > r.inDataSize
  · rw [if_pos hgrow] at h
    split_ifs at h
    cases h
    refine ⟨rfl, ?_, Nat.le_refl _⟩
    show (r.inData ++ _).length = v.payloadSize r.inFrameHeader
    rw [List.length_append, hsized, List.length_map, List.length_range]
    omega
  · rw [if_neg hgrow] at h
    cases h
    exact ⟨rfl, hsized, Nat.le_of_not_lt hgrow⟩

/-- One round of the loop: the payload fits into the buffer, which keeps its size. -/
theorem frame_spec {stream rest : Bytes} {c : DeserializeCall} (hsized : r.Sized)
    (h : r.frame heap v stream = some (c, r', rest)) :
    c = r'.handleReadMessage v (v.payloadSize r'.inFrameHeader) ∧ r'.Sized ∧
      c.toRead ≤ c.capacity := by
  rw [frame] at h
  cases hheader : asyncRead v.headerSize stream with
  | none =>
    rw [hheader] at h
    cases h
  | some p =>
    obtain ⟨header, stream⟩ := p
    rw [hheader] at h
    cases hread : ({ r with inFrameHeader := header } : Receiver).handleReadHeader heap v with
    | none =>
      simp only [hread] at h
      cases h
    | some q =>
      obtain ⟨toRead, r₁⟩ := q
      obtain ⟨rfl, hsized₁, hroom⟩ := handleReadHeader_spec (by exact hsized) hread
      simp only [hread] at h
      rw [asyncRead] at h
      split_ifs at h with henough
      cases h
      refine ⟨rfl, ?_, ?_⟩
      · show (_ ++ r₁.inData.drop _).length = r₁.inDataSize
        rw [List.length_append, List.length_take, List.length_drop, hsized₁,
          Nat.min_eq_left henough]
        omega
      · cases v with
        | V1 => exact hroom
        | V2 => exact hroom

/-- Every call of the loop is made after a payload of the announced size was read. -/
theorem receiveN_calls {n : ℕ} {stream : Bytes} (hsized : r.Sized) :
    ∀ c ∈ (r.receiveN heap v n stream).1, ∃ r' : Receiver, r'.Sized ∧
      c = r'.handleReadMessage v (v.payloadSize r'.inFrameHeader) ∧ c.toRead ≤ c.capacity := by
  induction n generalizing r stream with
  | zero => exact nofun
  | succ n ih =>
    rw [receiveN]
    cases hframe : r.frame heap v stream with
    | none => exact nofun
    | some p =>
      obtain ⟨c, r', rest⟩ := p
      obtain ⟨hc, hsized', hroom⟩ := frame_spec hsized hframe
      intro d hd
      rcases List.mem_cons.mp hd with rfl | hd
      · exact ⟨r', hsized', hc, hroom⟩
      · exact ih hsized' d hd

end Receiver

/-- The message header and the message lie within the bytes that were read for the frame. -/
structure DeserializeCall.Safe (v : FrameVersion) (c : DeserializeCall) : Prop where
  header : v = .V2 → sizeofMessageHeader ≤ c.toRead
  data : c.offset + c.dataSize ≤ c.toRead

/-- A payload of version 2 has room for the message header, and one of version 1 leaves
room for it in 32 bits. -/
def FrameVersion.SizeOk (v : FrameVersion) (payloadSize : ℕ) : Prop :=
  match v with
  | .V1 => payloadSize + sizeofMessageHeader < 2 ^ 32
  | .V2 => sizeofMessageHeader ≤ payloadSize

instance (v : FrameVersion) : DecidablePred v.SizeOk :=
  match v with
  | .V1 => fun _ => inferInstanceAs (Decidable (_ < _))
  | .V2 => fun _ => inferInstanceAs (Decidable (_ ≤ _))

theorem payloadSize_lt (v : FrameVersion) (mem : Bytes) : v.payloadSize mem < 2 ^ 32 := by
  have hfour : ∀ bs : Bytes, ntohl (bs.take 4) < 2 ^ 32 := by
    intro bs
    have hlt : BigEndian.decode (bs.take 4) < 256 ^ (bs.take 4).length := BigEndian.decode_lt _
    have hle : 256 ^ (bs.take 4).length ≤ 256 ^ 4 :=
      Nat.pow_le_pow_right (by omega) (List.length_take_le 4 bs)
    show BigEndian.decode (bs.take 4) < 2 ^ 32
    omega
  cases v with
  | V1 => exact hfour _
  | V2 => exact hfour _

/-- With a V1 header the sum with the message header must not wrap. -/
theorem safe_V1_iff (r : Receiver) (toRead : ℕ)
    (hread : toRead = FrameVersion.V1.payloadSize r.inFrameHeader) :
    (r.handleReadMessage .V1 toRead).Safe .V1 ↔ FrameVersion.V1.SizeOk toRead := by
  have hlt := payloadSize_lt .V1 r.inFrameHeader
  rw [← hread] at hlt
  have hsize : (r.handleReadMessage .V1 toRead).dataSize =
      Strings.sizeSub ((toRead + 4) % 2 ^ 32) 4 := by
    show Strings.sizeSub (ntohl (htonl (FrameVersion.V1.payloadSize r.inFrameHeader + 4))) 4 = _
    rw [ntohl_htonl, ← hread]
  rw [FrameVersion.SizeOk, sizeofMessageHeader]
  constructor
  · intro hsafe
    have hdata : 0 + (r.handleReadMessage .V1 toRead).dataSize ≤ toRead := hsafe.data
    by_contra hlarge
    -- the sum wraps, and the difference is far beyond what was read
    have hwrap : (toRead + 4) % 2 ^ 32 = toRead + 4 - 2 ^ 32 := by omega
    rw [hsize, hwrap, Strings.sizeSub_of_lt (by omega) (by omega)] at hdata
    omega
  · intro hfits
    refine ⟨nofun, ?_⟩
    show 0 + (r.handleReadMessage .V1 toRead).dataSize ≤ toRead
    rw [hsize, Nat.mod_eq_of_lt hfits, Strings.sizeSub_of_le (by omega) (by omega)]
    omega

/-- With a V2 header the size has to cover the message header too. -/
theorem safe_V2_iff (r : Receiver) (toRead : ℕ)
    (hread : toRead = FrameVersion.V2.payloadSize r.inFrameHeader) :
    (r.handleReadMessage .V2 toRead).Safe .V2 ↔ FrameVersion.V2.SizeOk toRead := by
  have hlt := payloadSize_lt .V2 r.inFrameHeader
  rw [← hread] at hlt
  have hsize : (r.handleReadMessage .V2 toRead).dataSize = Strings.sizeSub toRead 4 := by
    show Strings.sizeSub (FrameVersion.V2.payloadSize r.inFrameHeader) 4 = _
    rw [← hread]
  constructor
  · intro hsafe
    exact hsafe.header rfl
  · intro hfits
    have hfour : 4 ≤ toRead := hfits
    refine ⟨fun _ => hfits, ?_⟩
    show 4 + (r.handleReadMessage .V2 toRead).dataSize ≤ toRead
    rw [hsize, Strings.sizeSub_of_le (by omega) hfour]
    omega

/-- Whatever a server sends, and whatever memory there is: exactly the frames whose size is
acceptable are interpreted within their own bytes. -/
theorem safe_iff_sizeOk (heap : Heap) (v : FrameVersion) (stream : Bytes) :
    ∀ c ∈ ((Receiver.start heap).receive heap v stream).1,
      (c.Safe v ↔ v.SizeOk (v.payloadSize c.inFrameHeader)) := by
  intro c hc
  obtain ⟨r, -, rfl, -⟩ := Receiver.receiveN_calls (Receiver.sized_start heap) c hc
  cases v with
  | V1 => exact safe_V1_iff r _ rfl
  | V2 => exact safe_V2_iff r _ rfl

/-- Memory that is never short and full of zeros. -/
def zeroHeap : Heap where
  alloc _ := true
  fresh _ := 0

/-- A frame of version 2 that holds a message header and one byte. -/
def shortFrame : Bytes := [2, 0, 0, 0, 0, 0, 0, 5, 7, 208, 0, 103, 1]

theorem safe_iff_sizeOk_shortFrame :
    ∃ c ∈ ((Receiver.start zeroHeap).receive zeroHeap .V2 shortFrame).1, c.Safe .V2 := by
  have hany : ((Receiver.start zeroHeap).receive zeroHeap .V2 shortFrame).1.any
      (fun c => decide (FrameVersion.V2.SizeOk (FrameVersion.V2.payloadSize c.inFrameHeader)))
        = true := by
    decide +kernel
  obtain ⟨c, hc, hsize⟩ := List.any_eq_true.mp hany
  exact ⟨c, hc, (safe_iff_sizeOk zeroHeap .V2 shortFrame c hc).mpr (of_decide_eq_true hsize)⟩

/-- The payload of the second frame is empty: its message header is that of the first frame,
and `data_size` is 2^64 - 4. -/
theorem empty_payload_reads_earlier_frame :
    ¬ ∀ heap v stream, ∀ c ∈ ((Receiver.start heap).receive heap v stream).1, c.Safe v := by
  intro h
  have hany : ((Receiver.start zeroHeap).receive zeroHeap .V2
      (shortFrame ++ [2, 0, 0, 0, 0, 0, 0, 0])).1.any
        (fun c => decide (c.messageHeader = ⟨[7, 208], [0, 103]⟩ ∧ c.toRead = 0)) = true := by
    decide +kernel
  obtain ⟨c, hc, hread⟩ := List.any_eq_true.mp hany
  have hsafe := (h zeroHeap .V2 _ c hc).header rfl
  rw [(of_decide_eq_true hread).2] at hsafe
  exact absurd hsafe (by decide)

end GazeboRcll
