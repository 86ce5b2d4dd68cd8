import GazeboRcll.Protobuf.Peer

/-!
# What a peer sends to another

`send` and `start_send` of `ProtobufBroadcastPeer`, received by `handle_recv` of a peer that is
set up the same way. In version 1 the sender counts the message header in `payload_size`, and
the receiver does not (`broadcast_arrives_iff`). The limit for the size is that of the receiver's
buffer, but it is tested before the headers and the padding are added (`fits_iff`).
-/

namespace GazeboRcll

/-! ## Sending -/

/-- The header of version 1 is filled in from the other ones, with the same size. -/
def QueueEntry.fillBroadcastV1 (e : QueueEntry) : QueueEntry :=
  { e with
    frameHeaderV1.componentId := e.messageHeader.componentId
    frameHeaderV1.msgType := e.messageHeader.msgType
    frameHeaderV1.payloadSize := e.frameHeader.payloadSize }

namespace PeerConfig

variable {Msg : Type} (cfg : PeerConfig Msg)

/-- `ProtobufBroadcastPeer::send`, up to the queue, in newly allocated memory. -/
def send (mem : QueueEntry) (m : OutMessage) : Except String QueueEntry :=
  let entry := (QueueEntry.new mem).serialize m
  -- the body alone
  if entry.serializedMessage.length > maxPacketLength then .error "Serialized message too big"
  else
    .ok (match cfg.version with
      | .V1 => entry.fillBroadcastV1
      | .V2 => entry)

/-- What `start_send` gives to `async_send_to` for an entry. -/
def startSend (entry : QueueEntry) : Except String Bytes :=
  match cfg.crypto with
  | none =>
    .ok (match cfg.version with
      | .V1 => entry.frameHeaderV1.bytes ++ entry.serializedMessage
      | .V2 => entry.frameHeader.bytes ++ entry.messageHeader.bytes ++ entry.serializedMessage)
  | some c =>
    match c.encryptor.encrypt cfg.evp (entry.messageHeader.bytes ++ entry.serializedMessage) with
    | .error e => .error e
    | .ok encryptedMessage =>
      let header := { entry.frameHeader with
        payloadSize := htonl encryptedMessage.length
        cipher := c.encryptor.cipher.id }
      .ok (header.bytes ++ encryptedMessage)

/-- The datagram for a message. -/
def datagram (mem : QueueEntry) (m : OutMessage) : Except String Bytes :=
  (cfg.send mem m).bind cfg.startSend

end PeerConfig

/-! ## The parts of a datagram -/

/-- What comes behind the frame header of version 2. -/
def OutMessage.payload (m : OutMessage) : Bytes :=
  (⟨htons m.componentId.toNat, htons m.msgType.toNat⟩ : MessageHeader).bytes ++ m.body

theorem OutMessage.length_payload (m : OutMessage) :
    m.payload.length = sizeofMessageHeader + m.body.length := by
  simp [payload, MessageHeader.bytes, sizeofMessageHeader]
  omega

theorem OutMessage.ofPayload_payload (m : OutMessage) : Handed.ofPayload m.payload = m.handed := by
  have hread : MessageHeader.read m.payload = ⟨htons m.componentId.toNat, htons m.msgType.toNat⟩ :=
    MessageHeader.read_bytes _ (length_htons _) (length_htons _) _
  have hbody : m.payload.drop sizeofMessageHeader = m.body := by
    refine List.drop_left' ?_
    simp [MessageHeader.bytes, sizeofMessageHeader]
  rw [Handed.ofPayload, hread, hbody]
  dsimp only
  rw [ntohs_htons, ntohs_htons]
  rfl

theorem FrameHeader.length_bytes {h : FrameHeader} (hsize : h.payloadSize.length = 4) :
    h.bytes.length = 8 := congrArg (· + 4) hsize

theorem FrameHeader.read_bytes {h : FrameHeader} (hsize : h.payloadSize.length = 4)
    (rest : Bytes) : read (h.bytes ++ rest) = h := by
  have htake : ((h.bytes ++ rest).drop 4).take 4 = h.payloadSize := List.take_left' hsize
  rw [read, htake]
  rfl

namespace PeerConfig

variable {Msg : Type} {cfg : PeerConfig Msg} {mem : QueueEntry} {m : OutMessage} {d : Bytes}

theorem datagram_V1 (hv : cfg.version = .V1) (hc : cfg.crypto = none)
    (hm : m.body.length ≤ maxPacketLength) :
    cfg.datagram mem m = .ok ((⟨htons m.componentId.toNat, htons m.msgType.toNat,
      htonl (sizeofMessageHeader + m.body.length)⟩ : FrameHeaderV1).bytes ++ m.body) := by
  have hsend : cfg.send mem m = .ok ((QueueEntry.new mem).serialize m).fillBroadcastV1 := by
    rw [send, hv]
    exact if_neg (Nat.not_lt.mpr hm)
  rw [datagram, hsend, Except.bind, startSend, hc, hv]
  rfl

/-- What `send` accepts in version 2. -/
theorem send_V2 (hv : cfg.version = .V2) :
    cfg.send mem m =
      if m.body.length > maxPacketLength then .error "Serialized message too big"
      else .ok ((QueueEntry.new mem).serialize m) := by
  rw [send, hv]
  rfl

variable (mem) in
/-- In version 2 the payload follows a frame header with its size. -/
theorem datagram_V2 (hv : cfg.version = .V2) (hc : cfg.crypto = none)
    (hm : m.body.length ≤ maxPacketLength) :
    ∃ header : FrameHeader, header.cipher = PB_ENCRYPTION_NONE ∧
      header.payloadSize = htonl m.payload.length ∧
      cfg.datagram mem m = .ok (header.bytes ++ m.payload) := by
  refine ⟨((QueueEntry.new mem).serialize m).frameHeader, rfl, ?_, ?_⟩
  · rw [m.length_payload]
    rfl
  · rw [datagram, send_V2 hv, if_neg (Nat.not_lt.mpr hm), Except.bind, startSend, hc, hv]
    dsimp only
    rw [List.append_assoc]
    rfl

/-- With encryption it is the encrypted payload. -/
theorem datagram_encrypted (hv : cfg.version = .V2) {c : PeerCrypto cfg.evp}
    (hc : cfg.crypto = some c) (hd : cfg.datagram mem m = .ok d) :
    ∃ (header : FrameHeader) (encryptedMessage : Bytes),
      header.cipher = c.encryptor.cipher.id ∧
      header.payloadSize = htonl encryptedMessage.length ∧
      c.encryptor.encrypt cfg.evp m.payload = .ok encryptedMessage ∧
      d = header.bytes ++ encryptedMessage := by
  rw [datagram, send_V2 hv] at hd
  split_ifs at hd
  · cases hd
  · rw [Except.bind, startSend, hc] at hd
    dsimp only at hd
    split at hd
    · cases hd
    · rename_i encryptedMessage hencrypt
      cases hd
      exact ⟨_, encryptedMessage, rfl, rfl, hencrypt, rfl⟩

end PeerConfig

/-! ## The round trip -/

/-- The unmodified arrival of a datagram while slots are connected. -/
def Arrival.unmodified (endpoint : Endpoint) (slots : ℕ) (d : Bytes) : Arrival where
  endpoint := endpoint
  datagram := d
  slots := slots

theorem Arrival.received_unmodified {d : Bytes} (h : d.length ≤ maxPacketLength)
    (endpoint : Endpoint) (slots : ℕ) : (unmodified endpoint slots d).received = d :=
  List.take_of_length_le h

namespace Peer

variable {Msg : Type} {cfg : PeerConfig Msg} {p : Peer}

/-- The datagram gets through the check of its length. -/
def PassesLength (cfg : PeerConfig Msg) (p : Peer) (a : Arrival) : Prop :=
  Complete cfg a ∧ cfg.LengthOk (p.prepared cfg a)

/-- `handle_recv` calls `deserialize` with this message. -/
def HandsOver (cfg : PeerConfig Msg) (p : Peer) (a : Arrival) (h : Handed) : Prop :=
  a.slotsAfter ≠ 0 ∧ p.PassesLength cfg a ∧ cfg.filtered a.endpoint = false ∧
    cfg.handed (p.prepared cfg a) = h

/-- A payload in plain text is handed over if it fits the buffer. -/
theorem handed_plain (hv : cfg.version = .V2) (hc : cfg.crypto = none) {header : FrameHeader}
    (hcipher : header.cipher = PB_ENCRYPTION_NONE) {payload : Bytes}
    (hsize : header.payloadSize = htonl payload.length)
    (hfour : sizeofMessageHeader ≤ payload.length)
    (hfits : (header.bytes ++ payload).length ≤ maxPacketLength) (endpoint : Endpoint)
    (slots : ℕ) :
    p.PassesLength cfg (.unmodified endpoint slots (header.bytes ++ payload)) ∧
      cfg.handed (p.prepared cfg (.unmodified endpoint slots (header.bytes ++ payload))) =
        .ofPayload payload := by
  have hfour' : header.payloadSize.length = 4 := by
    rw [hsize, length_htonl]
  have hlength : (header.bytes ++ payload).length = 8 + payload.length := by
    rw [List.length_append, FrameHeader.length_bytes hfour']
  have hreceived := Arrival.received_unmodified hfits endpoint slots
  have hheader : (Arrival.unmodified endpoint slots (header.bytes ++ payload)).header = header := by
    rw [Arrival.header, hreceived, FrameHeader.read_bytes hfour']
  have hlt : payload.length < 2 ^ 32 := by
    unfold maxPacketLength at hfits
    omega
  have hcomplete : Complete cfg (.unmodified endpoint slots (header.bytes ++ payload)) := by
    refine ⟨rfl, ?_⟩
    rw [hreceived, hlength, hv]
    exact Nat.add_le_add_left hfour 8
  have hprep := prepared_none (p := p) hcomplete hv hc
  rw [if_neg fun h => h.2 (by rw [hheader, hcipher]), hheader, store_none hc, hreceived] at hprep
  refine ⟨⟨hcomplete, ?_⟩, handed_of_payload hv hfour hlt (by rw [hprep, hsize]) ?_⟩
  · rw [hprep, PeerConfig.LengthOk, hv]
    dsimp only
    rw [hsize, ntohl_htonl, Nat.mod_eq_of_lt hlt, hlength]
    rfl
  · rw [hprep]
    dsimp only
    rw [List.append_assoc, List.drop_left' (FrameHeader.length_bytes hfour')]
    exact List.prefix_append ..

/-- In version 1 the size that is announced is four bytes too much. -/
theorem not_passesLength_V1 (hv : cfg.version = .V1) (hc : cfg.crypto = none)
    {header : FrameHeaderV1} (hid : header.componentId.length = 2)
    (htype : header.msgType.length = 2) {body : Bytes}
    (hsize : header.payloadSize = htonl (sizeofMessageHeader + body.length))
    (hfits : (header.bytes ++ body).length ≤ maxPacketLength) (endpoint : Endpoint)
    (slots : ℕ) :
    ¬ p.PassesLength cfg (.unmodified endpoint slots (header.bytes ++ body)) := by
  rintro ⟨-, hlength⟩
  have hreceived := Arrival.received_unmodified hfits endpoint slots
  have hbytes : header.bytes.length = 8 := by
    rw [FrameHeaderV1.bytes, List.length_append, List.length_append, hid, htype, hsize,
      length_htonl]
  have hread : FrameHeaderV1.read (header.bytes ++ body ++ p.inData.drop
      (header.bytes ++ body).length) = header := by
    rw [List.append_assoc]
    exact header.read_bytes hid htype (by rw [hsize, length_htonl]) _
  rw [prepared_V1 hv, store_none hc, hreceived] at hlength
  unfold PeerConfig.LengthOk at hlength
  rw [hv] at hlength
  dsimp only at hlength
  rw [hread, hsize, ntohl_htonl, List.length_append, hbytes] at hlength
  unfold maxPacketLength at hfits
  rw [List.length_append] at hfits
  dsimp only [FrameVersion.headerSize, sizeofMessageHeader] at hlength
  omega

end Peer

/-- Between unencrypted peers of one version the message arrives exactly in version 2. -/
theorem broadcast_arrives_iff {Msg : Type} {sender receiver : PeerConfig Msg}
    (hversion : receiver.version = sender.version) (hsender : sender.crypto = none)
    (hreceiver : receiver.crypto = none) (mem : QueueEntry) (m : OutMessage)
    (hm : m.body.length ≤ 1012) (p : Peer) (endpoint : Endpoint)
    (hother : receiver.filtered endpoint = false) (slots : ℕ) (hslots : slots ≠ 0) :
    ∃ d, sender.datagram mem m = .ok d ∧
      (p.HandsOver receiver (.unmodified endpoint slots d) m.handed ↔ sender.version = .V2) := by
  have hmax : m.body.length ≤ maxPacketLength := Nat.le_trans hm (by decide)
  cases hv : sender.version with
  | V1 =>
    refine ⟨_, PeerConfig.datagram_V1 hv hsender hmax, iff_of_false ?_ (by decide)⟩
    rintro ⟨-, hpasses, -⟩
    refine Peer.not_passesLength_V1 (hversion.trans hv) hreceiver (length_htons _)
      (length_htons _) rfl ?_ endpoint slots hpasses
    simp [FrameHeaderV1.bytes, maxPacketLength]
    omega
  | V2 =>
    obtain ⟨header, hcipher, hsize, hd⟩ := PeerConfig.datagram_V2 mem hv hsender hmax
    have hfour : header.payloadSize.length = 4 := by
      rw [hsize, length_htonl]
    have hfits : (header.bytes ++ m.payload).length ≤ maxPacketLength := by
      rw [List.length_append, FrameHeader.length_bytes hfour, m.length_payload]
      unfold sizeofMessageHeader maxPacketLength
      omega
    have hpayload : sizeofMessageHeader ≤ m.payload.length := by
      rw [m.length_payload]
      omega
    obtain ⟨hpasses, hhanded⟩ := Peer.handed_plain (p := p) (hversion.trans hv) hreceiver hcipher
      hsize hpayload hfits endpoint slots
    refine ⟨_, hd, iff_of_true ⟨hslots, hpasses, hother, ?_⟩ rfl⟩
    rw [hhanded, m.ofPayload_payload]

/-- An unencrypted peer with the register of the encrypting one. -/
def plainPeer (v : FrameVersion) : PeerConfig Handed where
  version := v
  filterSelf := true
  localEndpoints := []
  evp := opensslSecret
  crypto := none
  version_of_crypto h := by cases h
  register := secretPeer.register

/-- Memory that was never used. -/
def QueueEntry.zeroed : QueueEntry := ⟨[], ⟨0, 0, 0, 0, []⟩, ⟨[], [], []⟩, ⟨[], []⟩⟩

/-- An `OrderInfo` without orders. -/
def emptyOrderInfo : OutMessage := ⟨2000, 41, [], by decide⟩

theorem broadcast_arrives_iff_orderInfo :
    ∃ d, (plainPeer .V2).datagram .zeroed emptyOrderInfo = .ok d ∧
      Peer.zeroed.HandsOver (plainPeer .V2) (.unmodified ⟨0, 4444⟩ 1 d) emptyOrderInfo.handed := by
  have hplain : (plainPeer .V2).crypto = none := rfl
  obtain ⟨d, hd, hiff⟩ := broadcast_arrives_iff rfl hplain hplain .zeroed emptyOrderInfo
    (by decide) Peer.zeroed ⟨0, 4444⟩ rfl 1 (by decide)
  exact ⟨d, hd, hiff.mpr rfl⟩

/-- The same message in version 1: four bytes are announced, and none comes. -/
theorem orderInfo_lost_in_V1 :
    ∃ d, (plainPeer .V1).datagram .zeroed emptyOrderInfo = .ok d ∧
      ¬ Peer.zeroed.HandsOver (plainPeer .V1) (.unmodified ⟨0, 4444⟩ 1 d)
        emptyOrderInfo.handed := by
  refine ⟨[7, 208, 0, 41, 0, 0, 0, 4], by rfl, ?_⟩
  rintro ⟨-, ⟨-, hlength⟩, -⟩
  exact absurd hlength (by decide +kernel)

/-! ## The size of a datagram -/

/-- The longest body of which the datagram fits the buffer of the receiver. -/
def PeerConfig.maxBody {Msg : Type} (cfg : PeerConfig Msg) : ℕ :=
  match cfg.crypto with
  | none => 1012
  | some c => if c.encryptor.cipher.ivLength = 0 then 1003 else 987

/-- Two peers of one version, with the same key if they have one. -/
structure Paired {Msg : Type} (sender receiver : PeerConfig Msg) : Prop where
  version : receiver.version = sender.version
  evp : receiver.evp = sender.evp
  key : receiver.crypto.map PeerCrypto.key = sender.crypto.map PeerCrypto.key

/-- Behind the frame header there is room for so many encrypted bytes. -/
theorem encryptedBufferSize_le_iff (e : BufferEncryptor) (n : ℕ) :
    8 + e.encryptedBufferSize (sizeofMessageHeader + n) ≤ maxPacketLength ↔
      n ≤ if e.cipher.ivLength = 0 then 1003 else 987 := by
  have hiv : e.cipher.ivLength = 0 ∨ e.cipher.ivLength = 16 := by
    cases e.cipher <;> decide
  unfold BufferEncryptor.encryptedBufferSize Cipher.blockSize sizeofMessageHeader maxPacketLength
  rcases hiv with hiv | hiv
  · rw [hiv, if_pos rfl]
    omega
  · rw [hiv, if_neg (by decide)]
    omega

/-- What was encrypted with the same key is decrypted if it fits the buffer. -/
theorem Peer.passesLength_encrypted {Msg : Type} {sender receiver : PeerConfig Msg}
    (hpaired : Paired sender receiver) (hv : sender.version = .V2) (hevp : sender.evp.Lawful)
    {c : PeerCrypto sender.evp} (hc : sender.crypto = some c) {header : FrameHeader}
    {plain enc : Bytes} (hcipher : header.cipher = c.encryptor.cipher.id)
    (hsize : header.payloadSize = htonl enc.length)
    (hencrypt : c.encryptor.encrypt sender.evp plain = .ok enc)
    (hfour : sizeofMessageHeader ≤ enc.length) (hlt : plain.length < 2 ^ 32)
    (hfits : (header.bytes ++ enc).length ≤ maxPacketLength) (p : Peer) (endpoint : Endpoint)
    {slots : ℕ} (hslots : slots ≠ 0) :
    p.PassesLength receiver (.unmodified endpoint slots (header.bytes ++ enc)) := by
  have hv' : receiver.version = .V2 := hpaired.version.trans hv
  have hkey := hpaired.key
  rw [hc, Option.map_some, Option.map_eq_some_iff] at hkey
  obtain ⟨c', hc', hkey⟩ := hkey
  have hfour' : header.payloadSize.length = 4 := by
    rw [hsize, length_htonl]
  have hbytes := FrameHeader.length_bytes hfour'
  have hlength : (header.bytes ++ enc).length = 8 + enc.length := by
    rw [List.length_append, hbytes]
  have hreceived := Arrival.received_unmodified hfits endpoint slots
  -- the datagram comes whole, so its header is the sender's
  have hheader : (Arrival.unmodified endpoint slots (header.bytes ++ enc)).header = header := by
    rw [Arrival.header, hreceived, FrameHeader.read_bytes hfour']
  have hcomplete : Complete receiver (.unmodified endpoint slots (header.bytes ++ enc)) := by
    refine ⟨rfl, ?_⟩
    rw [hreceived, hlength, hv']
    exact Nat.add_le_add_left hfour 8
  have henc : enc.length < 2 ^ 31 := by
    unfold maxPacketLength at hfits
    omega
  -- the keys are the same, and decryption undoes encryption
  have hdecrypt : p.decryption receiver (.unmodified endpoint slots (header.bytes ++ enc)) c' =
      (plain, .ok plain.length) := by
    rw [decryption, hreceived, hheader, hcipher, hkey, hpaired.evp, List.drop_left' hbytes, hlength,
      Nat.add_sub_cancel_left]
    exact BufferEncryptor.decrypt_encrypt hevp c.derived hencrypt henc _
  have hslots' : (Arrival.unmodified endpoint slots (header.bytes ++ enc)).slots ≠ 0 := hslots
  have hnone : header.cipher ≠ PB_ENCRYPTION_NONE := by
    rw [hcipher]
    exact c.encryptor.cipher.id_ne_none
  have hprep := prepared_some (p := p) hcomplete hc'
  rw [if_neg hslots', hheader, if_neg hnone, hdecrypt] at hprep
  refine ⟨hcomplete, ?_⟩
  -- the length that was sent is that of the plain text
  rw [hprep, PeerConfig.LengthOk, hv']
  dsimp only
  rw [ntohl_htonl, Nat.mod_eq_of_lt hlt]
  exact Nat.add_comm ..

section

variable {Msg : Type} {sender receiver : PeerConfig Msg} {mem : QueueEntry} {m : OutMessage}
  {d : Bytes}

theorem body_le_of_send (hv : sender.version = .V2) (hsend : sender.datagram mem m = .ok d) :
    m.body.length ≤ maxPacketLength := by
  by_contra hlong
  rw [PeerConfig.datagram, PeerConfig.send_V2 hv, if_pos (Nat.lt_of_not_le hlong)] at hsend
  cases hsend

/-- In plain text twelve bytes are added. -/
theorem fits_plain_iff (hversion : receiver.version = sender.version)
    (hv : sender.version = .V2) (hc : sender.crypto = none) (hc' : receiver.crypto = none)
    (hsend : sender.datagram mem m = .ok d) (p : Peer) (endpoint : Endpoint) (slots : ℕ) :
    (d.length ≤ maxPacketLength ∧ p.PassesLength receiver (.unmodified endpoint slots d)) ↔
      m.body.length ≤ 1012 := by
  have hpayload := m.length_payload
  obtain ⟨header, hcipher, hsize, hd⟩ :=
    PeerConfig.datagram_V2 mem hv hc (body_le_of_send hv hsend)
  rw [hd] at hsend
  cases hsend
  have hlength : (header.bytes ++ m.payload).length = 12 + m.body.length := by
    rw [List.length_append, FrameHeader.length_bytes (by rw [hsize, length_htonl]), hpayload]
    exact (Nat.add_assoc ..).symm
  rw [hlength]
  constructor
  · rintro ⟨hfits, -⟩
    unfold maxPacketLength at hfits
    omega
  · intro hbody
    have hfits : 12 + m.body.length ≤ maxPacketLength := by
      unfold maxPacketLength
      omega
    exact ⟨hfits, (Peer.handed_plain (hversion.trans hv) hc' hcipher hsize (by omega)
      (hlength.trans_le hfits) endpoint slots).1⟩

/-- With encryption these are the frame header, the vector and the padding. -/
theorem fits_encrypted_iff (hpaired : Paired sender receiver) (hv : sender.version = .V2)
    (hevp : sender.evp.Lawful) {c : PeerCrypto sender.evp} (hc : sender.crypto = some c)
    (hsend : sender.datagram mem m = .ok d) (p : Peer) (endpoint : Endpoint) {slots : ℕ}
    (hslots : slots ≠ 0) :
    (d.length ≤ maxPacketLength ∧ p.PassesLength receiver (.unmodified endpoint slots d)) ↔
      m.body.length ≤ if c.encryptor.cipher.ivLength = 0 then 1003 else 987 := by
  have hmax := body_le_of_send hv hsend
  have hpayload := m.length_payload
  obtain ⟨header, enc, hcipher, hsize, hencrypt, rfl⟩ := PeerConfig.datagram_encrypted hv hc hsend
  have henc : enc.length =
      c.encryptor.encryptedBufferSize (sizeofMessageHeader + m.body.length) := by
    rw [BufferEncryptor.length_encrypt hevp hencrypt, hpayload]
  have hlength : (header.bytes ++ enc).length =
      8 + c.encryptor.encryptedBufferSize (sizeofMessageHeader + m.body.length) := by
    rw [List.length_append, FrameHeader.length_bytes (by rw [hsize, length_htonl]), henc]
  rw [← encryptedBufferSize_le_iff, ← hlength]
  constructor
  · exact fun h => h.1
  · intro hfits
    refine ⟨hfits, Peer.passesLength_encrypted hpaired hv hevp hc hcipher hsize hencrypt ?_ ?_
      hfits p endpoint hslots⟩
    · -- there is at least one block
      rw [henc, BufferEncryptor.encryptedBufferSize, Cipher.blockSize, sizeofMessageHeader]
      omega
    · rw [hpayload]
      unfold maxPacketLength at hmax
      unfold sizeofMessageHeader
      omega

end

/-- A datagram in version 2 gets through to the receiver exactly if the body is not longer
than the setting allows. -/
theorem fits_iff {Msg : Type} {sender receiver : PeerConfig Msg} (hpaired : Paired sender receiver)
    (hv : sender.version = .V2) (hevp : sender.crypto.isSome = true → sender.evp.Lawful)
    {mem : QueueEntry} {m : OutMessage} {d : Bytes} (hsend : sender.datagram mem m = .ok d)
    (p : Peer) (endpoint : Endpoint) (slots : ℕ) (hslots : slots ≠ 0) :
    (d.length ≤ maxPacketLength ∧
        p.PassesLength receiver (.unmodified endpoint slots d)) ↔
      m.body.length ≤ sender.maxBody := by
  rw [PeerConfig.maxBody]
  cases hc : sender.crypto with
  | none =>
    have hkey := hpaired.key
    rw [hc] at hkey
    have hc' : receiver.crypto = none := Option.map_eq_none_iff.mp hkey
    exact fits_plain_iff hpaired.version hv hc hc' hsend p endpoint slots
  | some c =>
    have hlaw := hevp (by rw [hc]; rfl)
    exact fits_encrypted_iff hpaired hv hlaw hc hsend p endpoint hslots

/-- What is known of the library is as documented. -/
theorem opensslSecret_lawful : opensslSecret.Lawful := by
  constructor
  · intro ctx plain update final hupdate hfinal
    simp only [opensslSecret, Option.ite_none_right_eq_some, Option.some.injEq] at hupdate hfinal
    obtain ⟨rfl, rfl⟩ := hupdate
    obtain ⟨-, rfl⟩ := hfinal
    rw [Cipher.blockSize]
    rfl
  · intro ctx plain update final hinit hupdate hfinal rest
    simp only [opensslSecret, Option.ite_none_right_eq_some, Option.some.injEq] at hupdate hfinal
    obtain ⟨rfl, rfl⟩ := hupdate
    obtain ⟨-, rfl⟩ := hfinal
    refine ⟨hinit, ?_, ?_, rfl⟩
    · simp [opensslSecret]
    · simp [opensslSecret]

theorem fits_iff_secret :
    secretOrderInfo.datagram.length ≤ maxPacketLength ∧ Peer.zeroed.PassesLength secretPeer
      (.unmodified ⟨0, 4444⟩ 1 secretOrderInfo.datagram) := by
  have hpaired : Paired secretPeer secretPeer := ⟨rfl, rfl, rfl⟩
  have hsend : secretPeer.datagram .zeroed emptyOrderInfo = .ok secretOrderInfo.datagram := by
    rfl
  exact (fits_iff hpaired rfl (fun _ => opensslSecret_lawful) hsend Peer.zeroed ⟨0, 4444⟩ 1
    (by decide)).mpr (by decide)

/-- A body of 1013 bytes. -/
def tooLong : OutMessage := ⟨2000, 41, List.replicate 1013 0, by
  rw [List.length_replicate]
  decide⟩

/-- It is accepted, and the datagram has one byte more than the receiver's buffer. -/
theorem tooLong_truncated :
    ∃ d, (plainPeer .V2).datagram .zeroed tooLong = .ok d ∧ d.length = maxPacketLength + 1 := by
  have hlength : tooLong.body.length = 1013 := List.length_replicate
  have hbody : tooLong.body.length ≤ maxPacketLength := hlength.trans_le (by decide)
  have hplain : (plainPeer .V2).crypto = none := rfl
  obtain ⟨header, -, hsize, hd⟩ := PeerConfig.datagram_V2 .zeroed rfl hplain hbody
  refine ⟨_, hd, ?_⟩
  rw [List.length_append, FrameHeader.length_bytes (by rw [hsize, length_htonl]),
    tooLong.length_payload, hlength]
  rfl

end GazeboRcll
