import GazeboRcll.Library.LTS
import GazeboRcll.Protobuf.Crypto
import Mathlib.Data.List.GetD

/-!
# Broadcasting peers

`ProtobufBroadcastPeer` sends every message as one datagram and reads every datagram as one
message, encrypted or not. An encrypting peer has two buffers: the datagram goes to the one,
the decrypted message to the other, from which the message is read.

The crypto setting is fixed, so that `crypto_buf_` is `crypto_`. The number of slots that are
connected to `sig_rcvd_` is read twice by `handle_recv`, and slots can be connected in between.

`handle_recv` notices a datagram that does not fit the crypto setting, and goes on with it all
the same (`secure_iff`).
-/

namespace GazeboRcll

/-! ## The peer -/

/-- `max_packet_length`. -/
def maxPacketLength : ℕ := 1024

/-- `boost::asio::ip::udp::endpoint`. -/
structure Endpoint where
  address : UInt32
  port : UInt16
deriving DecidableEq, Repr

/-- `MessageRegister`, as far as messages are received. -/
structure MessageRegister (Msg : Type) where
  /-- The keys of `message_by_comp_type_`. -/
  registered : ℕ → ℕ → Bool
  /-- `ParseFromArray` of the type with those ids. -/
  parseFromArray : ℕ → ℕ → Bytes → Option Msg

/-- `MessageRegister::deserialize` of the bytes that it parses. -/
def MessageRegister.deserialize {Msg : Type} (r : MessageRegister Msg) (h : Handed) :
    Except String Msg :=
  if r.registered h.componentId h.msgType then
    match r.parseFromArray h.componentId h.msgType h.body with
    | none => .error "Failed to parse message"
    | some m => .ok m
  else
    .error ("Message type " ++ toString h.componentId ++ ":" ++ toString h.msgType ++
      " not registered")

/-- What `setup_crypto` leaves: the decryptor has the key itself, the encryptor the one that
is derived from it. -/
structure PeerCrypto (evp : Evp) where
  key : Bytes
  encryptor : BufferEncryptor
  derived : evp.bytesToKey encryptor.cipher key = some encryptor.key

/-- `ProtobufBroadcastPeer::setup_crypto`. -/
def setupCrypto (evp : Evp) (version : FrameVersion) (key : Bytes) (cipherName : String)
    (iv : Option UInt64) : Except String (Option (PeerCrypto evp)) :=
  if version = .V1 then .error "Crypto support only available with V2+ frame header"
  else if key ≠ [] ∧ cipherName ≠ "" then
    match h : BufferEncryptor.new evp key cipherName iv with
    | .error e => .error e
    | .ok encryptor => .ok (some ⟨key, encryptor, BufferEncryptor.derived_of_new h⟩)
  else .ok none

/-- What a peer is set up with, and the libraries it uses. -/
structure PeerConfig (Msg : Type) where
  version : FrameVersion
  filterSelf : Bool
  localEndpoints : List Endpoint
  evp : Evp
  /-- `crypto_enc_` and `crypto_dec_`; `crypto_` is false without them. -/
  crypto : Option (PeerCrypto evp)
  version_of_crypto : crypto.isSome = true → version = .V2
  register : MessageRegister Msg

theorem version_of_setupCrypto {evp : Evp} {version : FrameVersion} {key : Bytes}
    {cipherName : String} {iv : Option UInt64} {crypto : Option (PeerCrypto evp)}
    (h : setupCrypto evp version key cipherName iv = .ok crypto) : version = .V2 := by
  cases version with
  | V1 => cases h
  | V2 => rfl

/-- The peer after `setup_crypto`; only one that uses the second version can be set up so. -/
def PeerConfig.withCrypto {Msg : Type} (cfg : PeerConfig Msg) (key : Bytes) (cipherName : String)
    (iv : Option UInt64) : Except String (PeerConfig Msg) :=
  match h : setupCrypto cfg.evp cfg.version key cipherName iv with
  | .error e => .error e
  | .ok crypto =>
    .ok { cfg with crypto := crypto, version_of_crypto := fun _ => version_of_setupCrypto h }

/-- The two buffers of a peer. -/
structure Peer where
  inData : Bytes
  encInData : Bytes
deriving DecidableEq

/-- A completed `async_receive_from`. -/
structure Arrival where
  endpoint : Endpoint
  /-- The datagram. -/
  datagram : Bytes
  /-- It has completed with an error. -/
  error : Bool := false
  /-- `sig_rcvd_.num_slots()`, when it is read first and when it is read again. -/
  slots : ℕ
  slotsAfter : ℕ := slots
deriving DecidableEq

/-- The signals that a peer emits while it receives. -/
inductive PeerSignal (Msg : Type) where
  | rcvdRaw (endpoint : Endpoint) (header : FrameHeader) (data : Bytes)
  | rcvd (endpoint : Endpoint) (compId msgType : ℕ) (m : Msg)
  | recvError (endpoint : Endpoint) (text : String)
deriving DecidableEq

/-! ## Receiving -/

/-- `memcpy` into a buffer. -/
def overwrite (mem : Bytes) (offset : ℕ) (bytes : Bytes) : Bytes :=
  mem.take offset ++ bytes ++ mem.drop (offset + bytes.length)

/-- The bytes at the beginning of `mem` as a `frame_header_t`. -/
def FrameHeader.read (mem : Bytes) : FrameHeader where
  headerVersion := mem.getD 0 0
  cipher := mem.getD 1 0
  reserved2 := mem.getD 2 0
  reserved3 := mem.getD 3 0
  payloadSize := (mem.drop 4).take 4

/-- `expected_min_size`. -/
def FrameVersion.minSize : FrameVersion → ℕ
  | .V1 => FrameVersion.V1.headerSize
  | .V2 => FrameVersion.V2.headerSize + sizeofMessageHeader

/-- What `handle_recv` works on when it has looked at the frame header. -/
structure Prepared (Msg : Type) where
  /-- What it has emitted. -/
  signals : List (PeerSignal Msg)
  /-- `frame_header.payload_size`. -/
  payloadSize : Bytes
  bytesRcvd : ℕ
  peer : Peer
  /-- What `decrypt` has written, if it was called and has succeeded. -/
  plain : Option Bytes := none

namespace PeerConfig

variable {Msg : Type} (cfg : PeerConfig Msg)

/-- The datagrams of this sender are not looked at: `local_endpoints_` is sorted. -/
def filtered (endpoint : Endpoint) : Bool :=
  cfg.filterSelf && cfg.localEndpoints.contains endpoint

/-- The first half of `handle_recv`, up to the decryption. -/
def prepare (p : Peer) (a : Arrival) (bytesRcvd : ℕ) : Prepared Msg :=
  match cfg.version with
  | .V1 => ⟨[], (FrameHeaderV1.read p.inData).payloadSize, bytesRcvd, p, none⟩
  | .V2 =>
    let header := FrameHeader.read (if cfg.crypto.isSome then p.encInData else p.inData)
    let raw := PeerSignal.rcvdRaw a.endpoint header
      (((if cfg.crypto.isSome then p.encInData else p.inData).drop 8).take (bytesRcvd - 8))
    if a.slots = 0 then ⟨[raw], header.payloadSize, bytesRcvd, p, none⟩
    else
      match cfg.crypto with
      | none =>
        if header.cipher ≠ PB_ENCRYPTION_NONE then
          ⟨[raw, .recvError a.endpoint "Received encrypted message but encryption is disabled"],
            header.payloadSize, bytesRcvd, p, none⟩
        else ⟨[raw], header.payloadSize, bytesRcvd, p, none⟩
      | some c =>
        if header.cipher = PB_ENCRYPTION_NONE then
          -- the message that is in the other buffer from before is read
          ⟨[raw, .recvError a.endpoint "Received plain text message but encryption is enabled"],
            header.payloadSize, bytesRcvd, p, none⟩
        else
          let inData := overwrite p.inData 0 (p.encInData.take 8)
          match decrypt cfg.evp c.key header.cipher (p.encInData.drop 8) (bytesRcvd - 8) with
          | (plain, .ok size) =>
            ⟨[raw], htonl size, size + 8, { p with inData := overwrite inData 8 plain }, some plain⟩
          | (plain, .error e) =>
            ⟨[raw, .recvError a.endpoint ("Decryption fail: " ++ e)], header.payloadSize, 0,
              { p with inData := overwrite inData 8 plain }, none⟩

/-- `data_size` of `deserialize`. -/
def dataSize (payloadSize : Bytes) : ℕ := Strings.sizeSub (ntohl payloadSize) sizeofMessageHeader

/-- What is handed to `deserialize`, from the buffer for plain text. -/
def handed (x : Prepared Msg) : Handed :=
  match cfg.version with
  | .V1 =>
    let header := FrameHeaderV1.read x.peer.inData
    { componentId := ntohs header.componentId
      msgType := ntohs header.msgType
      body := (x.peer.inData.drop 8).take
        (dataSize (htonl (ntohl x.payloadSize + sizeofMessageHeader))) }
  | .V2 =>
    let header := MessageHeader.read (x.peer.inData.drop 8)
    { componentId := ntohs header.componentId
      msgType := ntohs header.msgType
      body := (x.peer.inData.drop 12).take (dataSize x.payloadSize) }

/-- The test of the number of bytes. -/
def LengthOk (x : Prepared Msg) : Prop :=
  x.bytesRcvd = cfg.version.headerSize + ntohl x.payloadSize

instance (x : Prepared Msg) : Decidable (cfg.LengthOk x) := inferInstanceAs (Decidable (_ = _))

/-- The second half of `handle_recv`. -/
def dispatch (a : Arrival) (x : Prepared Msg) : List (PeerSignal Msg) :=
  if a.slotsAfter = 0 then []
  else if cfg.LengthOk x then
    if cfg.filtered a.endpoint then []
    else
      match cfg.register.deserialize (cfg.handed x) with
      | .ok m => [.rcvd a.endpoint (cfg.handed x).componentId (cfg.handed x).msgType m]
      | .error e => [.recvError a.endpoint ("Deserialization fail: " ++ e)]
  else [.recvError a.endpoint "Invalid number of bytes received"]

end PeerConfig

/-- The bytes that are received: a datagram that is longer than the buffer is truncated. -/
def Arrival.received (a : Arrival) : Bytes := a.datagram.take maxPacketLength

namespace Peer

variable {Msg : Type}

/-- The received bytes are written to the buffer that `start_recv` has given away. -/
def store (cfg : PeerConfig Msg) (p : Peer) (a : Arrival) : Peer :=
  if cfg.crypto.isSome then { p with encInData := overwrite p.encInData 0 a.received }
  else { p with inData := overwrite p.inData 0 a.received }

/-- There is a frame to look at. -/
def Complete (cfg : PeerConfig Msg) (a : Arrival) : Prop :=
  a.error = false ∧ cfg.version.minSize ≤ a.received.length

instance (cfg : PeerConfig Msg) (a : Arrival) : Decidable (Complete cfg a) :=
  inferInstanceAs (Decidable (_ ∧ _))

/-- The state of `handle_recv` after the decryption. -/
def prepared (cfg : PeerConfig Msg) (p : Peer) (a : Arrival) : Prepared Msg :=
  cfg.prepare (p.store cfg a) a a.received.length

/-- `ProtobufBroadcastPeer::handle_recv`: the buffers, and the signals that it emits. -/
def handleRecv (cfg : PeerConfig Msg) (p : Peer) (a : Arrival) : Peer × List (PeerSignal Msg) :=
  if Complete cfg a then
    let x := p.prepared cfg a
    (x.peer, x.signals ++ cfg.dispatch a x)
  else
    (p.store cfg a,
      [.recvError a.endpoint "General receiving error or truncated message"])

end Peer

/-- A peer and the datagrams that it receives. -/
def peerSystem {Msg : Type} (cfg : PeerConfig Msg) : LTS Peer Arrival where
  init p := p.inData.length = maxPacketLength ∧ p.encInData.length = 2 * maxPacketLength
  next p a := some (p.handleRecv cfg a).1

/-! ## Reading the buffers -/

theorem overwrite_zero (mem bytes : Bytes) :
    overwrite mem 0 bytes = bytes ++ mem.drop bytes.length := by
  rw [overwrite, List.take_zero, List.nil_append, Nat.zero_add]

/-- A buffer does not get shorter. -/
theorem length_le_overwrite (mem bytes : Bytes) (offset : ℕ) :
    mem.length ≤ (overwrite mem offset bytes).length := by
  rw [overwrite, List.length_append, List.length_append, List.length_take, List.length_drop]
  omega

/-- A frame header is read from its eight bytes. -/
theorem FrameHeader.read_append {bytes : Bytes} (h : 8 ≤ bytes.length) (rest : Bytes) :
    FrameHeader.read (bytes ++ rest) = FrameHeader.read bytes := by
  have hget : ∀ n < 8, (bytes ++ rest).getD n 0 = bytes.getD n 0 := fun n hn =>
    List.getD_append _ _ _ _ (by omega)
  have hsize : ((bytes ++ rest).drop 4).take 4 = (bytes.drop 4).take 4 := by
    rw [List.drop_append_of_le_length (by omega),
      List.take_append_of_le_length (by rw [List.length_drop]; omega)]
  rw [read, hget 0 (by omega), hget 1 (by omega), hget 2 (by omega), hget 3 (by omega), hsize]
  rfl

theorem MessageHeader.read_append {bytes : Bytes} (h : 4 ≤ bytes.length) (rest : Bytes) :
    MessageHeader.read (bytes ++ rest) = MessageHeader.read bytes := by
  have hid : (bytes ++ rest).take 2 = bytes.take 2 :=
    List.take_append_of_le_length (by omega)
  have htype : ((bytes ++ rest).drop 2).take 2 = (bytes.drop 2).take 2 := by
    rw [List.drop_append_of_le_length (by omega),
      List.take_append_of_le_length (by rw [List.length_drop]; omega)]
  rw [read, hid, htype]
  rfl

/-! ## Only what has just been decrypted is delivered -/

/-- The frame header that a datagram begins with. -/
def Arrival.header (a : Arrival) : FrameHeader := .read a.received

/-- A message header and the body after it. -/
def Handed.ofPayload (payload : Bytes) : Handed where
  componentId := ntohs (MessageHeader.read payload).componentId
  msgType := ntohs (MessageHeader.read payload).msgType
  body := payload.drop sizeofMessageHeader

namespace Peer

variable {Msg : Type} (cfg : PeerConfig Msg) (p : Peer) (a : Arrival)

/-- The call of `decrypt` for the payload of a datagram, behind which the buffer still holds
what was in it. -/
def decryption (c : PeerCrypto cfg.evp) : Bytes × Except String ℕ :=
  decrypt cfg.evp c.key a.header.cipher
    (a.received.drop 8 ++ p.encInData.drop a.received.length) (a.received.length - 8)

/-- A message that is delivered for a datagram comes from it as the crypto setting asks for:
in plain text, or parsed from what `decrypt` has just made of its payload. -/
def Genuine (compId msgType : ℕ) (m : Msg) : Prop :=
  match cfg.crypto with
  -- frames of version 1 are never encrypted
  | none => cfg.version = .V2 → a.header.cipher = PB_ENCRYPTION_NONE
  | some c =>
    a.header.cipher ≠ PB_ENCRYPTION_NONE ∧ ∃ plain, (p.prepared cfg a).plain = some plain ∧
      p.decryption cfg a c = (plain, .ok plain.length) ∧ sizeofMessageHeader ≤ plain.length ∧
      compId = (Handed.ofPayload plain).componentId ∧
      msgType = (Handed.ofPayload plain).msgType ∧
      cfg.register.deserialize (.ofPayload plain) = .ok m

/-- What is delivered for a datagram is genuine, and no error is reported beside it. -/
structure Secure : Prop where
  genuine : ∀ e compId msgType m,
    PeerSignal.rcvd e compId msgType m ∈ (p.handleRecv cfg a).2 → p.Genuine cfg a compId msgType m
  exclusive : ∀ e compId msgType m e' text,
    PeerSignal.rcvd e compId msgType m ∈ (p.handleRecv cfg a).2 →
      PeerSignal.recvError e' text ∉ (p.handleRecv cfg a).2

/-- `handle_recv` goes on with a datagram that the crypto setting does not fit, that it has
not decrypted because nobody listened yet, or that was too short for a message header. -/
def Overlooked : Prop :=
  match cfg.crypto with
  | none => cfg.version = .V2 ∧ a.header.cipher ≠ PB_ENCRYPTION_NONE
  | some c =>
    a.header.cipher = PB_ENCRYPTION_NONE ∨ a.slots = 0 ∨
      ∃ plain, p.decryption cfg a c = (plain, .ok plain.length) ∧
        plain.length < sizeofMessageHeader

/-- Somebody listens, the number of bytes is right, the sender is not filtered, and the
register accepts what is in the buffer for plain text. -/
def Passes : Prop :=
  Complete cfg a ∧ a.slotsAfter ≠ 0 ∧ cfg.LengthOk (p.prepared cfg a) ∧
    cfg.filtered a.endpoint = false ∧
    ∃ m, cfg.register.deserialize (cfg.handed (p.prepared cfg a)) = .ok m

/-! ### What `handle_recv` does -/

variable {cfg p a}

theorem minSize_V2 (hcomplete : Complete cfg a) (hv : cfg.version = .V2) :
    12 ≤ a.received.length := by
  have hmin := hcomplete.2
  rw [hv] at hmin
  exact hmin

/-- The raw signal of a datagram. -/
def rawSignal (Msg : Type) (a : Arrival) : PeerSignal Msg :=
  .rcvdRaw a.endpoint a.header (a.received.drop 8)

/-- In the buffer stands the datagram, and behind it what the buffer held before. -/
theorem store_none (hc : cfg.crypto = none) :
    p.store cfg a = { p with inData := a.received ++ p.inData.drop a.received.length } := by
  rw [store, hc, ← overwrite_zero]
  rfl

theorem store_some {c : PeerCrypto cfg.evp} (hc : cfg.crypto = some c) :
    p.store cfg a = { p with encInData := a.received ++ p.encInData.drop a.received.length } := by
  rw [store, hc, ← overwrite_zero]
  rfl

theorem read_received (h : 8 ≤ a.received.length) (rest : Bytes) :
    FrameHeader.read (a.received ++ rest) = a.header := FrameHeader.read_append h rest

theorem take_drop_received (h : 8 ≤ a.received.length) (rest : Bytes) :
    ((a.received ++ rest).drop 8).take (a.received.length - 8) = a.received.drop 8 := by
  rw [List.drop_append_of_le_length h, List.take_left' List.length_drop]

theorem prepared_V1 (hv : cfg.version = .V1) :
    p.prepared cfg a =
      ⟨[], (FrameHeaderV1.read (p.store cfg a).inData).payloadSize, a.received.length,
        p.store cfg a, none⟩ := by
  rw [prepared, PeerConfig.prepare, hv]

theorem prepared_none (hcomplete : Complete cfg a) (hv : cfg.version = .V2)
    (hc : cfg.crypto = none) :
    p.prepared cfg a =
      ⟨rawSignal Msg a ::
          if a.slots ≠ 0 ∧ a.header.cipher ≠ PB_ENCRYPTION_NONE then
            [.recvError a.endpoint "Received encrypted message but encryption is disabled"]
          else [],
        a.header.payloadSize, a.received.length, p.store cfg a, none⟩ := by
  have hmin : 8 ≤ a.received.length := by
    have := minSize_V2 hcomplete hv
    omega
  rw [prepared, PeerConfig.prepare, hv, store_none hc, hc]
  simp only [Option.isSome_none, Bool.false_eq_true, if_false, take_drop_received hmin,
    read_received hmin]
  by_cases hslots : a.slots = 0
  · rw [if_pos hslots, if_neg fun h => h.1 hslots]
    rfl
  · rw [if_neg hslots]
    by_cases hcipher : a.header.cipher ≠ PB_ENCRYPTION_NONE
    · rw [if_pos hcipher, if_pos ⟨hslots, hcipher⟩]
      rfl
    · rw [if_neg hcipher, if_neg fun h => hcipher h.2]
      rfl

theorem prepared_some (hcomplete : Complete cfg a) {c : PeerCrypto cfg.evp}
    (hc : cfg.crypto = some c) :
    p.prepared cfg a =
      if a.slots = 0 then
        ⟨[rawSignal Msg a], a.header.payloadSize, a.received.length, p.store cfg a, none⟩
      else if a.header.cipher = PB_ENCRYPTION_NONE then
        ⟨[rawSignal Msg a,
            .recvError a.endpoint "Received plain text message but encryption is enabled"],
          a.header.payloadSize, a.received.length, p.store cfg a, none⟩
      else
        let inData := overwrite p.inData 0 (a.received.take 8)
        match p.decryption cfg a c with
        | (plain, .ok size) =>
          ⟨[rawSignal Msg a], htonl size, size + 8,
            { p.store cfg a with inData := overwrite inData 8 plain }, some plain⟩
        | (plain, .error e) =>
          ⟨[rawSignal Msg a, .recvError a.endpoint ("Decryption fail: " ++ e)],
            a.header.payloadSize, 0,
            { p.store cfg a with inData := overwrite inData 8 plain }, none⟩ := by
  have hv : cfg.version = .V2 := cfg.version_of_crypto (by rw [hc]; rfl)
  have hmin : 8 ≤ a.received.length := by
    have := minSize_V2 hcomplete hv
    omega
  rw [prepared, PeerConfig.prepare, hv, store_some hc, hc]
  simp only [Option.isSome_some, if_true, take_drop_received hmin, read_received hmin]
  rw [List.drop_append_of_le_length hmin, List.take_append_of_le_length hmin]
  rfl

/-- The first half emits no message. -/
theorem not_rcvd_prepared (hcomplete : Complete cfg a) (e : Endpoint) (compId msgType : ℕ)
    (m : Msg) : PeerSignal.rcvd e compId msgType m ∉ (p.prepared cfg a).signals := by
  cases hv : cfg.version with
  | V1 =>
    rw [prepared_V1 hv]
    exact List.not_mem_nil
  | V2 =>
    cases hc : cfg.crypto with
    | none =>
      rw [prepared_none hcomplete hv hc]
      split_ifs <;> simp [rawSignal]
    | some c =>
      rw [prepared_some hcomplete hc]
      split_ifs
      · simp [rawSignal]
      · simp [rawSignal]
      · rcases p.decryption cfg a c with ⟨plain, _ | _⟩ <;> simp [rawSignal]

/-- A message is delivered exactly if what was prepared passes. -/
theorem rcvd_mem_iff (e : Endpoint) (compId msgType : ℕ) (m : Msg) :
    PeerSignal.rcvd e compId msgType m ∈ (p.handleRecv cfg a).2 ↔
      p.Passes cfg a ∧ e = a.endpoint ∧
        compId = (cfg.handed (p.prepared cfg a)).componentId ∧
        msgType = (cfg.handed (p.prepared cfg a)).msgType ∧
        cfg.register.deserialize (cfg.handed (p.prepared cfg a)) = .ok m := by
  unfold handleRecv Passes
  by_cases hcomplete : Complete cfg a
  · rw [if_pos hcomplete]
    dsimp only
    rw [List.mem_append, or_iff_right (not_rcvd_prepared hcomplete e compId msgType m)]
    unfold PeerConfig.dispatch
    split_ifs with hslots hlength hfiltered
    · simp [hslots]
    · simp [hfiltered]
    · cases hm : cfg.register.deserialize (cfg.handed (p.prepared cfg a)) with
      | error text => simp
      | ok m' => simp [hcomplete, hslots, hlength, hfiltered, eq_comm]
    · simp [hlength]
  · rw [if_neg hcomplete]
    simp [hcomplete]

/-- Beside a message that is delivered only the first half can report an error. -/
theorem recvError_mem_iff (hpasses : p.Passes cfg a) (e : Endpoint) (text : String) :
    PeerSignal.recvError e text ∈ (p.handleRecv cfg a).2 ↔
      PeerSignal.recvError e text ∈ (p.prepared cfg a).signals := by
  obtain ⟨hcomplete, hslots, hlength, hfiltered, m, hm⟩ := hpasses
  rw [handleRecv, if_pos hcomplete]
  dsimp only
  rw [PeerConfig.dispatch, if_neg hslots, if_pos hlength,
    if_neg (by rw [hfiltered]; exact Bool.false_ne_true), hm]
  simp

/-- A payload behind the frame header is handed to `deserialize` as it is, whatever comes
after it in the buffer. -/
theorem handed_of_payload (hv : cfg.version = .V2) {payload : Bytes}
    (hfour : sizeofMessageHeader ≤ payload.length) (hlt : payload.length < 2 ^ 32)
    {x : Prepared Msg} (hsize : x.payloadSize = htonl payload.length)
    (hdata : payload <+: x.peer.inData.drop 8) : cfg.handed x = .ofPayload payload := by
  obtain ⟨behind, hdata⟩ := hdata
  have hbody : x.peer.inData.drop 12 = payload.drop sizeofMessageHeader ++ behind := by
    rw [show 12 = 8 + sizeofMessageHeader from rfl, ← List.drop_drop, ← hdata,
      List.drop_append_of_le_length hfour]
  have hdataSize : PeerConfig.dataSize x.payloadSize =
      (payload.drop sizeofMessageHeader).length := by
    rw [PeerConfig.dataSize, hsize, ntohl_htonl, Nat.mod_eq_of_lt hlt, List.length_drop,
      Strings.sizeSub_of_le (by omega) hfour]
  rw [PeerConfig.handed, hv]
  dsimp only
  rw [← hdata, hbody, hdataSize, List.take_left, MessageHeader.read_append hfour]
  rfl

/-- The buffer for plain text is as long as the constructor has made it, at least. -/
def Sized (p : Peer) : Prop := maxPacketLength ≤ p.inData.length

theorem length_le_store : p.inData.length ≤ (p.store cfg a).inData.length := by
  rw [store]
  split_ifs
  · exact Nat.le_refl _
  · exact length_le_overwrite ..

/-- No datagram makes the buffer shorter. -/
theorem length_le_handleRecv : p.inData.length ≤ (p.handleRecv cfg a).1.inData.length := by
  rw [handleRecv]
  split_ifs with hcomplete
  · dsimp only
    cases hv : cfg.version with
    | V1 =>
      rw [prepared_V1 hv]
      exact length_le_store
    | V2 =>
      cases hc : cfg.crypto with
      | none =>
        rw [prepared_none hcomplete hv hc]
        exact length_le_store
      | some c =>
        rw [prepared_some hcomplete hc]
        have hdecrypted : ∀ plain, p.inData.length ≤
            (overwrite (overwrite p.inData 0 (a.received.take 8)) 8 plain).length :=
          fun plain => Nat.le_trans (length_le_overwrite ..) (length_le_overwrite ..)
        split_ifs
        · exact length_le_store
        · exact length_le_store
        · rcases p.decryption cfg a c with ⟨plain, _ | _⟩
          · exact hdecrypted plain
          · exact hdecrypted plain
  · exact length_le_store

theorem sized_of_reachable (h : (peerSystem cfg).Reachable p) : p.Sized := by
  refine LTS.Reach.invariant (P := Sized) ?_ ?_ h
  · exact fun p hinit => Nat.le_of_eq hinit.1.symm
  · intro p a p' hsized _ hstep
    cases hstep
    exact Nat.le_trans hsized length_le_handleRecv

/-- What passes although it was overlooked is delivered without being genuine. -/
theorem not_secure_of_overlooked (hpasses : p.Passes cfg a) (hover : p.Overlooked cfg a) :
    ¬ p.Secure cfg a := by
  intro hsecure
  obtain ⟨m, hm⟩ := hpasses.2.2.2.2
  have hgenuine := hsecure.genuine _ _ _ _ ((rcvd_mem_iff _ _ _ m).mpr ⟨hpasses, rfl, rfl, rfl, hm⟩)
  unfold Overlooked at hover
  unfold Genuine at hgenuine
  cases hc : cfg.crypto with
  | none =>
    rw [hc] at hover hgenuine
    exact hover.2 (hgenuine hover.1)
  | some c =>
    rw [hc] at hover hgenuine
    obtain ⟨hcipher, plain, hplain, hdecrypt, hfour, -⟩ := hgenuine
    rcases hover with hnone | hslots | ⟨plain', hdecrypt', hshort⟩
    · exact hcipher hnone
    · -- `decrypt` was not called
      rw [prepared_some hpasses.1 hc, if_pos hslots] at hplain
      cases hplain
    · rw [hdecrypt] at hdecrypt'
      cases hdecrypt'
      omega

/-- It is enough to know the message, and that the first half has reported nothing. -/
theorem secure_of_passes (hpasses : p.Passes cfg a)
    (hgenuine : ∀ m, cfg.register.deserialize (cfg.handed (p.prepared cfg a)) = .ok m →
      p.Genuine cfg a (cfg.handed (p.prepared cfg a)).componentId
        (cfg.handed (p.prepared cfg a)).msgType m)
    (hquiet : ∀ e text, PeerSignal.recvError e text ∉ (p.prepared cfg a).signals) :
    p.Secure cfg a := by
  constructor
  · intro e compId msgType m hmem
    obtain ⟨-, -, rfl, rfl, hm⟩ := (rcvd_mem_iff _ _ _ m).mp hmem
    exact hgenuine m hm
  · intro e compId msgType m e' text _
    rw [recvError_mem_iff hpasses]
    exact hquiet e' text

theorem crypto_V1 (hv : cfg.version = .V1) : cfg.crypto = none := by
  cases hc : cfg.crypto with
  | none => rfl
  | some c =>
    have hv2 := cfg.version_of_crypto (by rw [hc]; rfl)
    rw [hv] at hv2
    cases hv2

/-- The number of bytes is right only if the decryption has succeeded. -/
theorem prepared_decrypted {c : PeerCrypto cfg.evp} (hc : cfg.crypto = some c)
    (hpasses : p.Passes cfg a) (hslots : a.slots ≠ 0)
    (hcipher : a.header.cipher ≠ PB_ENCRYPTION_NONE) :
    ∃ plain, p.decryption cfg a c = (plain, .ok plain.length) ∧ plain.length < 2 ^ 32 ∧
      p.prepared cfg a = ⟨[rawSignal Msg a], htonl plain.length, plain.length + 8,
        { p.store cfg a with
          inData := overwrite (overwrite p.inData 0 (a.received.take 8)) 8 plain },
        some plain⟩ := by
  have hv : cfg.version = .V2 := cfg.version_of_crypto (by rw [hc]; rfl)
  have hlength := hpasses.2.2.1
  have hprep := prepared_some (p := p) hpasses.1 hc
  rw [if_neg hslots, if_neg hcipher] at hprep
  unfold PeerConfig.LengthOk at hlength
  rw [hv] at hlength
  rcases hdecrypt : p.decryption cfg a c with ⟨plain, result⟩
  rw [hdecrypt] at hprep
  cases result with
  | error e =>
    -- no frame has zero bytes
    rw [hprep] at hlength
    dsimp only [FrameVersion.headerSize] at hlength
    omega
  | ok size =>
    obtain rfl : plain.length = size := length_of_decrypt hdecrypt
    refine ⟨plain, rfl, ?_, hprep⟩
    rw [hprep] at hlength
    dsimp only [FrameVersion.headerSize] at hlength
    rw [ntohl_htonl] at hlength
    omega

/-- What was decrypted is handed to `deserialize`. -/
theorem handed_decrypted {c : PeerCrypto cfg.evp} (hc : cfg.crypto = some c) (hsized : p.Sized)
    {plain : Bytes} (hfour : sizeofMessageHeader ≤ plain.length) (hlt : plain.length < 2 ^ 32)
    {x : Prepared Msg} (hsize : x.payloadSize = htonl plain.length)
    (hdata : x.peer.inData = overwrite (overwrite p.inData 0 (a.received.take 8)) 8 plain) :
    cfg.handed x = .ofPayload plain := by
  have hv : cfg.version = .V2 := cfg.version_of_crypto (by rw [hc]; rfl)
  have hroom : 8 ≤ p.inData.length := Nat.le_trans (by decide) hsized
  have hfront : ((overwrite p.inData 0 (a.received.take 8)).take 8).length = 8 := by
    have hle := length_le_overwrite p.inData (a.received.take 8) 0
    rw [List.length_take]
    omega
  refine handed_of_payload hv hfour hlt hsize ?_
  rw [hdata, overwrite, List.append_assoc, List.drop_left' hfront]
  exact List.prefix_append ..

theorem secure_of_not_overlooked (hsized : p.Sized) (hpasses : p.Passes cfg a)
    (hover : ¬ p.Overlooked cfg a) : p.Secure cfg a := by
  have hcomplete := hpasses.1
  unfold Overlooked at hover
  cases hv : cfg.version with
  | V1 =>
    have hc := crypto_V1 hv
    -- V1 datagrams are never encrypted
    refine secure_of_passes hpasses (fun m _ => ?_) fun e text => ?_
    · rw [Genuine, hc]
      intro hv2
      rw [hv] at hv2
      cases hv2
    · rw [prepared_V1 hv]
      exact List.not_mem_nil
  | V2 =>
    cases hc : cfg.crypto with
    | none =>
      rw [hc] at hover
      -- without a key every encrypted datagram is overlooked
      have hcipher : a.header.cipher = PB_ENCRYPTION_NONE := by
        by_contra hne
        exact hover ⟨hv, hne⟩
      refine secure_of_passes hpasses (fun m _ => ?_) fun e text => ?_
      · rw [Genuine, hc]
        exact fun _ => hcipher
      · rw [prepared_none hcomplete hv hc, if_neg fun h => h.2 hcipher]
        simp [rawSignal]
    | some c =>
      rw [hc] at hover
      have hcipher : a.header.cipher ≠ PB_ENCRYPTION_NONE := fun h => hover (.inl h)
      have hslots : a.slots ≠ 0 := fun h => hover (.inr (.inl h))
      -- with one the handler is given what was decrypted
      obtain ⟨plain, hdecrypt, hlt, hprep⟩ := prepared_decrypted hc hpasses hslots hcipher
      have hfour : sizeofMessageHeader ≤ plain.length := by
        by_contra hshort
        exact hover (.inr (.inr ⟨plain, hdecrypt, Nat.lt_of_not_le hshort⟩))
      have hhanded : cfg.handed (p.prepared cfg a) = .ofPayload plain :=
        handed_decrypted hc hsized hfour hlt (by rw [hprep]) (by rw [hprep])
      refine secure_of_passes hpasses (fun m hm => ?_) fun e text => ?_
      · rw [hhanded] at hm ⊢
        rw [Genuine, hc]
        exact ⟨hcipher, plain, by rw [hprep], hdecrypt, hfour, rfl, rfl, hm⟩
      · rw [hprep]
        simp [rawSignal]

end Peer

/-- A peer delivers only what is genuine, and nothing beside an error, exactly if what it has
overlooked does not pass. -/
theorem secure_iff {Msg : Type} (cfg : PeerConfig Msg) {p : Peer}
    (h : (peerSystem cfg).Reachable p) (a : Arrival) :
    p.Secure cfg a ↔ (p.Overlooked cfg a → ¬ p.Passes cfg a) := by
  constructor
  · exact fun hsecure hover hpasses => Peer.not_secure_of_overlooked hpasses hover hsecure
  · intro hcond
    by_cases hpasses : p.Passes cfg a
    · exact Peer.secure_of_not_overlooked (Peer.sized_of_reachable h) hpasses
        fun hover => hcond hover hpasses
    · constructor
      · exact fun e compId msgType m hmem => absurd ((Peer.rcvd_mem_iff _ _ _ m).mp hmem).1 hpasses
      · exact fun e compId msgType m _ _ hmem =>
          absurd ((Peer.rcvd_mem_iff _ _ _ m).mp hmem).1 hpasses

/-- OpenSSL with the key `secret` on the message header 2000, 41 and nothing else. -/
def opensslSecret : Evp :=
  let key : Bytes := [31, 238, 166, 131, 143, 218, 2, 37, 27, 2, 254, 14, 220, 147, 166, 47]
  let block : Bytes :=
    [211, 125, 117, 7, 142, 205, 109, 206, 130, 113, 163, 180, 65, 145, 157, 138]
  let plain : Bytes := [7, 208, 0, 41]
  { bytesToKey := fun c k =>
      if c = .aes128Ecb ∧ k = [115, 101, 99, 114, 101, 116] then some key else none
    sha256 := fun _ => none
    encryptInit := fun ctx => ctx = ⟨.aes128Ecb, key, []⟩
    -- a block is given out when it is known whether it is the last one
    encryptUpdate := fun _ p => if p = plain then some [] else none
    encryptFinal := fun _ p => if p = plain then some block else none
    decryptInit := fun ctx => ctx = ⟨.aes128Ecb, key, []⟩
    decryptUpdate := fun _ mem inl => ([], inl = 16 ∧ mem.take 16 = block)
    decryptFinal := fun _ mem inl => (plain, inl = 16 ∧ mem.take 16 = block) }

/-- A peer with that key, which knows `OrderInfo`; a message without orders is empty. -/
def secretPeer : PeerConfig Handed where
  version := .V2
  filterSelf := true
  localEndpoints := []
  evp := opensslSecret
  crypto := some ⟨[115, 101, 99, 114, 101, 116],
    ⟨.aes128Ecb, [31, 238, 166, 131, 143, 218, 2, 37, 27, 2, 254, 14, 220, 147, 166, 47], 0⟩,
    by decide⟩
  version_of_crypto _ := rfl
  register :=
    { registered := fun compId msgType => compId = 2000 && msgType = 41
      parseFromArray := fun compId msgType body =>
        if body = [] then some ⟨compId, msgType, body⟩ else none }

example : PeerConfig.withCrypto { secretPeer with crypto := none, version_of_crypto := nofun }
    [115, 101, 99, 114, 101, 116] "aes-128-ecb" (some 0) = .ok secretPeer := rfl

/-- Such a message, encrypted. -/
def secretOrderInfo : Arrival where
  endpoint := ⟨0, 4444⟩
  datagram := [2, 1, 0, 0, 0, 0, 0, 16,
    211, 125, 117, 7, 142, 205, 109, 206, 130, 113, 163, 180, 65, 145, 157, 138]
  slots := 1

/-- Twelve bytes in plain text, of which the header is right. -/
def plainText : Arrival where
  endpoint := ⟨0, 4444⟩
  datagram := [2, 0, 0, 0, 0, 0, 0, 4, 255, 255, 255, 255]
  slots := 1

/-- The buffers after their allocation. -/
def Peer.zeroed : Peer := ⟨List.replicate 1024 0, List.replicate 2048 0⟩

theorem Peer.reachable_zeroed {Msg : Type} (cfg : PeerConfig Msg) :
    (peerSystem cfg).Reachable zeroed := by
  refine .init ⟨?_, ?_⟩
  · exact List.length_replicate
  · exact List.length_replicate

theorem secure_iff_secret : Peer.zeroed.Secure secretPeer secretOrderInfo := by
  refine (secure_iff secretPeer (Peer.reachable_zeroed _) secretOrderInfo).mpr fun hover => ?_
  have hdecrypt : ∀ c, secretPeer.crypto = some c →
      Peer.zeroed.decryption secretPeer secretOrderInfo c = ([7, 208, 0, 41], .ok 4) := by
    rintro _ ⟨⟩
    decide +kernel
  rcases hover with hnone | hslots | ⟨plain, hplain, hshort⟩
  · exact absurd hnone (by decide)
  · exact absurd hslots (by decide)
  · rw [hdecrypt _ rfl] at hplain
    cases hplain
    exact absurd hshort (by decide)

/-- The datagram in plain text is reported as an error, and the message that was decrypted
before is delivered a second time. -/
theorem plain_text_redelivers :
    ¬ ∀ p a, (peerSystem secretPeer).Reachable p → p.Secure secretPeer a := by
  intro h
  have hreach : (peerSystem secretPeer).Reachable
      (Peer.zeroed.handleRecv secretPeer secretOrderInfo).1 :=
    .step (Peer.reachable_zeroed secretPeer) trivial rfl
  have hrcvd : PeerSignal.rcvd ⟨0, 4444⟩ 2000 41 ⟨2000, 41, []⟩ ∈
      ((Peer.zeroed.handleRecv secretPeer secretOrderInfo).1.handleRecv secretPeer
        plainText).2 := by
    decide +kernel
  have herror : PeerSignal.recvError ⟨0, 4444⟩
      "Received plain text message but encryption is enabled" ∈
      ((Peer.zeroed.handleRecv secretPeer secretOrderInfo).1.handleRecv secretPeer
        plainText).2 := by
    decide +kernel
  exact (h _ plainText hreach).exclusive _ _ _ _ _ _ hrcvd herror

end GazeboRcll
