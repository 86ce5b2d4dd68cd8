import GazeboRcll.Protobuf.Framing

/-!
# Encrypted buffers

`BufferEncryptor` and `BufferDecryptor`. The ciphers themselves are functions of OpenSSL and
enter as a parameter (`Evp`), with what its documentation promises as `Evp.Lawful`; the
initialisation vector, the sizes and the exceptions are those of the source.
-/

namespace GazeboRcll

/-! ## Ciphers -/

def PB_ENCRYPTION_NONE : UInt8 := 0

/-- The ciphers of `frame_header.h`. -/
inductive Cipher where
  | aes128Ecb | aes128Cbc | aes256Ecb | aes256Cbc
deriving DecidableEq, Repr

namespace Cipher

/-- The `PB_ENCRYPTION_*` constants. -/
def id : Cipher → UInt8
  | aes128Ecb => 1
  | aes128Cbc => 2
  | aes256Ecb => 3
  | aes256Cbc => 4

/-- `EVP_CIPHER_iv_length`. -/
def ivLength : Cipher → ℕ
  | aes128Ecb | aes256Ecb => 0
  | aes128Cbc | aes256Cbc => 16

/-- `EVP_CIPHER_block_size`. -/
def blockSize : Cipher → ℕ := fun _ => 16

end Cipher

/-- `cipher_by_id`. -/
def cipherById (cipher : UInt8) : Except String Cipher :=
  if cipher = 1 then .ok .aes128Ecb
  else if cipher = 2 then .ok .aes128Cbc
  else if cipher = 3 then .ok .aes256Ecb
  else if cipher = 4 then .ok .aes256Cbc
  else .error "Unknown cipher type"

/-- `cipher_by_name` and `cipher_name_to_id`. -/
def cipherByName (cipher : String) : Except String Cipher :=
  if cipher = "aes-128-ecb" then .ok .aes128Ecb
  else if cipher = "aes-128-cbc" then .ok .aes128Cbc
  else if cipher = "aes-256-ecb" then .ok .aes256Ecb
  else if cipher = "aes-256-cbc" then .ok .aes256Cbc
  else .error "Unknown cipher type"

theorem Cipher.id_ne_none (c : Cipher) : c.id ≠ PB_ENCRYPTION_NONE := by
  cases c <;> decide

theorem cipherById_id (c : Cipher) : cipherById c.id = .ok c := by
  cases c <;> rfl

/-- What an `EVP_CIPHER_CTX` is initialised with. -/
structure EvpContext where
  cipher : Cipher
  key : Bytes
  iv : Bytes
deriving DecidableEq

/-- The functions of OpenSSL. Those that write a buffer give the bytes they write there;
`none` and `false` are their failures. -/
structure Evp where
  /-- `EVP_BytesToKey` with SHA-256, eight rounds and no salt. -/
  bytesToKey : Cipher → Bytes → Option Bytes
  /-- `SHA256` of a number. -/
  sha256 : UInt64 → Option (Vector UInt8 32)
  encryptInit : EvpContext → Bool
  encryptUpdate : EvpContext → (plain : Bytes) → Option Bytes
  /-- `EVP_EncryptFinal_ex` after the update with that text. -/
  encryptFinal : EvpContext → (plain : Bytes) → Option Bytes
  decryptInit : EvpContext → Bool
  /-- The length is a signed one, the memory reaches beyond it. -/
  decryptUpdate : EvpContext → (mem : Bytes) → (inl : ℤ) → Bytes × Bool
  /-- `EVP_DecryptFinal` after the update with that memory. -/
  decryptFinal : EvpContext → (mem : Bytes) → (inl : ℤ) → Bytes × Bool

/-! ## `BufferEncryptor` -/

structure BufferEncryptor where
  cipher : Cipher
  key : Bytes
  iv : UInt64

namespace BufferEncryptor

/-- The constructor; `iv` is what `RAND_bytes` gives. -/
def new (evp : Evp) (key : Bytes) (cipherName : String) (iv : Option UInt64) :
    Except String BufferEncryptor :=
  match cipherByName cipherName with
  | .error e => .error e
  | .ok cipher =>
    match evp.bytesToKey cipher key with
    | none => .error "Failed to generate key"
    | some key =>
      match iv with
      | none => .error "Failed to generate IV"
      | some iv => .ok ⟨cipher, key, iv⟩

theorem derived_of_new {evp : Evp} {key : Bytes} {cipherName : String} {iv : Option UInt64}
    {e : BufferEncryptor} (h : new evp key cipherName iv = .ok e) :
    evp.bytesToKey e.cipher key = some e.key := by
  unfold new at h
  split at h
  · cases h
  · split at h
    · cases h
    · rename_i hkey
      split at h
      · cases h
      · cases h
        exact hkey

/-- `BufferEncryptor::encrypted_buffer_size`. -/
def encryptedBufferSize (e : BufferEncryptor) (plainLength : ℕ) : ℕ :=
  (plainLength / e.cipher.blockSize + 1) * e.cipher.blockSize + e.cipher.ivLength

/-- The part of `BufferEncryptor::encrypt` after the vector has been put in front. -/
def encryptWith (evp : Evp) (ctx : EvpContext) (plain : Bytes) : Except String Bytes :=
  if evp.encryptInit ctx = false then .error "Could not initialize cipher context"
  else
    match evp.encryptUpdate ctx plain with
    | none => .error "EncryptUpdate failed"
    | some update =>
      match evp.encryptFinal ctx plain with
      | none => .error "EncryptFinal failed"
      | some final => .ok (ctx.iv ++ update ++ final)

/-- `BufferEncryptor::encrypt`: the encrypted buffer, resized to what was written. -/
def encrypt (evp : Evp) (e : BufferEncryptor) (plain : Bytes) : Except String Bytes :=
  if e.cipher.ivLength > 0 then
    match evp.sha256 (e.iv + 1) with
    | none => .error "Failed to generate IV"
    | some ivHash =>
      encryptWith evp ⟨e.cipher, e.key, ivHash.toList.take e.cipher.ivLength⟩ plain
  else encryptWith evp ⟨e.cipher, e.key, []⟩ plain

end BufferEncryptor

/-! ## `BufferDecryptor` -/

/-- `BufferDecryptor::decrypt` with a key: the bytes it writes to `plain`, and its result.
The buffer that `enc` points to goes on after the `encSize` bytes. Keys derived before are
kept by the source; they are the same ones. -/
def decrypt (evp : Evp) (key : Bytes) (cipher : UInt8) (enc : Bytes) (encSize : ℕ) :
    Bytes × Except String ℕ :=
  match cipherById cipher with
  | .error e => ([], .error e)
  | .ok c =>
    match evp.bytesToKey c key with
    | none => ([], .error "Failed to generate key")
    | some key =>
      let ctx : EvpContext := ⟨c, key, enc.take c.ivLength⟩
      let encM := enc.drop c.ivLength
      -- without a test that there are so many bytes; the size is handed over as an `int`
      let inl := Int.bmod (Strings.sizeSub encSize c.ivLength) (2 ^ 32)
      if evp.decryptInit ctx = false then ([], .error "Could not initialize cipher context")
      else
        let update := evp.decryptUpdate ctx encM inl
        if update.2 = false then (update.1, .error "DecryptUpdate failed")
        else
          let final := evp.decryptFinal ctx encM inl
          if final.2 = false then (update.1 ++ final.1, .error "DecryptFinal failed")
          else (update.1 ++ final.1, .ok (update.1 ++ final.1).length)

/-- What the documentation of OpenSSL says: the text is padded to whole blocks, at least by
one byte, and decryption with the same key and vector gives it back. -/
structure Evp.Lawful (evp : Evp) : Prop where
  size : ∀ ctx plain update final, evp.encryptUpdate ctx plain = some update →
    evp.encryptFinal ctx plain = some final →
    (update ++ final).length = (plain.length / ctx.cipher.blockSize + 1) * ctx.cipher.blockSize
  inverse : ∀ ctx plain update final, evp.encryptInit ctx = true →
    evp.encryptUpdate ctx plain = some update → evp.encryptFinal ctx plain = some final →
    ∀ rest, evp.decryptInit ctx = true ∧
      (evp.decryptUpdate ctx (update ++ final ++ rest) (update ++ final).length).2 = true ∧
      (evp.decryptFinal ctx (update ++ final ++ rest) (update ++ final).length).2 = true ∧
      (evp.decryptUpdate ctx (update ++ final ++ rest) (update ++ final).length).1 ++
        (evp.decryptFinal ctx (update ++ final ++ rest) (update ++ final).length).1 = plain

/-! ## Sizes and the round trip -/

/-- A decryption that succeeds returns the number of bytes it has written. -/
theorem length_of_decrypt {evp : Evp} {key enc plain : Bytes} {cipher : UInt8} {encSize n : ℕ}
    (h : decrypt evp key cipher enc encSize = (plain, .ok n)) : plain.length = n := by
  unfold decrypt at h
  split at h
  · cases h
  · split at h
    · cases h
    · dsimp only at h
      split_ifs at h
      · cases h
      · cases h
      · cases h
      · cases h
        rfl

namespace BufferEncryptor

variable {evp : Evp} {e : BufferEncryptor} {plain enc : Bytes}

theorem encryptWith_eq_ok {ctx : EvpContext} (h : encryptWith evp ctx plain = .ok enc) :
    evp.encryptInit ctx = true ∧ ∃ update final, evp.encryptUpdate ctx plain = some update ∧
      evp.encryptFinal ctx plain = some final ∧ enc = ctx.iv ++ (update ++ final) := by
  unfold encryptWith at h
  split_ifs at h with hinit
  cases hupdate : evp.encryptUpdate ctx plain with
  | none =>
    rw [hupdate] at h
    cases h
  | some update =>
    cases hfinal : evp.encryptFinal ctx plain with
    | none =>
      rw [hupdate] at h
      dsimp only at h
      rw [hfinal] at h
      cases h
    | some final =>
      rw [hupdate] at h
      dsimp only at h
      rw [hfinal] at h
      cases h
      exact ⟨Bool.of_not_eq_false hinit, update, final, rfl, rfl,
        List.append_assoc ..⟩

/-- The vector in front has the length that the cipher asks for. -/
theorem encrypt_eq_ok (h : encrypt evp e plain = .ok enc) :
    ∃ iv, iv.length = e.cipher.ivLength ∧
      encryptWith evp ⟨e.cipher, e.key, iv⟩ plain = .ok enc := by
  unfold encrypt at h
  split_ifs at h with hiv
  · cases hhash : evp.sha256 (e.iv + 1) with
    | none =>
      rw [hhash] at h
      cases h
    | some ivHash =>
      rw [hhash] at h
      refine ⟨_, ?_, h⟩
      have hle : e.cipher.ivLength ≤ 32 := by
        cases e.cipher <;> decide
      rw [List.length_take, Vector.length_toList, Nat.min_eq_left hle]
  · exact ⟨[], (Nat.eq_zero_of_not_pos hiv).symm, h⟩

/-- The encrypted text has the length that is allocated for it. -/
theorem length_encrypt (hevp : evp.Lawful) (h : encrypt evp e plain = .ok enc) :
    enc.length = e.encryptedBufferSize plain.length := by
  obtain ⟨iv, hiv, h⟩ := encrypt_eq_ok h
  obtain ⟨-, update, final, hupdate, hfinal, rfl⟩ := encryptWith_eq_ok h
  have hsize := hevp.size _ _ _ _ hupdate hfinal
  rw [List.length_append, hsize, hiv, encryptedBufferSize]
  exact Nat.add_comm ..

/-- Decryption with the key that the encryptor was made of gives the text back, whatever
comes after it in the buffer. -/
theorem decrypt_encrypt (hevp : evp.Lawful) {key : Bytes}
    (hkey : evp.bytesToKey e.cipher key = some e.key) (h : encrypt evp e plain = .ok enc)
    (hlt : enc.length < 2 ^ 31) (rest : Bytes) :
    decrypt evp key e.cipher.id (enc ++ rest) enc.length = (plain, .ok plain.length) := by
  obtain ⟨iv, hiv, h⟩ := encrypt_eq_ok h
  obtain ⟨hinit, update, final, hupdate, hfinal, rfl⟩ := encryptWith_eq_ok h
  have htake : (iv ++ (update ++ final) ++ rest).take e.cipher.ivLength = iv := by
    rw [List.append_assoc, List.take_left' hiv]
  have hdrop : (iv ++ (update ++ final) ++ rest).drop e.cipher.ivLength =
      update ++ final ++ rest := by
    rw [List.append_assoc, List.drop_left' hiv]
  have hlength : (iv ++ (update ++ final)).length =
      e.cipher.ivLength + (update ++ final).length := by
    rw [List.length_append, hiv]
  -- the length without the vector, as an `int`
  have hinl : Int.bmod (Strings.sizeSub (iv ++ (update ++ final)).length e.cipher.ivLength)
      (2 ^ 32) = (update ++ final).length := by
    rw [hlength] at hlt
    rw [hlength, Strings.sizeSub_of_le (by omega) (by omega), Nat.add_sub_cancel_left]
    exact Int.bmod_eq_of_le (by omega) (by omega)
  obtain ⟨hdinit, hdupdate, hdfinal, hplain⟩ :=
    hevp.inverse _ _ _ _ hinit hupdate hfinal rest
  unfold decrypt
  rw [cipherById_id]
  dsimp only
  rw [hkey]
  dsimp only
  rw [htake, hdrop, hinl, hdinit, if_neg (by decide), hdupdate, if_neg (by decide), hdfinal,
    if_neg (by decide), hplain]

end BufferEncryptor

end GazeboRcll
