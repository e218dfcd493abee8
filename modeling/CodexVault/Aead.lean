import CodexVault.ByteStrings

/-!
# The AEAD

AES-256-GCM comes from the `aes-gcm` crate; here it is a parameter.  `Aead`
holds the two functions the program calls; `SealingAead` and `LawfulAead` add
the facts it relies on.  That nothing else decrypts is not among them: it is
stated, where it is needed, relative to the encryptions that took place.
-/

namespace CodexVault

open ByteStrings

/-- A 256-bit key. -/
abbrev Key := FixedBytes 32

/-- `Aes256Gcm`: key, nonce, associated data and message. -/
structure Aead where
  encrypt : Key → FixedBytes 12 → Bytes → Bytes → Option Bytes
  decrypt : Key → FixedBytes 12 → Bytes → Bytes → Option Bytes

/-- The documented behaviour of sealing in `aes-gcm`: messages up to `2 ^ 36`
bytes are encrypted to sixteen bytes more. -/
structure SealingAead extends Aead where
  encrypt_isSome : ∀ key nonce aad message, message.length ≤ 2 ^ 36 →
    ∃ ciphertext, encrypt key nonce aad message = some ciphertext
  length_encrypt : ∀ {key nonce aad message ciphertext},
    encrypt key nonce aad message = some ciphertext →
      ciphertext.length = message.length + 16

/-- An AEAD whose decryption undoes encryption. -/
structure LawfulAead extends SealingAead where
  decrypt_encrypt : ∀ {key nonce aad message ciphertext},
    encrypt key nonce aad message = some ciphertext →
      decrypt key nonce aad ciphertext = some message

/-- An AEAD that pads and opens the listed triples of nonce, associated data and
ciphertext, each to its plaintext. -/
def tableAead (table : List (FixedBytes 12 × Bytes × Bytes × Bytes)) : SealingAead where
  encrypt _ _ _ message := some (message ++ List.replicate 16 0)
  decrypt _ nonce aad ciphertext :=
    (table.find? fun entry =>
      entry.1 = nonce ∧ entry.2.1 = aad ∧ entry.2.2.1 = ciphertext).map (·.2.2.2)
  encrypt_isSome := fun _ _ _ message _ => ⟨message ++ List.replicate 16 0, rfl⟩
  length_encrypt := by
    intro key nonce aad message ciphertext h
    rw [← Option.some.inj h, List.length_append, List.length_replicate]

theorem mem_of_tableAead {table : List (FixedBytes 12 × Bytes × Bytes × Bytes)} {key : Key}
    {nonce : FixedBytes 12} {aad ciphertext plaintext : Bytes}
    (h : (tableAead table).decrypt key nonce aad ciphertext = some plaintext) :
    ∃ entry ∈ table, entry.1 = nonce ∧ entry.2.1 = aad ∧ entry.2.2.1 = ciphertext := by
  obtain ⟨entry, hfind, _⟩ := Option.map_eq_some_iff.mp h
  exact ⟨entry, List.mem_of_find?_eq_some hfind, by simpa using List.find?_some hfind⟩

end CodexVault
