import Nazg.Nexus.Crypto

/-!
# What passes for an encrypted token

With a cipher that rejects whatever it did not make, an accepted token has parts that were
encrypted together, and the only freedom left is in how the parts are written. The writer
has one way, two lower-case digits a byte; the reader takes others for the same bytes. So
an accepted token is one that encryption can produce exactly when it is written as the
writer writes.
-/

namespace Nazg.Nexus

open Lib

/-- What decrypts to `p` is what `p` encrypts to: the cipher rejects every other ciphertext
and tag. -/
def Evp.Authentic (evp : Evp) : Prop :=
  ∀ {key iv ct tag p}, evp.decrypt key iv ct tag = some p → evp.encrypt key iv p = some (ct, tag)

/-! ## Digits as they are written -/

def isLowerHexDigit (c : UInt8) : Bool := isDigit c || (97 ≤ c && c ≤ 102)

/-- Groups of two lower-case digits. -/
def LowerHex (s : Bytes) : Prop := s.length % 2 = 0 ∧ ∀ c ∈ s, isLowerHexDigit c = true

instance (s : Bytes) : Decidable (LowerHex s) := inferInstanceAs (Decidable (_ ∧ _))

theorem exists_hexDigit {c : UInt8} (h : isLowerHexDigit c = true) :
    ∃ n : Fin 16, c = hexDigit n.val :=
  forall_byte (p := fun c => isLowerHexDigit c = true → ∃ n : Fin 16, c = hexDigit n.val)
    (by decide +kernel) c h

theorem isLowerHexDigit_hexDigit (n : Fin 16) : isLowerHexDigit (hexDigit n.val) = true := by
  revert n
  decide

theorem lowerHex_toHex (s : Bytes) : LowerHex (toHex s) := by
  refine ⟨by rw [length_toHex]; omega, ?_⟩
  induction s with
  | nil => exact fun c h => absurd h List.not_mem_nil
  | cons b s ih =>
      have hb := b.toNat_lt
      rw [toHex]
      intro c hc
      rcases List.mem_cons.1 hc with rfl | hc
      · exact isLowerHexDigit_hexDigit ⟨b.toNat / 16, by omega⟩
      · rcases List.mem_cons.1 hc with rfl | hc
        · exact isLowerHexDigit_hexDigit ⟨b.toNat % 16, by omega⟩
        · exact ih c hc

/-- What is written in lower-case groups is what the writer writes. -/
theorem exists_toHex : ∀ {s : Bytes}, LowerHex s → ∃ b, s = toHex b
  | [], _ => ⟨[], rfl⟩
  | [_], h => absurd h.1 (by simp)
  | c :: d :: s, h => by
      have hrest : LowerHex s := by
        refine ⟨?_, fun x hx => h.2 x (List.mem_cons_of_mem _ (List.mem_cons_of_mem _ hx))⟩
        have hlen := h.1
        simp only [List.length_cons] at hlen
        omega
      obtain ⟨b, rfl⟩ := exists_toHex hrest
      obtain ⟨m, rfl⟩ := exists_hexDigit (h.2 c List.mem_cons_self)
      obtain ⟨n, rfl⟩ := exists_hexDigit (h.2 d (List.mem_cons_of_mem _ List.mem_cons_self))
      refine ⟨UInt8.ofNat (16 * m.val + n.val) :: b, ?_⟩
      have hbyte : (UInt8.ofNat (16 * m.val + n.val)).toNat = 16 * m.val + n.val := by
        rw [UInt8.toNat_ofNat']
        omega
      have hhigh : (16 * m.val + n.val) / 16 = m.val := by omega
      have hlow : (16 * m.val + n.val) % 16 = n.val := by omega
      rw [toHex, hbyte, hhigh, hlow]

/-! ## Envelopes -/

/-- The prefix and three groups of digits with colons between them, written as the writer
writes; the ciphertext has as many bytes as fit an `int`. -/
def Envelope (stored : Bytes) : Prop :=
  ∃ ivHex ctHex tagHex, stored = kPrefix ++ (ivHex ++ 58 :: (ctHex ++ 58 :: tagHex)) ∧
    LowerHex ivHex ∧ LowerHex ctHex ∧ LowerHex tagHex ∧ ctHex.length < 2 ^ 32

theorem envelope_iff_tokenText {stored : Bytes} :
    Envelope stored ↔ ∃ iv ct tag, stored = tokenText iv ct tag ∧ ct.length < 2 ^ 31 := by
  constructor
  · rintro ⟨ivHex, ctHex, tagHex, rfl, hiv, hct, htag, hlt⟩
    obtain ⟨iv, rfl⟩ := exists_toHex hiv
    obtain ⟨ct, rfl⟩ := exists_toHex hct
    obtain ⟨tag, rfl⟩ := exists_toHex htag
    rw [length_toHex] at hlt
    exact ⟨iv, ct, tag, rfl, by omega⟩
  · rintro ⟨iv, ct, tag, rfl, hlt⟩
    refine ⟨toHex iv, toHex ct, toHex tag, rfl, lowerHex_toHex iv, lowerHex_toHex ct,
      lowerHex_toHex tag, ?_⟩
    rw [length_toHex]
    omega

section

variable {evp : Evp} {secret saltHex : Bytes}

/-- Encryption can produce the text under the salt. -/
def Producible (evp : Evp) (secret saltHex stored : Bytes) : Prop :=
  ∃ plaintext draw, plaintext ≠ [] ∧ encryptToken evp secret draw plaintext saltHex = stored

/-- What an accepted token consists of. -/
theorem decryptToken_tokenText_some {iv ct tag p : Bytes}
    (h : decryptToken evp secret (tokenText iv ct tag) saltHex = some p) :
    iv.length = 12 ∧ ct ≠ [] ∧ fromHex saltHex ≠ [] ∧
      ∃ key, evp.deriveKey secret (fromHex saltHex) = some key ∧
        (intSized ct).bind (fun ct => evp.decrypt key iv ct tag) = some p := by
  have hhex : ∀ s, (58 : UInt8) ∉ toHex s := fun s h => (of_mem_toHex h).1 rfl
  have hprefix : kPrefix <+: tokenText iv ct tag := List.prefix_append _ _
  rw [decryptToken, if_neg (tokenText_ne_nil _ _ _), if_neg (not_not.2 hprefix)] at h
  simp only [tokenText, List.drop_left, cut_append (hhex _), fromHex_toHex] at h
  split at h
  · cases h
  · next hparts =>
      split at h
      · cases h
      · next hsalt =>
          rw [not_or, not_or, not_not] at hparts
          refine ⟨hparts.1, hparts.2.2, hsalt, ?_⟩
          cases hkey : evp.deriveKey secret (fromHex saltHex) with
          | none =>
              rw [hkey] at h
              cases h
          | some key =>
              rw [hkey] at h
              exact ⟨key, rfl, h⟩

theorem producible_of_envelope (hevp : evp.Lawful) (hauth : evp.Authentic) {stored : Bytes}
    (haccepted : (decryptToken evp secret stored saltHex).isSome) (h : Envelope stored) :
    Producible evp secret saltHex stored := by
  obtain ⟨iv, ct, tag, rfl, hlt⟩ := envelope_iff_tokenText.1 h
  obtain ⟨p, hp⟩ := Option.isSome_iff_exists.1 haccepted
  obtain ⟨hiv, hct, hsalt, key, hkey, hdec⟩ := decryptToken_tokenText_some hp
  rw [intSized_eq_self hlt, Option.bind_some] at hdec
  have henc := hauth hdec
  have hlength := hevp.length_ciphertext henc
  have hne : p ≠ [] := by
    rintro rfl
    exact hct (List.length_eq_zero_iff.1 hlength)
  refine ⟨p, some ⟨iv, hiv⟩, hne, ?_⟩
  simp only [encryptToken, if_neg hne, if_neg hsalt, hkey, intSized_eq_self (hlength ▸ hlt),
    Option.bind_some, henc]

theorem envelope_of_producible (hevp : evp.Lawful) {stored : Bytes} (hstored : stored ≠ [])
    (h : Producible evp secret saltHex stored) : Envelope stored := by
  obtain ⟨plaintext, draw, hne, rfl⟩ := h
  by_cases henc : Encryptable evp secret draw plaintext saltHex
  · obtain ⟨key, iv, p, ct, tag, -, -, hp, hcipher, heq⟩ := encryptToken_eq hne henc
    have hlength := hevp.length_ciphertext hcipher
    rw [heq]
    exact envelope_iff_tokenText.2 ⟨iv, ct, tag, rfl, hlength ▸ length_of_intSized hp⟩
  · exact absurd (encryptToken_eq_nil henc) hstored

/-- A token that was encrypted is read back exactly when its length is an `int`; a text
with the prefix that decryption accepts is one that encryption can produce exactly when it
is written as an envelope. -/
theorem tokenEnvelope_iff (hevp : evp.Lawful) (hauth : evp.Authentic) :
    (∀ plaintext draw, plaintext ≠ [] →
      encryptToken evp secret draw plaintext saltHex ≠ [] →
        (decryptToken evp secret (encryptToken evp secret draw plaintext saltHex) saltHex =
          some plaintext ↔ plaintext.length < 2 ^ 31)) ∧
      ∀ stored, kPrefix <+: stored → (decryptToken evp secret stored saltHex).isSome →
        (Producible evp secret saltHex stored ↔ Envelope stored) := by
  constructor
  · intro plaintext draw hne hresult
    have henc : Encryptable evp secret draw plaintext saltHex := by
      by_contra hno
      exact hresult (encryptToken_eq_nil hno)
    rw [decrypt_encrypt_iff hevp hne]
    exact and_iff_right henc
  · intro stored hprefix haccepted
    have hstored : stored ≠ [] := by
      rintro rfl
      exact absurd hprefix (by decide)
    exact ⟨envelope_of_producible hevp hstored, producible_of_envelope hevp hauth haccepted⟩

end

/-! ## A token in capitals -/

/-- The sample token as it is stored. -/
def sampleStored : Bytes :=
  bytes "enc:v1:000102030405060708090a0b:9af11836d9b91940a2:5d973f6744d6f3c7a1cb75f713cd488b"

/-- The same with one digit as a capital. -/
def sampleAltered : Bytes :=
  bytes "enc:v1:000102030405060708090a0b:9Af11836d9b91940a2:5d973f6744d6f3c7a1cb75f713cd488b"

theorem sampleEvp_authentic : sampleEvp.Authentic := by
  intro key iv ct tag p h
  simp only [sampleEvp] at h ⊢
  split at h
  · next hpoint =>
      cases h
      rw [if_pos ⟨hpoint.1, hpoint.2.1, rfl⟩, hpoint.2.2.1, hpoint.2.2.2]
  · cases h

theorem tokenEnvelope_iff_sample :
    Producible sampleEvp (bytes "nazg-default-key-fallback") (toHex sampleSalt) sampleStored ↔
      Envelope sampleStored :=
  (tokenEnvelope_iff sampleEvp_lawful sampleEvp_authentic).2 sampleStored (by decide +kernel)
    (by decide +kernel)

/-- The altered text is accepted, though encryption produces no such text. -/
theorem altered_accepted :
    decryptToken sampleEvp (bytes "nazg-default-key-fallback") sampleAltered
        (toHex sampleSalt) = some sampleToken ∧
      ¬ Producible sampleEvp (bytes "nazg-default-key-fallback") (toHex sampleSalt)
        sampleAltered := by
  refine ⟨by decide +kernel, fun h => ?_⟩
  obtain ⟨iv, ct, tag, heq, -⟩ :=
    envelope_iff_tokenText.1 (envelope_of_producible sampleEvp_lawful (by decide) h)
  have hcapital : (65 : UInt8) ∈ tokenText iv ct tag := by
    rw [← heq]
    decide
  have hhex : ∀ s : Bytes, (65 : UInt8) ∉ toHex s := fun s h =>
    absurd ((lowerHex_toHex s).2 65 h) (by decide)
  simp only [tokenText, List.mem_append, List.mem_cons] at hcapital
  rcases hcapital with h | h | h | h | h | h
  · exact absurd h (by decide)
  · exact hhex iv h
  · exact absurd h (by decide)
  · exact hhex ct h
  · exact absurd h (by decide)
  · exact hhex tag h

end Nazg.Nexus
