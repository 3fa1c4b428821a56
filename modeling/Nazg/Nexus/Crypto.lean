import Mathlib.Data.List.DropRight
import Nazg.Lib.Hex

/-!
# Encrypted tokens

A token is stored as `enc:v1:` followed by IV, ciphertext and tag in hexadecimal, with
colons between them. The key comes from the secret of the machine and the salt of the
database. Encryption answers every failure with the empty string, which is also what it
makes of the empty token; decryption takes a value without the prefix for a plaintext.

The cipher is that of a library. `Evp` is what is called of it, and `Evp.Lawful` what is
known about AES-256-GCM.
-/

namespace Nazg.Nexus

open Lib

/-- What `RAND_bytes` writes: 12 bytes. -/
abbrev Iv := { iv : Bytes // iv.length = 12 }

/-- The calls of the cryptographic library. -/
structure Evp where
  /-- `PKCS5_PBKDF2_HMAC` on a secret and a salt. -/
  deriveKey : Bytes → Bytes → Option Bytes
  /-- The calls that encrypt: ciphertext and tag. -/
  encrypt : Bytes → Bytes → Bytes → Option (Bytes × Bytes)
  /-- The calls that decrypt and check the tag. -/
  decrypt : Bytes → Bytes → Bytes → Bytes → Option Bytes

/-- GCM: the ciphertext is as long as the plaintext, the tag has 16 bytes, and what was
encrypted decrypts under the same key and IV. -/
structure Evp.Lawful (evp : Evp) : Prop where
  decrypt_encrypt : ∀ {key iv p ct tag}, evp.encrypt key iv p = some (ct, tag) →
    evp.decrypt key iv ct tag = some p
  length_ciphertext : ∀ {key iv p ct tag}, evp.encrypt key iv p = some (ct, tag) →
    ct.length = p.length
  length_tag : ∀ {key iv p ct tag}, evp.encrypt key iv p = some (ct, tag) → tag.length = 16

/-! ## The machine secret -/

/-- Where `get_machine_secret` looks: the environment variable `NAZG_TOKEN_KEY` and the
first line of `/etc/machine-id`. -/
structure Machine where
  tokenKey : Option Bytes := none
  machineId : Option Bytes := none

/-- `id.pop_back()` while the last byte is a line end or a blank. -/
def trimEnd (s : Bytes) : Bytes := s.rdropWhile fun c => c = 10 || c = 13 || c = 32

def Machine.secret (m : Machine) : Bytes :=
  match m.tokenKey with
  | some (c :: key) => c :: key
  | _ =>
      match m.machineId.map trimEnd with
      | some (c :: id) => c :: id
      | _ => bytes "nazg-default-key-fallback"

/-! ## Encryption -/

/-- The part of a buffer that a call with `static_cast<int>(size)` is given: the size loses
all but 32 bits, and what is negative then is refused. -/
def intSized (s : Bytes) : Option Bytes :=
  let n := s.length % 2 ^ 32
  if n < 2 ^ 31 then some (s.take n) else none

def kPrefix : Bytes := bytes "enc:v1:"

/-- `enc:v1:<hex-iv>:<hex-ciphertext>:<hex-tag>`. -/
def tokenText (iv ct tag : Bytes) : Bytes :=
  kPrefix ++ (toHex iv ++ 58 :: (toHex ct ++ 58 :: toHex tag))

/-- `encrypt_token`. `draw` is the IV, if the generator gives one and there is a context
to encrypt in. -/
def encryptToken (evp : Evp) (secret : Bytes) (draw : Option Iv) (plaintext saltHex : Bytes) :
    Bytes :=
  if plaintext = [] then []
  else
    let salt := fromHex saltHex
    if salt = [] then []
    else
      match evp.deriveKey secret salt with
      | none => []
      | some key =>
          match draw with
          | none => []
          | some iv =>
              match (intSized plaintext).bind (evp.encrypt key iv) with
              | none => []
              | some (ct, tag) => tokenText iv ct tag

/-- `decrypt_token`. -/
def decryptToken (evp : Evp) (secret stored saltHex : Bytes) : Option Bytes :=
  if stored = [] then some []
  else if ¬ kPrefix <+: stored then some stored
  else
    match cut 58 (stored.drop kPrefix.length) with
    | none => none
    | some (ivHex, rest) =>
        match cut 58 rest with
        | none => none
        | some (ctHex, tagHex) =>
            let iv := fromHex ivHex
            let ct := fromHex ctHex
            let tag := fromHex tagHex
            if iv.length ≠ 12 ∨ tag.length ≠ 16 ∨ ct = [] then none
            else
              let salt := fromHex saltHex
              if salt = [] then none
              else
                match evp.deriveKey secret salt with
                | none => none
                | some key => (intSized ct).bind fun ct => evp.decrypt key iv ct tag

/-- Encryption has what it needs: a salt, a key from it, an IV, and a cipher that takes
the token. -/
def Encryptable (evp : Evp) (secret : Bytes) (draw : Option Iv) (plaintext saltHex : Bytes) :
    Prop :=
  fromHex saltHex ≠ [] ∧ ∃ key iv sealed, evp.deriveKey secret (fromHex saltHex) = some key ∧
    draw = some iv ∧ (intSized plaintext).bind (evp.encrypt key iv) = some sealed

section

variable {evp : Evp} {secret : Bytes} {draw : Option Iv} {plaintext saltHex : Bytes}

theorem intSized_eq_self {s : Bytes} (h : s.length < 2 ^ 31) : intSized s = some s := by
  have hmod : s.length % 2 ^ 32 = s.length := Nat.mod_eq_of_lt (by omega)
  simp only [intSized, hmod, if_pos h, List.take_length]

/-- A longer buffer is cut short, if it is taken at all. -/
theorem length_of_intSized {s t : Bytes} (h : intSized s = some t) : t.length < 2 ^ 31 := by
  simp only [intSized] at h
  split at h
  · next hlt =>
      cases h
      exact (List.length_take_le _ _).trans_lt hlt
  · cases h

/-- What encryption returns when it has what it needs. -/
theorem encryptToken_eq (hp : plaintext ≠ [])
    (h : Encryptable evp secret draw plaintext saltHex) :
    ∃ key iv p ct tag, evp.deriveKey secret (fromHex saltHex) = some key ∧ draw = some iv ∧
      intSized plaintext = some p ∧ evp.encrypt key iv p = some (ct, tag) ∧
      encryptToken evp secret draw plaintext saltHex = tokenText iv ct tag := by
  obtain ⟨hsalt, key, iv, ⟨ct, tag⟩, hkey, hiv, henc⟩ := h
  obtain ⟨p, hp', henc'⟩ := Option.bind_eq_some_iff.1 henc
  refine ⟨key, iv, p, ct, tag, hkey, hiv, hp', henc', ?_⟩
  simp only [encryptToken, if_neg hp, if_neg hsalt, hkey, hiv, henc]

theorem encryptToken_eq_nil (h : ¬ Encryptable evp secret draw plaintext saltHex) :
    encryptToken evp secret draw plaintext saltHex = [] := by
  rw [encryptToken]
  split
  · rfl
  · next hp =>
      dsimp only
      split
      · rfl
      · next hsalt =>
          split
          · rfl
          · next key hkey =>
              split
              · rfl
              · next iv =>
                  split
                  · rfl
                  · next ct tag henc =>
                      exact absurd ⟨hsalt, key, iv, (ct, tag), hkey, rfl, henc⟩ h

theorem tokenText_ne_nil (iv ct tag : Bytes) : tokenText iv ct tag ≠ [] := by
  rw [tokenText, Ne, List.append_eq_nil_iff]
  exact fun h => absurd h.1 (by decide)

/-- A stored token crosses the interface of the database whole. -/
theorem cstr_encryptToken : cstr (encryptToken evp secret draw plaintext saltHex) =
    encryptToken evp secret draw plaintext saltHex := by
  have hhex : ∀ s, (0 : UInt8) ∉ toHex s := fun s h => (of_mem_toHex h).2 rfl
  have htext : ∀ iv ct tag, (0 : UInt8) ∉ tokenText iv ct tag := by
    intro iv ct tag
    simp only [tokenText, List.mem_append, List.mem_cons, not_or]
    exact ⟨by decide, hhex iv, by decide, hhex ct, by decide, hhex tag⟩
  by_cases hp : plaintext = []
  · rw [encryptToken, if_pos hp]
    rfl
  · by_cases h : Encryptable evp secret draw plaintext saltHex
    · obtain ⟨_, iv, _, ct, tag, _, _, _, _, heq⟩ := encryptToken_eq hp h
      rw [heq]
      exact cstr_eq_self.2 (htext _ _ _)
    · rw [encryptToken_eq_nil h]
      rfl

/-- The parts of a token are read back. -/
theorem decryptToken_tokenText {iv ct tag key : Bytes} (hiv : iv.length = 12)
    (htag : tag.length = 16) (hct : ct ≠ []) (hsalt : fromHex saltHex ≠ [])
    (hkey : evp.deriveKey secret (fromHex saltHex) = some key) :
    decryptToken evp secret (tokenText iv ct tag) saltHex =
      (intSized ct).bind fun ct => evp.decrypt key iv ct tag := by
  have hhex : ∀ s, (58 : UInt8) ∉ toHex s := fun s h => (of_mem_toHex h).1 rfl
  have hprefix : kPrefix <+: tokenText iv ct tag := List.prefix_append _ _
  rw [decryptToken, if_neg (tokenText_ne_nil _ _ _), if_neg (not_not.2 hprefix)]
  simp only [tokenText, List.drop_left, cut_append (hhex _), fromHex_toHex]
  rw [if_neg (by simp [hiv, htag, hct]), if_neg hsalt]
  simp only [hkey]

/-- Whatever the cipher made of a token, decryption with the same salt gives back what the
cipher was given, unless that was nothing. -/
theorem decrypt_encrypt (hevp : evp.Lawful) (hp : plaintext ≠ [])
    (h : Encryptable evp secret draw plaintext saltHex) :
    ∃ p, intSized plaintext = some p ∧
      decryptToken evp secret (encryptToken evp secret draw plaintext saltHex) saltHex =
        if p = [] then none else some p := by
  obtain ⟨key, iv, p, ct, tag, hkey, -, hp', henc, heq⟩ := encryptToken_eq hp h
  refine ⟨p, hp', ?_⟩
  have hlength : ct.length = p.length := hevp.length_ciphertext henc
  rw [heq]
  split
  · next hnil =>
      have hct : ct = [] := List.length_eq_zero_iff.1 (by rw [hlength, hnil]; rfl)
      have hhex : ∀ s, (58 : UInt8) ∉ toHex s := fun s h => (of_mem_toHex h).1 rfl
      have hprefix : kPrefix <+: tokenText iv ct tag := List.prefix_append _ _
      rw [decryptToken, if_neg (tokenText_ne_nil _ _ _), if_neg (not_not.2 hprefix)]
      simp only [tokenText, List.drop_left, cut_append (hhex _), fromHex_toHex]
      rw [if_pos (Or.inr (Or.inr hct))]
  · next hne =>
      have hct : ct ≠ [] := by
        rintro rfl
        exact hne (List.length_eq_zero_iff.1 hlength.symm)
      rw [decryptToken_tokenText iv.2 (hevp.length_tag henc) hct h.1 hkey,
        intSized_eq_self (by rw [hlength]; exact length_of_intSized hp'), Option.bind_some,
        hevp.decrypt_encrypt henc]

/-- A token that is encrypted at all is read back if its length is an `int`, and is lost
otherwise. -/
theorem decrypt_encrypt_iff (hevp : evp.Lawful) (hp : plaintext ≠ []) :
    decryptToken evp secret (encryptToken evp secret draw plaintext saltHex) saltHex =
        some plaintext ↔
      Encryptable evp secret draw plaintext saltHex ∧ plaintext.length < 2 ^ 31 := by
  constructor
  · intro heq
    by_cases h : Encryptable evp secret draw plaintext saltHex
    · refine ⟨h, ?_⟩
      obtain ⟨p, hp', hdec⟩ := decrypt_encrypt hevp hp h
      rw [hdec] at heq
      split at heq
      · cases heq
      · cases heq
        exact length_of_intSized hp'
    · rw [encryptToken_eq_nil h, decryptToken, if_pos rfl] at heq
      exact absurd (Option.some.inj heq).symm hp
  · rintro ⟨h, hlt⟩
    obtain ⟨p, hp', hdec⟩ := decrypt_encrypt hevp hp h
    rw [intSized_eq_self hlt] at hp'
    cases hp'
    rw [hdec, if_neg hp]

end

/-! ## The library on one token -/

def sampleSalt : Bytes := [1, 2, 3, 4, 5, 6, 7, 8, 9, 10, 11, 12, 13, 14, 15, 16]

def sampleKey : Bytes :=
  [131, 219, 106, 156, 152, 136, 245, 24, 155, 150, 3, 160, 83, 174, 157, 202, 52, 123, 239, 80,
    149, 232, 135, 63, 48, 43, 76, 250, 254, 220, 172, 130]

/-- The key for a salt of zeros. -/
def zeroSaltKey : Bytes :=
  [250, 110, 192, 71, 71, 172, 143, 26, 175, 30, 159, 34, 139, 17, 212, 28, 71, 155, 157, 92,
    51, 189, 191, 136, 164, 58, 170, 88, 180, 90, 81, 96]

/-- The key for another secret. -/
def otherKey : Bytes :=
  [81, 55, 125, 59, 164, 218, 185, 205, 254, 178, 115, 60, 129, 184, 1, 177, 240, 244, 95, 76,
    28, 34, 47, 41, 209, 193, 86, 245, 178, 72, 81, 2]

def sampleIv : Iv := ⟨[0, 1, 2, 3, 4, 5, 6, 7, 8, 9, 10, 11], rfl⟩

def sampleToken : Bytes := bytes "ghp_token"

/-- PBKDF2 for these, and AES-256-GCM for the first key, one IV and one token. -/
def sampleEvp : Evp where
  deriveKey secret salt :=
    if secret = bytes "nazg-default-key-fallback" ∧ salt = sampleSalt then some sampleKey
    else if secret = bytes "nazg-default-key-fallback" ∧ salt = List.replicate 16 0 then
      some zeroSaltKey
    else if secret = bytes "other" ∧ salt = sampleSalt then some otherKey
    else none
  encrypt key iv p :=
    if key = sampleKey ∧ iv = sampleIv.val ∧ p = sampleToken then
      some ([154, 241, 24, 54, 217, 185, 25, 64, 162],
        [93, 151, 63, 103, 68, 214, 243, 199, 161, 203, 117, 247, 19, 205, 72, 139])
    else none
  decrypt key iv ct tag :=
    if key = sampleKey ∧ iv = sampleIv.val ∧ ct = [154, 241, 24, 54, 217, 185, 25, 64, 162] ∧
        tag = [93, 151, 63, 103, 68, 214, 243, 199, 161, 203, 117, 247, 19, 205, 72, 139] then
      some sampleToken
    else none

theorem sampleEvp_lawful : sampleEvp.Lawful := by
  have hencrypt : ∀ {key iv p ct tag : Bytes}, sampleEvp.encrypt key iv p = some (ct, tag) →
      key = sampleKey ∧ iv = sampleIv.val ∧ p = sampleToken ∧
        ct = [154, 241, 24, 54, 217, 185, 25, 64, 162] ∧
        tag = [93, 151, 63, 103, 68, 214, 243, 199, 161, 203, 117, 247, 19, 205, 72, 139] := by
    intro key iv p ct tag h
    simp only [sampleEvp] at h
    split at h
    · next hpoint =>
        cases h
        exact ⟨hpoint.1, hpoint.2.1, hpoint.2.2, rfl, rfl⟩
    · cases h
  refine ⟨fun h => ?_, fun h => ?_, fun h => ?_⟩
  · obtain ⟨rfl, rfl, rfl, rfl, rfl⟩ := hencrypt h
    simp [sampleEvp]
  · obtain ⟨-, -, rfl, rfl, -⟩ := hencrypt h
    decide
  · obtain ⟨-, -, -, -, rfl⟩ := hencrypt h
    rfl

end Nazg.Nexus
