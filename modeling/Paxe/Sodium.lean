import Paxe.Lib.Aead

/-!
# The libsodium boundary (`src/sodium.rs`)

The functions of libsodium are a parameter: `Libsodium` gives what each call
reports, and `Contract` and `Exact` state the documented behaviour that the
rest relies on. The wrappers `aeadEncrypt` and `aeadDecrypt` are the source's,
with the caller's buffer passed through and every call appended to a trace.
-/

namespace Paxe
open Wire

/-! ## Sizes and fixed-size types -/

def keyBytes : Nat := 32
def npubBytes : Nat := 12
def aBytes : Nat := 16

abbrev Key := Fixed keyBytes
abbrev Nonce := Fixed npubBytes
abbrev Tag := Fixed aBytes

abbrev Trace := Aead.Trace Key Nonce

inductive SodiumError where
  | initFailed
  | abiMismatch (what : String) (ours theirs : Nat)
  | aesGcmUnavailable
  | authFailed
  | invalidLength
  | allocFailed
  | mlockFailed
  | munlockFailed
  | internal
  deriving DecidableEq, Repr

def SodiumError.display : SodiumError → String
  | .initFailed => "sodium_init failed"
  | .abiMismatch what ours theirs =>
    "libsodium ABI mismatch on " ++ what ++ ": crate constant " ++ toString ours ++
      ", linked library reports " ++ toString theirs
  | .aesGcmUnavailable =>
    "AES-256-GCM unavailable: this libsodium build or CPU has no hardware crypto path. " ++
      "Some distro builds ship without it (e.g. Debian trixie arm64, Ubuntu 24.04 arm64); " ++
      "use a libsodium with the ARM crypto extensions (>= 1.0.20) or the self-contained build of this crate"
  | .authFailed => "authentication failed"
  | .invalidLength => "invalid buffer length"
  | .allocFailed => "guarded allocation failed"
  | .mlockFailed => "sodium_mlock failed"
  | .munlockFailed => "sodium_munlock failed"
  | .internal => "impossible libsodium result"

/-! ## The library -/

/-- What `crypto_aead_aes256gcm_encrypt` reports: its return code, `*clen_p`,
and the bytes it stored at `c`. -/
structure EncryptRet where
  rc : Int
  clen : Nat
  c : Bytes

/-- What `crypto_aead_aes256gcm_decrypt` reports: its return code, `*mlen_p`,
and the bytes it stored at `m`, which mean nothing unless `rc` is 0. -/
structure DecryptRet where
  rc : Int
  mlen : Nat
  m : Bytes

/-- `randombytes i n` is what the CSPRNG answers to a request for `n` bytes
made as the `i`-th libsodium call. -/
structure Libsodium where
  encrypt : Key → Nonce → Bytes → Bytes → EncryptRet
  decrypt : Key → Nonce → Bytes → Bytes → DecryptRet
  randombytes : Nat → (n : Nat) → Fixed n

namespace Libsodium

def enc (L : Libsodium) (k : Key) (n : Nonce) (aad p : Bytes) : Bytes := (L.encrypt k n aad p).c

def dec (L : Libsodium) (k : Key) (n : Nonce) (aad c : Bytes) : Option Bytes :=
  if (L.decrypt k n aad c).rc = 0 then some (L.decrypt k n aad c).m else none

/-- The contract comments of the extern block: encryption never fails and
stores plaintext length plus a tag; decryption is called with at least a tag,
stores nothing past the plaintext, and reports its length when it verifies. -/
structure Contract (L : Libsodium) : Prop where
  encrypt_rc : ∀ k n aad p, (L.encrypt k n aad p).rc = 0
  encrypt_clen : ∀ k n aad p, (L.encrypt k n aad p).clen = p.length + aBytes
  encrypt_c : ∀ k n aad p, (L.encrypt k n aad p).c.length = p.length + aBytes
  decrypt_m : ∀ k n aad c, aBytes ≤ c.length → (L.decrypt k n aad c).m.length ≤ c.length - aBytes
  decrypt_ok : ∀ k n aad c, aBytes ≤ c.length → (L.decrypt k n aad c).rc = 0 →
    (L.decrypt k n aad c).mlen = c.length - aBytes ∧ (L.decrypt k n aad c).m.length = c.length - aBytes

structure Correct (L : Libsodium) : Prop extends Contract L where
  dec_enc : ∀ k n aad p, L.dec k n aad (L.enc k n aad p) = some p

structure Exact (L : Libsodium) : Prop extends Contract L where
  dec_iff : ∀ k n aad c p, aBytes ≤ c.length → (L.dec k n aad c = some p ↔ L.enc k n aad p = c)

end Libsodium

/-! ## The wrappers -/

/-- `usize::MAX` on the 64-bit targets. -/
def usizeMax : Nat := 2 ^ 64 - 1

def checkedAdd (a b : Nat) : Option Nat := if a + b ≤ usizeMax then some (a + b) else none

def checkedSub (a b : Nat) : Option Nat := if b ≤ a then some (a - b) else none

structure AeadRet where
  result : Res SodiumError Nat
  out : Bytes
  trace : Trace

def aeadEncrypt (L : Libsodium) (key : Key) (nonce : Nonce) (aad plaintext out : Bytes) (t : Trace) :
    AeadRet :=
  match checkedAdd plaintext.length aBytes with
  | none => ⟨.err .invalidLength, out, t⟩
  | some needed =>
    if out.length < needed then ⟨.err .invalidLength, out, t⟩
    else
      let r := L.encrypt key nonce aad plaintext
      let out := overwrite out r.c
      let t := t ++ [.encrypt ⟨key, nonce, aad, plaintext, r.c⟩]
      if r.rc ≠ 0 ∨ r.clen ≠ needed then ⟨.err .internal, out, t⟩ else ⟨.ok needed, out, t⟩

def aeadDecrypt (L : Libsodium) (key : Key) (nonce : Nonce) (aad ciphertext out : Bytes) (t : Trace) :
    AeadRet :=
  match checkedSub ciphertext.length aBytes with
  | none => ⟨.err .invalidLength, out, t⟩
  | some plen =>
    if out.length < plen then ⟨.err .invalidLength, out, t⟩
    else
      let r := L.decrypt key nonce aad ciphertext
      let out := overwrite out r.m
      let t := t ++ [.decrypt ⟨key, nonce, aad, ciphertext, r.rc == 0⟩]
      if r.rc ≠ 0 then
        -- `memzero(&mut out[..plen])`
        match slice out 0 plen with
        | none => ⟨.panic, out, t⟩
        | some _ => ⟨.err .authFailed, overwrite out (List.replicate plen 0), t⟩
      else if r.mlen ≠ plen then ⟨.err .internal, out, t⟩
      else ⟨.ok plen, out, t⟩

def randomKey (L : Libsodium) (t : Trace) : Key × Trace :=
  let k := L.randombytes t.length keyBytes
  (k, t ++ [.drawKey k])

def randomNonce (L : Libsodium) (t : Trace) : Nonce × Trace :=
  let n := L.randombytes t.length npubBytes
  (n, t ++ [.drawNonce n])

theorem aeadDecrypt_out_length (L : Libsodium) (k : Key) (n : Nonce) (aad c out : Bytes) (t : Trace) :
    (aeadDecrypt L k n aad c out t).out.length = out.length := by
  unfold aeadDecrypt
  split
  · rfl
  · split
    · rfl
    · dsimp only
      split
      · split
        · exact overwrite_length _ _
        · rw [overwrite_length, overwrite_length]
      · split <;> exact overwrite_length _ _

theorem aeadDecrypt_ne_panic (L : Libsodium) (k : Key) (n : Nonce) (aad c out : Bytes) (t : Trace) :
    (aeadDecrypt L k n aad c out t).result ≠ .panic := by
  unfold aeadDecrypt
  split
  · simp
  · split
    · simp
    · rename_i hlen
      dsimp only
      split
      · rw [slice_eq_some (Nat.zero_le _) (by rw [overwrite_length]; exact Nat.not_lt.mp hlen)]
        simp
      · split <;> simp

theorem aeadDecrypt_trace (L : Libsodium) (k : Key) (n : Nonce) (aad c out : Bytes) (t : Trace) :
    aeadDecrypt L k n aad c out t = ⟨(aeadDecrypt L k n aad c out []).result, (aeadDecrypt L k n aad c out []).out,
      t ++ (aeadDecrypt L k n aad c out []).trace⟩ := by
  simp only [aeadDecrypt, List.nil_append]
  cases checkedSub c.length aBytes with
  | none => simp
  | some plen =>
    simp only
    split
    · simp
    · split
      · split <;> rfl
      · split <;> rfl

theorem aeadDecrypt_decs (L : Libsodium) (k : Key) (n : Nonce) (aad c out : Bytes) (t : Trace) :
    ∃ ds : List (Aead.Dec Key Nonce), (aeadDecrypt L k n aad c out t).trace = t ++ ds.map .decrypt := by
  unfold aeadDecrypt
  split
  · exact ⟨[], by simp⟩
  · split
    · exact ⟨[], by simp⟩
    · refine ⟨[⟨k, n, aad, c, (L.decrypt k n aad c).rc == 0⟩], ?_⟩
      dsimp only
      split
      · split <;> rfl
      · split <;> rfl

/-! ## Initialisation and secure memory -/

/-- What the linked library and the host answer while it is being set up. -/
structure SetupRets where
  sodiumInit : Int
  keybytes : Nat
  npubbytes : Nat
  abytes : Nat
  gcmAvailable : Int
  version : String

inductive InitStatus where
  | fresh
  | alreadyInitialised
  deriving DecidableEq, Repr

def sodiumInit (rc : Int) : Except SodiumError InitStatus :=
  if rc = 0 then .ok .fresh else if rc = 1 then .ok .alreadyInitialised else .error .initFailed

def checkSizes (s : SetupRets) : Except SodiumError Unit :=
  if keyBytes ≠ s.keybytes then .error (.abiMismatch "KEYBYTES" keyBytes s.keybytes)
  else if npubBytes ≠ s.npubbytes then .error (.abiMismatch "NPUBBYTES" npubBytes s.npubbytes)
  else if aBytes ≠ s.abytes then .error (.abiMismatch "ABYTES" aBytes s.abytes)
  else .ok ()

def requireAesGcm (s : SetupRets) : Except SodiumError Unit :=
  if s.gcmAvailable = 1 then .ok () else .error .aesGcmUnavailable

/-- Whether the next `sodium_malloc` and the `sodium_mlock` of its region
succeed; both may fail at any time on an OS limit. -/
structure Heap where
  malloc : Bool
  mlock : Bool
  deriving DecidableEq, Repr

/-! ## Specifications of the wrappers -/

theorem checkedSub_eq {a b : Nat} (h : b ≤ a) : checkedSub a b = some (a - b) := if_pos h

theorem checkedSub_le {a b c : Nat} (h : checkedSub a b = some c) : c ≤ a := by
  unfold checkedSub at h
  split at h
  · cases h; exact Nat.sub_le a b
  · cases h

def Libsodium.encStatus (L : Libsodium) (k : Key) (n : Nonce) (aad p : Bytes) : Res SodiumError Nat :=
  if (L.encrypt k n aad p).rc ≠ 0 ∨ (L.encrypt k n aad p).clen ≠ p.length + aBytes then .err .internal
  else .ok (p.length + aBytes)

theorem aeadEncrypt_eq (L : Libsodium) (k : Key) (n : Nonce) (aad p out : Bytes) (t : Trace)
    (hp : p.length + aBytes ≤ usizeMax) (ho : p.length + aBytes ≤ out.length) :
    aeadEncrypt L k n aad p out t =
      ⟨L.encStatus k n aad p, overwrite out (L.enc k n aad p),
        t ++ [.encrypt ⟨k, n, aad, p, L.enc k n aad p⟩]⟩ := by
  simp only [aeadEncrypt, checkedAdd, if_pos hp, if_neg (Nat.not_lt.mpr ho), Libsodium.encStatus]
  split <;> rfl

theorem aeadEncrypt_trace (L : Libsodium) (k : Key) (n : Nonce) (aad p out : Bytes) (t : Trace) :
    (aeadEncrypt L k n aad p out t).trace = t ∨
      ∃ e : Aead.Enc Key Nonce, e.nonce = n ∧ (aeadEncrypt L k n aad p out t).trace = t ++ [.encrypt e] := by
  unfold aeadEncrypt
  split
  · exact Or.inl rfl
  · split
    · exact Or.inl rfl
    · refine Or.inr ⟨⟨k, n, aad, p, L.enc k n aad p⟩, rfl, ?_⟩
      dsimp only
      split <;> rfl

section
variable {L : Libsodium} (hL : L.Contract)
include hL

theorem enc_length (k : Key) (n : Nonce) (aad p : Bytes) : (L.enc k n aad p).length = p.length + aBytes :=
  hL.encrypt_c k n aad p

theorem correct_of_exact (h : L.Exact) : L.Correct where
  toContract := hL
  dec_enc k n aad p := (h.dec_iff k n aad _ p (by rw [enc_length hL]; omega)).mpr rfl

theorem dec_length {k : Key} {n : Nonce} {aad c p : Bytes} (hc : aBytes ≤ c.length)
    (h : L.dec k n aad c = some p) : p.length = c.length - aBytes := by
  unfold Libsodium.dec at h
  split at h
  · rename_i hrc
    simp only [Option.some.injEq] at h
    rw [← h]; exact (hL.decrypt_ok k n aad c hc hrc).2
  · cases h

theorem encStatus_ok (k : Key) (n : Nonce) (aad p : Bytes) : L.encStatus k n aad p = .ok (p.length + aBytes) := by
  simp [Libsodium.encStatus, hL.encrypt_rc, hL.encrypt_clen]

theorem aeadDecrypt_spec (k : Key) (n : Nonce) (aad c out : Bytes) (t : Trace)
    (hc : aBytes ≤ c.length) (ho : c.length - aBytes ≤ out.length) :
    aeadDecrypt L k n aad c out t =
      match L.dec k n aad c with
      | some p => ⟨.ok (c.length - aBytes), p ++ out.drop (c.length - aBytes),
          t ++ [.decrypt ⟨k, n, aad, c, true⟩]⟩
      | none => ⟨.err .authFailed, List.replicate (c.length - aBytes) 0 ++ out.drop (c.length - aBytes),
          t ++ [.decrypt ⟨k, n, aad, c, false⟩]⟩ := by
  have hm := hL.decrypt_m k n aad c hc
  simp only [aeadDecrypt, checkedSub, if_pos hc, if_neg (Nat.not_lt.mpr ho), Libsodium.dec]
  by_cases hrc : (L.decrypt k n aad c).rc = 0
  · obtain ⟨hlen, hml⟩ := hL.decrypt_ok k n aad c hc hrc
    simp only [hrc, ne_eq, not_true_eq_false, if_false, hlen, if_true, beq_self_eq_true]
    rw [overwrite_eq (by omega), hml]
  · have hs : slice (overwrite out (L.decrypt k n aad c).m) 0 (c.length - aBytes) =
        some (((overwrite out (L.decrypt k n aad c).m).drop 0).take (c.length - aBytes - 0)) :=
      slice_eq_some (Nat.zero_le _) (by rw [overwrite_length]; exact ho)
    have hb : ((L.decrypt k n aad c).rc == 0) = false := by simpa using hrc
    simp only [hrc, ne_eq, not_false_eq_true, if_true, hs, if_false, hb]
    have hov : overwrite (overwrite out (L.decrypt k n aad c).m) (List.replicate (c.length - aBytes) 0) =
        List.replicate (c.length - aBytes) 0 ++ out.drop (c.length - aBytes) := by
      rw [overwrite_eq (by rw [overwrite_length, List.length_replicate]; exact ho), List.length_replicate,
        overwrite_eq (by omega), List.drop_append, List.drop_eq_nil_of_le hm, List.nil_append, List.drop_drop]
      congr 2; omega
    rw [hov]

end

end Paxe
