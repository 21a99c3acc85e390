import Paxe.Lib.Etm
import Paxe.Sodium

/-!
# AES-256-GCM

The cipher behind `crypto_aead_aes256gcm_*`, as a `Libsodium` whose CSPRNG is
left open. It meets `Exact`, so what is proved from that contract is about a
library that exists.
-/

namespace Paxe
open Wire

namespace Aes

/-! ## The block cipher -/

def xtime (x : UInt8) : UInt8 := (x <<< 1) ^^^ (if x &&& 0x80 = 0 then 0 else 0x1b)

def mul (x y : UInt8) : UInt8 :=
  ((List.range 8).foldl (fun (acc, x) i => (if (y >>> UInt8.ofNat i) &&& 1 = 0 then acc else acc ^^^ x, xtime x))
    (0, x)).1

def inv (x : UInt8) : UInt8 :=
  ((List.range 7).foldl (fun (acc, s) _ => (mul acc (mul s s), mul s s)) (1, x)).1

def rotl (x : UInt8) (n : UInt8) : UInt8 := (x <<< n) ||| (x >>> (8 - n))

def sbox (x : UInt8) : UInt8 :=
  let b := inv x
  b ^^^ rotl b 1 ^^^ rotl b 2 ^^^ rotl b 3 ^^^ rotl b 4 ^^^ 0x63

def xor (a b : Bytes) : Bytes := a.zipWith (· ^^^ ·) b

def expandKey (k : Key) : List Bytes :=
  let first := (List.range 8).map fun i => (k.val.drop (4 * i)).take 4
  ((List.range 52).foldl (fun (ws, rcon) j =>
    let i := j + 8
    let prev := ws.getD (i - 1) []
    let mixed :=
      if i % 8 = 0 then xor ((prev.rotateLeft 1).map sbox) [rcon, 0, 0, 0]
      else if i % 8 = 4 then prev.map sbox
      else prev
    (ws ++ [xor (ws.getD (i - 8) []) mixed], if i % 8 = 0 then xtime rcon else rcon)) (first, 1)).1

def shiftRows (s : Bytes) : Bytes := (List.range 16).map fun i => s.getD ((i + 4 * (i % 4)) % 16) 0

def mixColumns (s : Bytes) : Bytes :=
  (List.range 16).map fun i =>
    let cell := fun r => s.getD (4 * (i / 4) + (i + r) % 4) 0
    mul 2 (cell 0) ^^^ mul 3 (cell 1) ^^^ cell 2 ^^^ cell 3

def encryptBlock (k : Key) (block : Bytes) : Bytes :=
  let ws := expandKey k
  let roundKey := fun r => (ws.drop (4 * r)).take 4 |>.flatten
  let s := (List.range 13).foldl (fun s r => xor (mixColumns (shiftRows (s.map sbox))) (roundKey (r + 1)))
    (xor block (roundKey 0))
  xor (shiftRows (s.map sbox)) (roundKey 14)

end Aes

namespace Gcm

/-! ## The mode -/

/-- Multiplication in GF(2^128), bits in GCM's order. -/
def mul (x y : BitVec 128) : BitVec 128 :=
  ((List.range 128).foldl (fun (z, v) i =>
    (if x.getMsbD i then z ^^^ v else z,
      if v.getLsbD 0 then (v >>> 1) ^^^ (0xe1 <<< 120) else v >>> 1)) (0, y)).1

def pad16 (b : Bytes) : Bytes := b ++ List.replicate ((16 - b.length % 16) % 16) 0

def ghash (h : BitVec 128) (b : Bytes) : BitVec 128 :=
  (List.range (b.length / 16)).foldl
    (fun y i => mul (y ^^^ BitVec.ofNat 128 (beDecode ((b.drop (16 * i)).take 16))) h) 0

def keystream (k : Key) (n : Nonce) (i : Nat) : UInt8 :=
  (Aes.encryptBlock k (n.val ++ beEncode 4 (2 + i / 16))).getD (i % 16) 0

def tag (k : Key) (n : Nonce) (aad c : Bytes) : Tag :=
  let h := BitVec.ofNat 128 (beDecode (Aes.encryptBlock k (List.replicate 16 0)))
  let lens := beEncode 8 (8 * aad.length) ++ beEncode 8 (8 * c.length)
  let s := ghash h (pad16 aad ++ pad16 c ++ lens)
  ⟨beEncode 16 (s ^^^ BitVec.ofNat 128 (beDecode (Aes.encryptBlock k (n.val ++ beEncode 4 1)))).toNat,
    beEncode_length _ _⟩

def encrypt (k : Key) (n : Nonce) (aad p : Bytes) : Bytes := Etm.sealed (keystream k n) (tag k n aad) p

def decrypt (k : Key) (n : Nonce) (aad c : Bytes) : Option Bytes := Etm.opened (keystream k n) (tag k n aad) c

end Gcm

/-! ## As a library -/

/-- libsodium with the given CSPRNG answers. -/
def aesGcm (randombytes : Nat → (n : Nat) → Fixed n) : Libsodium where
  encrypt k n aad p := ⟨0, p.length + aBytes, Gcm.encrypt k n aad p⟩
  decrypt k n aad c :=
    match Gcm.decrypt k n aad c with
    | some m => ⟨0, c.length - aBytes, m⟩
    | none => ⟨-1, 0, []⟩
  randombytes := randombytes

theorem aesGcm_dec (rand : Nat → (n : Nat) → Fixed n) (k : Key) (n : Nonce) (aad c : Bytes) :
    (aesGcm rand).dec k n aad c = Gcm.decrypt k n aad c := by
  cases h : Gcm.decrypt k n aad c with
  | none => simp [Libsodium.dec, aesGcm, h]
  | some m => simp [Libsodium.dec, aesGcm, h]

theorem aesGcm_contract (rand : Nat → (n : Nat) → Fixed n) : (aesGcm rand).Contract where
  encrypt_rc _ _ _ _ := rfl
  encrypt_clen _ _ _ _ := rfl
  encrypt_c _ _ _ _ := Etm.sealed_length _ _ _
  decrypt_m k n aad c _ := by
    cases h : Gcm.decrypt k n aad c with
    | none => simp [aesGcm, h]
    | some m => simp [aesGcm, h, Etm.opened_length _ _ h]
  decrypt_ok k n aad c _ hrc := by
    cases h : Gcm.decrypt k n aad c with
    | none => simp [aesGcm, h] at hrc
    | some m => simp [aesGcm, h, Etm.opened_length _ _ h]

theorem aesGcm_exact (rand : Nat → (n : Nat) → Fixed n) : (aesGcm rand).Exact where
  toContract := aesGcm_contract rand
  dec_iff k n aad c p hc := by
    rw [aesGcm_dec]
    exact Etm.opened_iff _ _ hc

/-- A CSPRNG that counts, so that its answers of one width are distinct. -/
def counterBytes (i n : Nat) : Fixed n := ⟨beEncode n i, beEncode_length n i⟩

end Paxe
