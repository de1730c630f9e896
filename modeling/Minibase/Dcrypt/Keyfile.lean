import Minibase.Crypto.KeyWrap
import Minibase.Crypto.Mem
import Minibase.Lib.CInt
import Minibase.Lib.Outcome
import Minibase.Lib.Records

/-!
# Keyfiles

`keytool.c`, which `dektool`, `deitool` and `dmcrypt` have in common: a keyfile is a salt and a
wrapped keyring, which begins with eight bytes that tell whether the passphrase was right.
Loading a file that is `Dcrypt.Wrapped` gives the keys of its `Dcrypt.Ring`
(`Dcrypt.Wrapped.loadKeyfile`), and `get_key_by_idx` the one with a number
(`Dcrypt.Ring.Sound.getKeyByIdx`), unless its place in the file is no `int`. `scrypt` is any
function of a passphrase and a salt.
-/

namespace Minibase.Dcrypt

open List

/-! ### What the source computes -/

def testpad : List UInt8 := replicate 8 0xA6

/-- `scrypt`: a passphrase and a salt make the key everything is wrapped with. -/
abbrev Scrypt := List UInt8 → List UInt8 → Bytes 16

/-- How a tool comes to a bad end: a message, or memory that is not its own. -/
inductive Stop
  | fail
  | wild
  deriving DecidableEq

/-- `ask`, with what was read from the terminal. -/
def ask (input : List UInt8) (len : ℕ) : Except Stop (List UInt8) :=
  -- "passphrase too long"
  if len ≤ input.length then .error .fail
  else
    let phrase := if input.getLast? = some 10 then input.dropLast else input
    if phrase = [] then .error .fail else .ok phrase

/-- `struct keyfile`, its buffer up to its length. -/
structure Keyfile where
  buf : List UInt8
  kek : Bytes 16

def readKeyfile (f : List UInt8) : Except Stop (List UInt8) := do
  refuse (1024 < f.length) .fail
  refuse (f.length % 32 ≠ 16) .fail
  .ok f

def unwrapKeyfile (scrypt : Scrypt) (buf phrase : List UInt8) : Except Stop Keyfile :=
  let kek := scrypt phrase (buf.take 8)
  let wrapped := aes128Unwrap kek.data (buf.drop 8)
  -- "incorrect passphrase"
  if memcmp (wrapped.take 8) testpad ≠ 0 then .error .fail else .ok ⟨buf.take 8 ++ wrapped, kek⟩

def loadKeyfile (scrypt : Scrypt) (f input : List UInt8) : Except Stop Keyfile := do
  let buf ← readKeyfile f
  let phrase ← ask input 80
  unwrapKeyfile scrypt buf phrase

/-- What `write_keyfile` writes. -/
def writeKeyfile (kf : Keyfile) : List UInt8 :=
  kf.buf.take 8 ++ aes128Wrap kf.kek.data (kf.buf.drop 8)

/-- `get_key_by_idx`, and the bytes found there. -/
def getKeyByIdx (buf : List UInt8) (idx : ℤ) : Except Stop (List UInt8) :=
  if idx ≤ 0 then .error .fail
  else if buf.length < i32 (16 + i32 (32 * idx)) then .error .fail
  else
    let off := 16 + i32 (32 * (idx - 1))
    if 0 ≤ off ∧ off + 32 ≤ buf.length then .ok (pread buf 32 off.toNat) else .error .wild

/-! ### Keyrings -/

/-- **What a keyfile is for**: some keys, and the passphrase that gives them out. -/
structure Ring where
  phrase : List UInt8
  keys : List (List UInt8)

/-- The key with a number, the first being `1`. -/
def Ring.lookup (ring : Ring) : ℕ → Except Stop (List UInt8)
  | 0 => .error .fail
  | i + 1 => if h : i < ring.keys.length then .ok ring.keys[i] else .error .fail

/-- A keyring as it is before it is wrapped. -/
def Ring.plain (ring : Ring) (salt : List UInt8) : List UInt8 :=
  salt ++ (testpad ++ ring.keys.flatten)

/-- A ring that fits in a keyfile, with a passphrase that could be typed. -/
structure Ring.Sound (ring : Ring) : Prop where
  typed : ring.phrase ≠ []
  short : ring.phrase.length < 80
  whole : ∀ k ∈ ring.keys, k.length = 32
  count : ring.keys.length ≤ 31

/-- **The keyfile of a ring.** -/
structure Wrapped (scrypt : Scrypt) (ring : Ring) (salt f : List UInt8) : Prop where
  sound : ring.Sound
  size : salt.length = 8
  file : f = writeKeyfile ⟨ring.plain salt, scrypt ring.phrase salt⟩

section

variable {scrypt : Scrypt} {ring : Ring} {salt f : List UInt8}

lemma Ring.Sound.length_flatten (h : ring.Sound) :
    ring.keys.flatten.length = 32 * ring.keys.length := by
  rw [List.length_flatten, List.map_congr_left h.whole, List.map_const', List.sum_replicate_nat,
    Nat.mul_comm]

lemma length_testpad : testpad.length = 8 := rfl

lemma Ring.Sound.length_body (h : ring.Sound) :
    (testpad ++ ring.keys.flatten).length = 8 * (4 * ring.keys.length + 1) := by
  rw [length_append, h.length_flatten, length_testpad]
  omega

lemma Ring.Sound.length_plain (h : ring.Sound) (hsalt : salt.length = 8) :
    (ring.plain salt).length = 16 + 32 * ring.keys.length := by
  rw [Ring.plain, length_append, h.length_body, hsalt]
  omega

namespace Wrapped

section

variable (h : Wrapped scrypt ring salt f)
include h

lemma file_eq :
    f = salt ++ aes128Wrap (scrypt ring.phrase salt).data (testpad ++ ring.keys.flatten) := by
  rw [h.file, writeKeyfile, Ring.plain, take_left' h.size, drop_left' h.size]

lemma length_file : f.length = 16 + 32 * ring.keys.length := by
  rw [h.file_eq, length_append, length_aes128Wrap h.sound.length_body, h.size]
  omega

lemma readKeyfile : readKeyfile f = .ok f := by
  have hcount := h.sound.count
  have hlen := h.length_file
  rw [Dcrypt.readKeyfile, refuse, if_neg (by omega), refuse, if_neg (by omega)]
  rfl

/-- What unwrapping with the right passphrase gives. -/
theorem unwrapped :
    aes128Unwrap (scrypt ring.phrase (f.take 8)).data (f.drop 8) =
      testpad ++ ring.keys.flatten := by
  rw [h.file_eq, take_left' h.size, drop_left' h.size, aes128Unwrap_aes128Wrap h.sound.length_body]

lemma take_salt : f.take 8 = salt := by
  rw [h.file_eq, take_left' h.size]

/-- **The file of a ring is opened by its passphrase.** -/
theorem unwrapKeyfile :
    unwrapKeyfile scrypt f ring.phrase = .ok ⟨ring.plain salt, scrypt ring.phrase salt⟩ := by
  have htest : memcmp ((testpad ++ ring.keys.flatten).take 8) testpad = 0 := by
    rw [take_left' length_testpad, memcmp_self]
  rw [Dcrypt.unwrapKeyfile, h.unwrapped, htest, if_neg (not_not.mpr rfl), h.take_salt, Ring.plain]

lemma loadKeyfile {input : List UInt8} (hinput : ask input 80 = .ok ring.phrase) :
    loadKeyfile scrypt f input = .ok ⟨ring.plain salt, scrypt ring.phrase salt⟩ := by
  rw [Dcrypt.loadKeyfile, h.readKeyfile, hinput]
  exact h.unwrapKeyfile

end

end Wrapped

/-- A key by its place. -/
theorem Ring.Sound.pread_plain (h : ring.Sound) (hsalt : salt.length = 8) {i : ℕ}
    (hi : i < ring.keys.length) : pread (ring.plain salt) 32 (16 + 32 * i) = ring.keys[i] := by
  have hhead : (salt ++ testpad).length = 16 := by
    rw [length_append, hsalt, length_testpad]
  rw [pread, Ring.plain, ← append_assoc, ← drop_drop, drop_left' hhead]
  exact piece_flatten h.whole hi

/-- **The key with a number** is the one the ring has. -/
theorem Ring.Sound.getKeyByIdx (h : ring.Sound) (hsalt : salt.length = 8) {i : ℕ}
    (hi : i < 67108864) : getKeyByIdx (ring.plain salt) i = ring.lookup i := by
  have hcount := h.count
  have hbyte : i32 (32 * (i : ℤ)) = 32 * i := i32_of_range (by omega) (by omega)
  have hend : i32 (16 + 32 * (i : ℤ)) = 16 + 32 * i := i32_of_range (by omega) (by omega)
  rw [Dcrypt.getKeyByIdx, h.length_plain hsalt, hbyte, hend]
  cases i with
  | zero => rfl
  | succ i =>
    rw [if_neg (by omega), Ring.lookup]
    by_cases hlt : i < ring.keys.length
    · have hbefore : i32 (32 * (((i + 1 : ℕ) : ℤ) - 1)) = 32 * i := by
        rw [i32_of_range (by omega) (by omega)]
        omega
      rw [if_neg (by omega), dif_pos hlt, hbefore, if_pos ⟨by omega, by omega⟩]
      have hoff : (16 + 32 * (i : ℤ)).toNat = 16 + 32 * i := by omega
      rw [hoff, h.pread_plain hsalt hlt]
    · rw [if_pos (by omega), dif_neg hlt]

end

end Minibase.Dcrypt
