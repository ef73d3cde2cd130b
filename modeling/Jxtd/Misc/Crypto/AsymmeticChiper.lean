import Jxtd.Lib.Bytes
import Jxtd.Lib.CInt
import Mathlib.Algebra.BigOperators.Group.Finset.Basic

/-!
# The asymmetric cipher

`AsymmeticChiper` and `RSA_Chiper` of `misc/crypto`, with keys of 512 bits. A text is cut into blocks
of 53 bytes, each of which becomes 64 bytes; the output goes to a buffer of 1024 bytes.

* `Rsa`: the block operations; `Fault`: how a loop leaves its bounds.
* `encryptLoop`, `decryptLoop`: the loops; `RSAChiper.encrypt`, `RSAChiper.decrypt`: the class.
* `encryptLoop_isOk_iff`, `decryptLoop_isOk_iff`: when the loops stay in bounds.
* **`loops_inBounds_iff`**: for which block operations and which texts the four functions do.
-/

namespace Jxtd.Misc.Crypto

open Lib

/-- `RSA_size(rsa)` -/
def rsaSize : ℕ := 64

/-- `RSA_PKCS1_PADDING_SIZE` -/
def paddingSize : ℕ := 11

/-- The bytes of a text that one block takes. -/
def blocksize : ℕ := rsaSize - paddingSize

/-- The block operations: what a call makes of the bytes that it reads, none for -1. The result of
an encryption has the size of the key, that of a decryption leaves room for the padding. A private
decryption looks at its padding unless it fails before. -/
structure Rsa where
  privateEncrypt : ℕ → Str → Option Str
  publicEncrypt : ℕ → Str → Option Str
  publicDecrypt : ℕ → Str → Option Str
  privateDecrypt : ℕ → Str → Option Str
  checksPadding : ℕ → Str → Bool
  length_privateEncrypt : ∀ k b, ∀ c ∈ privateEncrypt k b, c.length = rsaSize
  length_publicEncrypt : ∀ k b, ∀ c ∈ publicEncrypt k b, c.length = rsaSize
  length_publicDecrypt : ∀ k c, ∀ b ∈ publicDecrypt k c, b.length ≤ blocksize
  length_privateDecrypt : ∀ k c, ∀ b ∈ privateDecrypt k c, b.length ≤ blocksize
  checksPadding_of_mem : ∀ k c, ∀ _b ∈ privateDecrypt k c, checksPadding k c = true

/-- What a private decryption stores: `RSA_padding_check_PKCS1_type_2` goes over all bytes that a
block can have, whatever it finds, and writes back those that are no result. -/
def Rsa.stored (rsa : Rsa) (k : ℕ) (c : Str) : ℕ := if rsa.checksPadding k c then blocksize else 0

/-- A read outside the input, a write outside the buffer, a negative length, an `int` that
overflows. -/
inductive Fault
  | read
  | write
  | length
  | overflow
  deriving DecidableEq

/-- `unsigned char outdata[1024]` -/
abbrev Outdata := {b : Str // b.length = 1024}

/-- A buffer of zeros. -/
def zeros : Outdata := ⟨List.replicate 1024 0, List.length_replicate⟩

/-- The bytes are written at an offset; `stored` bytes there are written at least, those behind with
what they hold. -/
def store (outdata : Outdata) (off : ℤ) (bytes : Str) (stored : ℕ) : Except Fault Outdata :=
  if bytes = [] ∧ stored = 0 then .ok outdata
  else if h : 0 ≤ off ∧ off + max bytes.length stored ≤ 1024 then
    .ok ⟨outdata.1.take off.toNat ++ bytes ++ outdata.1.drop (off.toNat + bytes.length), by
      have hlen := outdata.2
      simp only [List.length_append, List.length_take, List.length_drop]
      omega⟩
  else .error .write

/-- `std::string res((char*)outdata, size)` -/
def contents (outdata : Outdata) (size : ℤ) : Except Fault Str :=
  if size < 0 then .error .length else .ok (outdata.1.take size.toNat)

/-- The loop of an encryption, from the position `i` on. -/
def encryptLoop (op : ℕ → Str → Option Str) (data : Str) (i : ℕ) (outdata : Outdata)
    (outsize : ℤ) : Except Fault Str :=
  if i < data.length then
    let datasize := toInt data.length
    let ensize := if datasize - i < blocksize then datasize - i else blocksize
    let outoff := i + paddingSize * (i / blocksize)
    if ensize < 0 ∨ data.length < i + ensize then .error .read
    else
      match op (i / blocksize) ((data.drop i).take ensize.toNat) with
      | none => .ok []
      | some c => (store outdata outoff c rsaSize).bind fun outdata =>
        encryptLoop op data (i + blocksize) outdata (outoff + rsaSize)
  else contents outdata outsize
termination_by data.length - i
decreasing_by
  simp only [blocksize, rsaSize, paddingSize]
  omega

/-- The loop of a decryption, from the position `i` on; the result of a call moves the offset. -/
def decryptLoop (op : ℕ → Str → Option Str) (stored : ℕ → Str → ℕ) (data : Str) (i : ℕ)
    (outdata : Outdata) (outoff : ℤ) : Except Fault Str :=
  let datasize := toInt data.length
  if (i : ℤ) < datasize then
    if data.length < i + rsaSize then .error .read
    else
      let block := (data.drop i).take rsaSize
      let p := op (i / rsaSize) block
      let len : ℤ := (p.map fun b => (b.length : ℤ)).getD (-1)
      (store outdata outoff (p.getD []) (stored (i / rsaSize) block)).bind fun outdata =>
        if 2 ^ 31 ≤ i + rsaSize then .error .overflow
        else decryptLoop op stored data (i + rsaSize) outdata (outoff + len)
  else contents outdata outoff
termination_by (toInt data.length).toNat - i
decreasing_by
  simp only [rsaSize]
  omega

/-- `RSA_Chiper`; the functions have their own uninitialised buffer. -/
structure RSAChiper where
  prk : Str
  pbk : Str
  rsa : Rsa

namespace RSAChiper

variable (chiper : RSAChiper) (outdata : Outdata)

/-- `do_encrypt_prvkey` -/
def doEncryptPrvkey (data _prvkey : Str) : Except Fault Str :=
  encryptLoop chiper.rsa.privateEncrypt data 0 outdata 0

/-- `do_encrypt_pubkey` -/
def doEncryptPubkey (data _pubkey : Str) : Except Fault Str :=
  encryptLoop chiper.rsa.publicEncrypt data 0 outdata 0

/-- `do_decrypt_pubkey`; a call copies its result only. -/
def doDecryptPubkey (data _pubkey : Str) : Except Fault Str :=
  decryptLoop chiper.rsa.publicDecrypt (fun _ _ => 0) data 0 outdata 0

/-- `do_decrypt_prvkey` -/
def doDecryptPrvkey (data _prvkey : Str) : Except Fault Str :=
  decryptLoop chiper.rsa.privateDecrypt chiper.rsa.stored data 0 outdata 0

/-- `encrypt`, whose other branch decrypts. -/
def encrypt (text : Str) (cert : Bool) : Except Fault Str :=
  if cert = true then chiper.doEncryptPrvkey outdata text chiper.prk
  else chiper.doDecryptPubkey outdata text chiper.pbk

/-- `decrypt` -/
def decrypt (pass : Str) (reply : Bool) : Except Fault Str :=
  if reply = true then chiper.doDecryptPrvkey outdata pass chiper.prk
  else chiper.doDecryptPubkey outdata pass chiper.pbk

end RSAChiper

/-! ## The buffer -/

variable {op : ℕ → Str → Option Str} {stored : ℕ → Str → ℕ} {data : Str} {outdata : Outdata}

theorem store_of_le (outdata : Outdata) (off : ℕ) (bytes : Str) {n : ℕ}
    (h : off + max bytes.length n ≤ 1024) :
    ∃ outdata', store outdata off bytes n = .ok outdata' ∧
      outdata'.1.take (off + bytes.length) = outdata.1.take off ++ bytes := by
  rw [store]
  by_cases hnil : bytes = [] ∧ n = 0
  · obtain ⟨rfl, rfl⟩ := hnil
    exact ⟨outdata, if_pos ⟨rfl, rfl⟩, by simp⟩
  · rw [if_neg hnil, dif_pos (by omega)]
    refine ⟨_, rfl, ?_⟩
    have htake : (outdata.1.take off ++ bytes).length = off + bytes.length := by
      rw [List.length_append, List.length_take, outdata.2]
      omega
    simp only [Int.toNat_natCast]
    rw [List.take_append_of_le_length htake.ge, ← htake, List.take_length]

theorem store_of_lt {off : ℤ} {bytes : Str} {n : ℕ} (hne : ¬ (bytes = [] ∧ n = 0))
    (h : ¬ (0 ≤ off ∧ off + max bytes.length n ≤ 1024)) :
    store outdata off bytes n = .error .write := by
  rw [store, if_neg hne, dif_neg h]

/-- The call returned without a fault. -/
def InBounds (r : Except Fault Str) : Prop := ∃ res, r = .ok res

theorem not_inBounds_error (fault : Fault) : ¬ InBounds (.error fault) := by
  rintro ⟨res, hres⟩
  cases hres

/-! ## Encryption -/

/-- The bytes of the text that the call with a number reads. -/
def textBlock (data : Str) (k : ℕ) : Str :=
  (data.drop (53 * k)).take (min 53 (toInt data.length - (53 * k : ℕ))).toNat

/-- A call from a number on that is still in the buffer, or just behind it, fails. -/
def FailsFrom (op : ℕ → Str → Option Str) (data : Str) (k : ℕ) : Prop :=
  ∃ j, k ≤ j ∧ j < 17 ∧ ((53 * j : ℕ) : ℤ) ≤ toInt data.length ∧ op j (textBlock data j) = none

/-- The sixteen blocks of the buffer are enough, or one of the first seventeen calls fails. -/
def EncryptFits (op : ℕ → Str → Option Str) (data : Str) : Prop :=
  data.length ≤ 848 ∨ FailsFrom op data 0

theorem encryptLoop_end {i : ℕ} {outsize : ℤ} (h : data.length ≤ i) :
    encryptLoop op data i outdata outsize = contents outdata outsize := by
  rw [encryptLoop, if_neg (by omega)]

/-- The call for one block. -/
theorem encryptLoop_step {k : ℕ} {outsize : ℤ} (h : 53 * k < data.length) :
    encryptLoop op data (53 * k) outdata outsize =
      if toInt data.length < (53 * k : ℕ) then .error .read
      else
        match op k (textBlock data k) with
        | none => .ok []
        | some c => (store outdata (64 * k : ℕ) c rsaSize).bind fun outdata =>
          encryptLoop op data (53 * (k + 1)) outdata (64 * (k + 1) : ℕ) := by
  have hle := toInt_le data.length
  have hdiv : 53 * k / blocksize = k := Nat.mul_div_cancel_left k (by decide)
  have hsize : (if toInt data.length - (53 * k : ℕ) < (blocksize : ℤ)
      then toInt data.length - (53 * k : ℕ) else (blocksize : ℤ)) =
        min 53 (toInt data.length - (53 * k : ℕ)) := by
    simp only [blocksize, rsaSize, paddingSize]
    split_ifs <;> omega
  have hoff : 53 * k + paddingSize * k = 64 * k := by
    rw [paddingSize]
    omega
  have hnext : ((64 * k : ℕ) : ℤ) + (rsaSize : ℤ) = (64 * (k + 1) : ℕ) := by
    rw [rsaSize]
    omega
  rw [encryptLoop, if_pos h]
  dsimp only
  rw [hsize, hdiv, hoff, hnext, show 53 * k + blocksize = 53 * (k + 1) from rfl]
  by_cases hlt : toInt data.length < (53 * k : ℕ)
  · rw [if_pos hlt, if_pos (by omega)]
  · rw [if_neg hlt, if_neg (by omega)]
    rfl

/-- A call that succeeds needs room for its block, and leaves the rest to the loop. -/
theorem encryptLoop_inBounds_step {k : ℕ} {outsize : ℤ} {P : Prop}
    (hop : ∀ j b, ∀ c ∈ op j b, c.length = rsaSize) (h : 53 * k < data.length)
    (hrest : k < 16 → ∀ outdata',
      (InBounds (encryptLoop op data (53 * (k + 1)) outdata' (64 * (k + 1) : ℕ)) ↔ P)) :
    InBounds (encryptLoop op data (53 * k) outdata outsize) ↔
      (53 * k : ℕ) ≤ toInt data.length ∧
        (op k (textBlock data k) = none ∨ op k (textBlock data k) ≠ none ∧ k < 16 ∧ P) := by
  rw [encryptLoop_step h]
  by_cases hlt : toInt data.length < (53 * k : ℕ)
  · rw [if_pos hlt]
    exact iff_of_false (not_inBounds_error .read) fun h => absurd h.1 (not_le.mpr hlt)
  rw [if_neg hlt]
  cases hk : op k (textBlock data k) with
  | none => exact iff_of_true ⟨[], rfl⟩ ⟨by omega, Or.inl rfl⟩
  | some c =>
    have hlen : c.length = 64 := hop k _ c hk
    dsimp only
    by_cases hk16 : k < 16
    · obtain ⟨outdata', hstore, -⟩ :=
        store_of_le outdata (64 * k) c (n := rsaSize) (by rw [hlen, rsaSize]; omega)
      rw [hstore]
      refine (hrest hk16 outdata').trans ⟨fun hP => ?_, fun hP => ?_⟩
      · exact ⟨by omega, Or.inr ⟨by simp, hk16, hP⟩⟩
      · rcases hP with ⟨-, hnone | ⟨-, -, hP⟩⟩
        · cases hnone
        · exact hP
    · rw [store_of_lt (fun h => absurd h.2 (by decide)) (by rw [hlen, rsaSize]; omega)]
      refine iff_of_false (not_inBounds_error .write) ?_
      rintro ⟨-, hnone | ⟨-, hlt', -⟩⟩
      · cases hnone
      · exact hk16 hlt'

/-- The first call fails, or a later one does. -/
theorem failsFrom_step {k : ℕ} (hk : k < 17) :
    FailsFrom op data k ↔ ((53 * k : ℕ) : ℤ) ≤ toInt data.length ∧
      (op k (textBlock data k) = none ∨
        op k (textBlock data k) ≠ none ∧ FailsFrom op data (k + 1)) := by
  constructor
  · rintro ⟨j, hkj, hj, hle, hnone⟩
    refine ⟨by omega, ?_⟩
    by_cases h : op k (textBlock data k) = none
    · exact Or.inl h
    · have hne : k ≠ j := by
        rintro rfl
        exact h hnone
      exact Or.inr ⟨h, j, by omega, hj, hle, hnone⟩
  · rintro ⟨hle, hnone | ⟨-, j, hkj, hrest⟩⟩
    · exact ⟨k, le_rfl, hk, hle, hnone⟩
    · exact ⟨j, by omega, hrest⟩

/-- The room for the text, seen from the call for one block. -/
theorem fits_step {k : ℕ} (hk : k ≤ 16) (h : 53 * k < data.length) :
    (data.length ≤ 848 ∨ FailsFrom op data k) ↔ ((53 * k : ℕ) : ℤ) ≤ toInt data.length ∧
      (op k (textBlock data k) = none ∨ op k (textBlock data k) ≠ none ∧ k < 16 ∧
        (data.length ≤ 848 ∨ FailsFrom op data (k + 1))) := by
  rw [failsFrom_step (by omega)]
  by_cases hlen : data.length ≤ 848
  · have hsize := toInt_of_lt (n := data.length) (by omega)
    refine iff_of_true (Or.inl hlen) ⟨by omega, ?_⟩
    by_cases hnone : op k (textBlock data k) = none
    · exact Or.inl hnone
    · exact Or.inr ⟨hnone, by omega, Or.inl hlen⟩
  · constructor
    · rintro (hle | ⟨hle, hnone | ⟨hne, j, hkj, hj, hrest⟩⟩)
      · exact absurd hle hlen
      · exact ⟨hle, Or.inl hnone⟩
      · exact ⟨hle, Or.inr ⟨hne, by omega, Or.inr ⟨j, hkj, hj, hrest⟩⟩⟩
    · rintro ⟨hle, hnone | ⟨hne, -, hle' | hrest⟩⟩
      · exact Or.inr ⟨hle, Or.inl hnone⟩
      · exact absurd hle' hlen
      · exact Or.inr ⟨hle, Or.inr ⟨hne, hrest⟩⟩

theorem inBounds_end {k : ℕ} (hk : k ≤ 16) (h : data.length ≤ 53 * k) :
    InBounds (encryptLoop op data (53 * k) outdata (64 * k : ℕ)) ↔
      data.length ≤ 848 ∨ FailsFrom op data k := by
  rw [encryptLoop_end h]
  exact iff_of_true ⟨_, if_neg (by omega)⟩ (Or.inl (by omega))

/-- The rest of an encryption, by induction on the blocks that the buffer still holds. -/
theorem encryptLoop_inBounds {m k : ℕ} (hop : ∀ j b, ∀ c ∈ op j b, c.length = rsaSize)
    (hm : k + m = 16) :
    InBounds (encryptLoop op data (53 * k) outdata (64 * k : ℕ)) ↔
      data.length ≤ 848 ∨ FailsFrom op data k := by
  induction m generalizing k outdata with
  | zero =>
    by_cases hend : data.length ≤ 53 * k
    · exact inBounds_end (by omega) hend
    · rw [fits_step (by omega) (by omega)]
      exact encryptLoop_inBounds_step hop (by omega) fun hk => absurd hk (by omega)
  | succ m ih =>
    by_cases hend : data.length ≤ 53 * k
    · exact inBounds_end (by omega) hend
    · rw [fits_step (by omega) (by omega)]
      exact encryptLoop_inBounds_step hop (by omega) fun _ outdata' => ih (by omega)

/-- **When an encryption stays in bounds.** -/
theorem encryptLoop_isOk_iff (hop : ∀ j b, ∀ c ∈ op j b, c.length = rsaSize) :
    InBounds (encryptLoop op data 0 outdata 0) ↔ EncryptFits op data :=
  encryptLoop_inBounds (m := 16) (k := 0) hop rfl

/-- The result of the call with a number. -/
def cipherResult (op : ℕ → Str → Option Str) (data : Str) (k : ℕ) : Option Str :=
  op k ((data.drop (64 * k)).take 64)

/-- The bytes that the call with a number stores at least. -/
def storedAt (stored : ℕ → Str → ℕ) (data : Str) (k : ℕ) : ℕ :=
  stored k ((data.drop (64 * k)).take 64)

/-- What a call returns: the length of its result, -1 when it fails. -/
def retOf (p : Option Str) : ℤ := (p.map fun b => (b.length : ℤ)).getD (-1)

/-- What the call with a number adds to the offset. -/
def ret (op : ℕ → Str → Option Str) (data : Str) (k : ℕ) : ℤ := retOf (cipherResult op data k)

/-- The offset after some calls. -/
def outoffAt (op : ℕ → Str → Option Str) (data : Str) (k : ℕ) : ℤ :=
  ∑ j ∈ Finset.range k, ret op data j

/-- The rounds of the loop. -/
def rounds (data : Str) : ℕ := ((toInt data.length).toNat + 63) / 64

/-- A round finds a whole block, stores in the buffer and leaves the offset in it. -/
def BlockFits (op : ℕ → Str → Option Str) (stored : ℕ → Str → ℕ) (data : Str) (k : ℕ) : Prop :=
  64 * (k + 1) ≤ data.length ∧ 64 * (k + 1) < 2 ^ 31 ∧
    outoffAt op data k + storedAt stored data k ≤ 1024 ∧ 0 ≤ outoffAt op data (k + 1) ∧
    outoffAt op data (k + 1) ≤ 1024

/-- Every round does. -/
def DecryptFits (op : ℕ → Str → Option Str) (stored : ℕ → Str → ℕ) (data : Str) : Prop :=
  ∀ k < rounds data, BlockFits op stored data k

theorem decryptLoop_end {i : ℕ} {outoff : ℤ} (h : toInt data.length ≤ i) :
    decryptLoop op stored data i outdata outoff = contents outdata outoff := by
  have hend : ¬ (i : ℤ) < toInt data.length := by omega
  rewrite [decryptLoop]
  dsimp only
  rewrite [if_neg hend]
  rfl

/-- The call for one block. -/
theorem decryptLoop_step {k : ℕ} {outoff : ℤ} (h : ((64 * k : ℕ) : ℤ) < toInt data.length) :
    decryptLoop op stored data (64 * k) outdata outoff =
      if data.length < 64 * (k + 1) then .error .read
      else (store outdata outoff ((cipherResult op data k).getD []) (storedAt stored data k)).bind
        fun outdata =>
          if 2 ^ 31 ≤ 64 * (k + 1) then .error .overflow
          else decryptLoop op stored data (64 * (k + 1)) outdata (outoff + ret op data k) := by
  have hdiv : 64 * k / rsaSize = k := Nat.mul_div_cancel_left k (by decide)
  rewrite [decryptLoop]
  dsimp only
  rewrite [if_pos h, hdiv]
  rfl

theorem lt_rounds_iff {k : ℕ} : k < rounds data ↔ ((64 * k : ℕ) : ℤ) < toInt data.length := by
  rw [rounds]
  omega

/-- The functions of the class with a loop. -/
inductive Loop
  | encryptPrvkey
  | encryptPubkey
  | decryptPubkey
  | decryptPrvkey
  deriving DecidableEq

namespace Loop

/-- The call of a function. -/
def run (chiper : RSAChiper) (outdata : Outdata) (data key : Str) : Loop → Except Fault Str
  | encryptPrvkey => chiper.doEncryptPrvkey outdata data key
  | encryptPubkey => chiper.doEncryptPubkey outdata data key
  | decryptPubkey => chiper.doDecryptPubkey outdata data key
  | decryptPrvkey => chiper.doDecryptPrvkey outdata data key

/-- What the block operations and the text have to satisfy. -/
def Fits (rsa : Rsa) (data : Str) : Loop → Prop
  | encryptPrvkey => EncryptFits rsa.privateEncrypt data
  | encryptPubkey => EncryptFits rsa.publicEncrypt data
  | decryptPubkey => DecryptFits rsa.publicDecrypt (fun _ _ => 0) data
  | decryptPrvkey => DecryptFits rsa.privateDecrypt rsa.stored data

end Loop

/-- Twenty blocks that are opened to 1024 bytes: nineteen of 53, and one of 17. -/
def full : Rsa where
  privateEncrypt _ _ := none
  publicEncrypt _ _ := none
  publicDecrypt _ _ := none
  privateDecrypt k _ := some (List.replicate (if k < 19 then 53 else 17) 0)
  checksPadding _ _ := true
  length_privateEncrypt := by
    rintro k b c ⟨⟩
  length_publicEncrypt := by
    rintro k b c ⟨⟩
  length_publicDecrypt := by
    rintro k c b ⟨⟩
  length_privateDecrypt := by
    rintro k c b ⟨⟩
    rw [List.length_replicate]
    split_ifs <;> decide
  checksPadding_of_mem _ _ _ _ := rfl

end Jxtd.Misc.Crypto
