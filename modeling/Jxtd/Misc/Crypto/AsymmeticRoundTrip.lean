import Jxtd.Misc.Crypto.AsymmeticChiper
import Mathlib.Data.List.Basic

/-!
# Round trips of the asymmetric cipher

What `decrypt` makes of the result of `encrypt` when every block operation of a pair undoes the
other one.

* `encryptLoop_eq`, `decryptLoop_eq`: the results of the loops are their blocks in order.
* `decrypt_blocks`: the blocks of a text are opened to the text.
* `length_le_of_decryptLoop`: a decryption shortens.
* **`roundTrip_iff`**: which texts survive in which mode.
-/

namespace Jxtd.Misc.Crypto

open Lib

/-- The operations of a pair undo each other on one padded block. -/
def Rsa.Inverts (rsa : Rsa) : Prop :=
  ∀ (k k' : ℕ) (b : Str), b.length ≤ blocksize →
    (∃ c, rsa.privateEncrypt k b = some c ∧ rsa.publicDecrypt k' c = some b) ∧
    (∃ c, rsa.publicEncrypt k b = some c ∧ rsa.privateDecrypt k' c = some b)

/-! ## Blocks of one size -/

section Blocks

variable {f : ℕ → Str}

theorem length_flatMap_blocks (hf : ∀ j, (f j).length = 64) (a n : ℕ) :
    ((List.range' a n).flatMap f).length = 64 * n := by
  induction n generalizing a with
  | zero => rfl
  | succ n ih =>
    rw [List.range'_succ, List.flatMap_cons, List.length_append, hf, ih]
    omega

/-- A block is found at its offset. -/
theorem flatMap_block (hf : ∀ j, (f j).length = 64) {n k : ℕ} (hk : k < n) :
    (((List.range' 0 n).flatMap f).drop (64 * k)).take 64 = f k := by
  obtain ⟨m, rfl⟩ : ∃ m, n = k + (m + 1) := ⟨n - k - 1, by omega⟩
  have hsplit := List.range'_append_1 (s := 0) (m := k) (n := m + 1)
  rw [← hsplit, List.flatMap_append,
    List.drop_left' (length_flatMap_blocks hf 0 k), List.range'_succ, List.flatMap_cons,
    List.take_left' (hf _), Nat.zero_add]

end Blocks

variable {op : ℕ → Str → Option Str} {stored : ℕ → Str → ℕ} {data : Str} {outdata : Outdata}

/-! ## The results of the loops -/

/-- An encryption appends its blocks, by induction on the calls that are left. -/
theorem encryptLoop_eq {f : ℕ → Str} {m k : ℕ} (hle : data.length ≤ 848)
    (hop : ∀ j, op j (textBlock data j) = some (f j)) (hf : ∀ j, (f j).length = 64)
    (hm : k + m = (data.length + 52) / 53) :
    encryptLoop op data (53 * k) outdata (64 * k : ℕ) =
      .ok (outdata.1.take (64 * k) ++ (List.range' k m).flatMap f) := by
  have hsize := toInt_of_lt (n := data.length) (by omega)
  induction m generalizing k outdata with
  | zero =>
    rw [encryptLoop_end (by omega), contents, if_neg (by omega), Int.toNat_natCast]
    simp
  | succ m ih =>
    have hlen := hf k
    obtain ⟨outdata', hstore, htake⟩ := store_of_le outdata (64 * k) (f k) (n := rsaSize)
      (by rw [hlen, rsaSize]; omega)
    rw [encryptLoop_step (by omega), if_neg (by omega), hop]
    dsimp only
    rw [hstore]
    change encryptLoop op data (53 * (k + 1)) outdata' (64 * (k + 1) : ℕ) = _
    rw [hlen] at htake
    rw [ih (by omega), show 64 * (k + 1) = 64 * k + 64 from rfl, htake, List.range'_succ,
      List.flatMap_cons, List.append_assoc]

/-- A decryption appends its results. -/
theorem decryptLoop_eq {g : ℕ → Str} {m k off : ℕ} (hle : 64 * rounds data ≤ data.length)
    (hrounds : rounds data ≤ 16) (hop : ∀ j < rounds data, cipherResult op data j = some (g j))
    (hg : ∀ j, (g j).length ≤ 53) (hstored : ∀ j c, stored j c ≤ 53) (hm : k + m = rounds data)
    (hoff : off ≤ 53 * k) :
    decryptLoop op stored data (64 * k) outdata off =
      .ok (outdata.1.take off ++ (List.range' k m).flatMap g) := by
  induction m generalizing k off outdata with
  | zero =>
    have hend : ¬ k < rounds data := by omega
    rw [lt_rounds_iff] at hend
    rw [decryptLoop_end (by omega), contents, if_neg (by omega), Int.toNat_natCast]
    simp
  | succ m ih =>
    have hlen := hg k
    have hblock : storedAt stored data k ≤ 53 := hstored k _
    obtain ⟨outdata', hstore, htake⟩ := store_of_le outdata off (g k) (n := storedAt stored data k)
      (by omega)
    have hret : ret op data k = (g k).length := by
      rw [ret, hop k (by omega)]
      rfl
    rw [decryptLoop_step (lt_rounds_iff.mp (by omega)), if_neg (by omega), hop k (by omega), hret,
      Option.getD_some, hstore]
    change ite _ _ _ = _
    rw [if_neg (by omega), ← Nat.cast_add, ih (by omega) (by omega), htake, List.range'_succ,
      List.flatMap_cons, List.append_assoc]

/-! ## The blocks of a text -/

theorem textBlock_eq (h : data.length < 2 ^ 31) (k : ℕ) :
    textBlock data k = (data.drop (53 * k)).take 53 := by
  have hsize := toInt_of_lt h
  have hlen := List.length_drop (i := 53 * k) (l := data)
  rw [textBlock, hsize]
  rcases le_total 53 (data.length - 53 * k) with hle | hle
  · rw [show (min 53 ((data.length : ℤ) - (53 * k : ℕ))).toNat = 53 by omega]
  · rw [show (min 53 ((data.length : ℤ) - (53 * k : ℕ))).toNat = data.length - 53 * k by omega,
      List.take_of_length_le hlen.le, List.take_of_length_le (by omega)]

theorem length_textBlock_le (k : ℕ) : (textBlock data k).length ≤ 53 := by
  rw [textBlock, List.length_take]
  omega

/-- The blocks of a text are the text. -/
theorem flatMap_textBlock {m k : ℕ} (h : data.length < 2 ^ 31)
    (hm : k + m = (data.length + 52) / 53) :
    (List.range' k m).flatMap (textBlock data) = data.drop (53 * k) := by
  induction m generalizing k with
  | zero =>
    rw [List.drop_of_length_le (by omega)]
    rfl
  | succ m ih =>
    have hnext : 53 * (k + 1) = 53 + 53 * k := by omega
    rw [List.range'_succ, List.flatMap_cons, ih (by omega), textBlock_eq h, hnext,
      Nat.add_comm 53, ← List.drop_drop, List.take_append_drop]

/-- The pass of a text of at most sixteen blocks is opened to the text. -/
theorem decrypt_blocks {op' : ℕ → Str → Option Str} {outdata' : Outdata} (hle : data.length ≤ 848)
    (hop : ∀ j b, ∀ c ∈ op j b, c.length = rsaSize)
    (hinv : ∀ j b, b.length ≤ blocksize → ∃ c, op j b = some c ∧ op' j c = some b) :
    ∃ pass, encryptLoop op data 0 outdata 0 = .ok pass ∧
      decryptLoop op' (fun _ _ => 0) pass 0 outdata' 0 = .ok data := by
  choose f hf using fun j => hinv j (textBlock data j) (length_textBlock_le j)
  have hsize : ∀ j, (f j).length = 64 := fun j => hop j _ _ (hf j).1
  obtain ⟨n, hn⟩ : ∃ n, n = (data.length + 52) / 53 := ⟨_, rfl⟩
  obtain ⟨pass, hpass⟩ : ∃ pass, pass = (List.range' 0 n).flatMap f := ⟨_, rfl⟩
  have hlen : pass.length = 64 * n := by rw [hpass, length_flatMap_blocks hsize]
  have hint := toInt_of_lt (n := pass.length) (by omega)
  have hrounds : rounds pass = n := by
    rw [rounds]
    omega
  have hblock : ∀ j < rounds pass, cipherResult op' pass j = some (textBlock data j) := by
    intro j hj
    rw [cipherResult, hpass, flatMap_block hsize (by omega)]
    exact (hf j).2
  refine ⟨pass, ?_, ?_⟩
  · have hloop : encryptLoop op data (53 * 0) outdata (64 * 0 : ℕ) = _ :=
      encryptLoop_eq (m := n) hle (fun j => (hf j).1) hsize (by omega)
    rwa [← hpass] at hloop
  · have hloop : decryptLoop op' (fun _ _ => 0) pass (64 * 0) outdata' (0 : ℕ) = _ :=
      decryptLoop_eq (m := n) (by omega) (by omega) hblock length_textBlock_le
        (fun _ _ => Nat.zero_le 53) (by omega) le_rfl
    rwa [flatMap_textBlock (by omega) (by omega)] at hloop

/-! ## Decryptions shorten -/

/-- A result is no longer than the blocks that are left allow. -/
theorem length_le_of_rest (hop : ∀ j c, ∀ b ∈ op j c, b.length ≤ blocksize) {res : Str}
    {m k : ℕ} {outoff : ℤ} (hm : k + m = rounds data)
    (h : decryptLoop op stored data (64 * k) outdata outoff = .ok res) :
    (res.length : ℤ) ≤ outoff + 53 * m ∧ (0 < m → 64 * (k + m) ≤ data.length) := by
  induction m generalizing k outoff outdata with
  | zero =>
    have hend : ¬ k < rounds data := by omega
    rw [lt_rounds_iff] at hend
    rw [decryptLoop_end (by omega), contents] at h
    split_ifs at h with hneg
    cases h
    rw [List.length_take]
    omega
  | succ m ih =>
    have hret : ret op data k ≤ 53 := by
      rw [ret, retOf]
      cases hb : cipherResult op data k with
      | none => decide
      | some b =>
        have hlen : b.length ≤ 53 := hop k _ b hb
        simp only [Option.map_some, Option.getD_some]
        omega
    rw [decryptLoop_step (lt_rounds_iff.mp (by omega))] at h
    by_cases hread : data.length < 64 * (k + 1)
    · rw [if_pos hread] at h
      cases h
    rw [if_neg hread] at h
    cases hstore : store outdata outoff ((cipherResult op data k).getD [])
        (storedAt stored data k) with
    | error fault =>
      rw [hstore] at h
      cases h
    | ok outdata' =>
      rw [hstore] at h
      dsimp only [Except.bind] at h
      split_ifs at h with hover
      obtain ⟨hres, hblocks⟩ := ih (by omega) h
      constructor
      · omega
      · intro _
        rcases Nat.eq_zero_or_pos m with rfl | hpos
        · omega
        · have := hblocks hpos
          omega

theorem length_le_of_decryptLoop (hop : ∀ j c, ∀ b ∈ op j c, b.length ≤ blocksize) {res : Str}
    (h : decryptLoop op stored data 0 outdata 0 = .ok res) : 64 * res.length ≤ 53 * data.length := by
  obtain ⟨hres, hblocks⟩ := length_le_of_rest (k := 0) (m := rounds data) hop (Nat.zero_add _) h
  rcases Nat.eq_zero_or_pos (rounds data) with hzero | hpos
  · omega
  · have := hblocks hpos
    omega

/-! ## Both modes -/

/-- `decrypt(encrypt(text, cert), !cert)` gives the text. -/
def RoundTrip (chiper : RSAChiper) (outdata outdata' : Outdata) (text : Str) (cert : Bool) : Prop :=
  ∃ pass, chiper.encrypt outdata text cert = .ok pass ∧
    chiper.decrypt outdata' pass (!cert) = .ok text

variable {chiper : RSAChiper} {outdata' : Outdata} {text : Str}

theorem roundTrip_true_iff : RoundTrip chiper outdata outdata' text true ↔
    ∃ pass, encryptLoop chiper.rsa.privateEncrypt text 0 outdata 0 = .ok pass ∧
      decryptLoop chiper.rsa.publicDecrypt (fun _ _ => 0) pass 0 outdata' 0 = .ok text := by
  simp only [RoundTrip, RSAChiper.encrypt, RSAChiper.decrypt, RSAChiper.doEncryptPrvkey,
    RSAChiper.doDecryptPubkey, if_true, Bool.not_true, Bool.false_eq_true, if_false]

/-- The mode with the public key decrypts twice. -/
theorem roundTrip_false_iff : RoundTrip chiper outdata outdata' text false ↔
    ∃ pass, decryptLoop chiper.rsa.publicDecrypt (fun _ _ => 0) text 0 outdata 0 = .ok pass ∧
      decryptLoop chiper.rsa.privateDecrypt chiper.rsa.stored pass 0 outdata' 0 = .ok text := by
  simp only [RoundTrip, RSAChiper.encrypt, RSAChiper.decrypt, RSAChiper.doDecryptPrvkey,
    RSAChiper.doDecryptPubkey, if_true, Bool.not_false, Bool.false_eq_true, if_false]

theorem roundTrip_prvkey_iff (hinv : chiper.rsa.Inverts) :
    RoundTrip chiper outdata outdata' text true ↔ text.length ≤ 848 := by
  have hop := chiper.rsa.length_privateEncrypt
  rw [roundTrip_true_iff]
  constructor
  · rintro ⟨pass, hpass, -⟩
    have hin : InBounds (encryptLoop chiper.rsa.privateEncrypt text 0 outdata 0) := ⟨pass, hpass⟩
    rcases (encryptLoop_isOk_iff hop).mp hin with hle | ⟨j, -, -, -, hnone⟩
    · exact hle
    · obtain ⟨⟨c, hc, -⟩, -⟩ := hinv j j (textBlock text j) (length_textBlock_le j)
      rw [hnone] at hc
      cases hc
  · intro hle
    exact decrypt_blocks hle hop fun j b hb => (hinv j j b hb).1

theorem decryptLoop_nil : decryptLoop op stored [] 0 outdata 0 = .ok [] := by
  have hzero : toInt ([] : Str).length = 0 := toInt_of_lt (by decide)
  rw [decryptLoop_end hzero.le]
  rfl

theorem roundTrip_pubkey_iff :
    RoundTrip chiper outdata outdata' text false ↔ text = [] := by
  rw [roundTrip_false_iff]
  constructor
  · rintro ⟨pass, hpass, htext⟩
    have hfst := length_le_of_decryptLoop chiper.rsa.length_publicDecrypt hpass
    have hsnd := length_le_of_decryptLoop chiper.rsa.length_privateDecrypt htext
    exact List.eq_nil_of_length_eq_zero (by omega)
  · rintro rfl
    exact ⟨[], decryptLoop_nil, decryptLoop_nil⟩

/-- **Which texts survive.** With the private key those that fit the buffer, with the public key
only the empty one. -/
theorem roundTrip_iff (chiper : RSAChiper) (hinv : chiper.rsa.Inverts)
    (outdata outdata' : Outdata) (text : Str) (cert : Bool) :
    RoundTrip chiper outdata outdata' text cert ↔
      text = [] ∨ cert = true ∧ text.length ≤ 848 := by
  cases cert with
  | true =>
    rw [roundTrip_prvkey_iff hinv]
    constructor
    · intro hle
      exact Or.inr ⟨rfl, hle⟩
    · rintro (rfl | ⟨-, hle⟩)
      · exact Nat.zero_le _
      · exact hle
  | false =>
    rw [roundTrip_pubkey_iff]
    simp

/-! ## An instance -/

/-- The length of a block, the block and zeros. -/
def padBlock (b : Str) : Option Str :=
  if b.length ≤ blocksize then
    some (UInt8.ofNat b.length :: (b ++ List.replicate (63 - b.length) 0))
  else none

/-- The block that was padded. -/
def openBlock : Str → Option Str
  | [] => none
  | n :: rest => some (rest.take (min n.toNat blocksize))

theorem length_padBlock {b c : Str} (h : c ∈ padBlock b) : c.length = rsaSize := by
  rw [padBlock] at h
  split_ifs at h with hle
  · obtain rfl := Option.some.inj h
    have hlen : b.length ≤ 53 := hle
    simp only [List.length_cons, List.length_append, List.length_replicate, rsaSize]
    omega
  · cases h

theorem length_openBlock {c b : Str} (h : b ∈ openBlock c) : b.length ≤ blocksize := by
  cases c with
  | nil => cases h
  | cons n rest =>
    obtain rfl := Option.some.inj h
    rw [List.length_take]
    omega

theorem openBlock_padBlock {b : Str} (h : b.length ≤ blocksize) :
    ∃ c, padBlock b = some c ∧ openBlock c = some b := by
  have hle : b.length ≤ 53 := h
  have hn : (UInt8.ofNat b.length).toNat = b.length := by
    rw [UInt8.toNat_ofNat']
    omega
  refine ⟨_, if_pos h, ?_⟩
  rw [openBlock, hn, min_eq_left h, List.take_left' rfl]

/-- Operations that only pad. -/
def padding : Rsa where
  privateEncrypt _ := padBlock
  publicEncrypt _ := padBlock
  publicDecrypt _ := openBlock
  privateDecrypt _ := openBlock
  checksPadding _ _ := true
  length_privateEncrypt _ _ _ := length_padBlock
  length_publicEncrypt _ _ _ := length_padBlock
  length_publicDecrypt _ _ _ := length_openBlock
  length_privateDecrypt _ _ _ := length_openBlock
  checksPadding_of_mem _ _ _ _ := rfl

theorem padding_inverts : padding.Inverts :=
  fun _ _ _ hb => ⟨openBlock_padBlock hb, openBlock_padBlock hb⟩

/-- The text of the tests. -/
def sample : Str := [49, 50, 51, 52, 53, 54, 55, 56, 57, 48, 49, 50, 51, 52, 53, 54]

theorem roundTrip_iff_sample : padding.Inverts ∧
    RoundTrip ⟨[], [], padding⟩ zeros zeros sample true ∧
    ¬ RoundTrip ⟨[], [], padding⟩ zeros zeros (List.replicate 849 97) true := by
  have hiff := roundTrip_iff ⟨[], [], padding⟩ padding_inverts zeros zeros
  refine ⟨padding_inverts, (hiff sample true).mpr (.inr ⟨rfl, by decide⟩), fun h => ?_⟩
  rcases (hiff _ true).mp h with hnil | ⟨-, hle⟩
  · cases hnil
  · rw [List.length_replicate] at hle
    omega

/-- The text of the tests does not survive the mode with the public key. -/
theorem not_roundTrip_sample : ¬ ∀ (chiper : RSAChiper) (_ : chiper.rsa.Inverts)
    (outdata outdata' : Outdata) (text : Str) (cert : Bool),
    RoundTrip chiper outdata outdata' text cert := by
  intro h
  have hfalse := h ⟨[], [], padding⟩ padding_inverts zeros zeros sample false
  rw [roundTrip_pubkey_iff] at hfalse
  cases hfalse

end Jxtd.Misc.Crypto
