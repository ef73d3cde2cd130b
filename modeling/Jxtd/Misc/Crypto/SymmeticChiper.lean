import Jxtd.Misc.Crypto.AsymmeticChiper
import Mathlib.Logic.Function.Basic

/-!
# The symmetric ciphers

`SymmeticChiper` and its classes `AES128_Chiper`, `AES256_Chiper` and `SM4_Chiper` of `misc/crypto`.
A cipher makes its key and its vector from a generator, and fills both when they are short.

* `Kind`, `Mode`, `Evp`: the classes, the modes of operation and the calls of the library.
* `evpRun`: the body of `do_encrypt` and `do_decrypt`; `SymmeticChiper`: the state and its functions.
* `Pair`, `Call`, `run`: two ciphers and the calls on both.
* `evpRun_of_mode`, `length_lt_of_evpRun`: what a body returns.
* **`handOver_iff`**: which texts a cipher hands over to another one of its kind.
-/

namespace Jxtd.Misc.Crypto

open Lib

/-! ## The calls of the library -/

/-- The modes of operation. -/
inductive Mode
  | ecb
  | cbc
  | cfb
  | ofb
  | ctr
  deriving DecidableEq

namespace Mode

/-- The bytes that are read of the vector. -/
def ivLength : Mode → ℕ
  | ecb => 0
  | _ => 16

/-- The length of an encrypted text. The first two modes pad it to whole blocks. -/
def passLength : Mode → ℕ → ℕ
  | ecb, n => 16 * (n / 16 + 1)
  | cbc, n => 16 * (n / 16 + 1)
  | _, n => n

end Mode

/-- The classes. -/
inductive Kind
  | aes128
  | aes256
  | sm4
  deriving DecidableEq

namespace Kind

/-- The modes of a class, in the order of their numbers. -/
def modes : Kind → List Mode
  | aes128 => [.ecb, .cbc, .cfb, .ofb, .ctr]
  | aes256 => [.ecb, .cbc, .cfb, .ctr]
  | sm4 => [.ecb, .cbc, .cfb, .ctr]

/-- The bytes that are read of the key. -/
def keyLength : Kind → ℕ
  | aes128 => 16
  | aes256 => 32
  | sm4 => 16

end Kind

/-- What `Init`, `Update` and `Final` make of the key, the vector, the size and the text: the bytes
of the last two, none when a call fails. -/
abbrev EvpCalls := Kind → Mode → Str → Str → ℤ → Str → Option (Str × Str)

/-- The calls for encryption and for decryption. -/
structure Evp where
  encrypt : EvpCalls
  decrypt : EvpCalls

/-- An encryption does not fail and has its length, and a decryption inverts it. -/
structure Evp.Correct (evp : Evp) : Prop where
  encrypt_some : ∀ (kind : Kind) (mode : Mode) (key init text : Str),
    key.length = kind.keyLength → init.length = mode.ivLength → text.length < 2 ^ 31 →
    ∃ upd fin, evp.encrypt kind mode key init text.length text = some (upd, fin) ∧
      (upd ++ fin).length = mode.passLength text.length
  decrypt_encrypt : ∀ (kind : Kind) (mode : Mode) (key init text upd fin : Str),
    key.length = kind.keyLength → init.length = mode.ivLength → text.length < 2 ^ 31 →
    evp.encrypt kind mode key init text.length text = some (upd, fin) →
    (upd ++ fin).length < 2 ^ 31 →
    ∃ upd' fin', evp.decrypt kind mode key init (upd ++ fin).length (upd ++ fin) =
      some (upd', fin') ∧ upd' ++ fin' = text

/-- `do_encrypt` and `do_decrypt`: the size is passed as an `int`, the buffer has the size of the
text and some room, and the lengths add up to an `int`. -/
def evpRun (calls : EvpCalls) (room : ℕ) (kind : Kind) (key init text : Str) (mode : ℕ) :
    Except Fault Str :=
  match kind.modes[mode]? with
  | none => .ok []
  | some m =>
    if key.length < kind.keyLength ∨ init.length < m.ivLength then .error .read
    else
      match calls kind m (key.take kind.keyLength) (init.take m.ivLength) (toInt text.length)
          text with
      | none => .ok []
      | some (upd, fin) =>
        if text.length + room < (upd ++ fin).length then .error .write
        else if 2 ^ 31 ≤ (upd ++ fin).length then .error .overflow
        else .ok (upd ++ fin)

/-! ## The ciphers -/

/-- `while (s.length() < n) s += '0'` -/
def fill (n : ℕ) (s : Str) : Str := s ++ List.replicate (n - s.length) 48

/-- `SymmeticChiper` -/
structure SymmeticChiper (γ : Type) where
  kind : Kind
  usrkey : Str
  init : Str
  gen : γ

namespace SymmeticChiper

variable {γ σ : Type} (rand : γ → σ → Str × σ) (evp : Evp)

/-- The generator is called some times, and the key grows by its strings. -/
def addRand (gen : γ) : ℕ → Str → σ → Str × σ
  | 0, key, s => (key, s)
  | n + 1, key, s => addRand gen n (key ++ (rand gen s).1) (rand gen s).2

/-- The constructor of `SymmeticChiper`. -/
def base (kind : Kind) (gen : γ) (s : σ) : SymmeticChiper γ × σ :=
  let (usrkey, s) := addRand rand gen 4 [] s
  let (init, s) := rand gen s
  (⟨kind, usrkey, init, gen⟩, s)

/-- The constructors of the classes. -/
def construct (kind : Kind) (gen : γ) (s : σ) : SymmeticChiper γ × σ :=
  let (chiper, s) := base rand kind gen s
  match kind with
  | .aes128 => (chiper, s)
  | .aes256 =>
    let (usrkey, s) := addRand rand gen 2 [] s
    ({ chiper with usrkey }, s)
  | .sm4 => ({ chiper with init := [] }, s)

/-- `get_key` -/
def getKey (chiper : SymmeticChiper γ) (s : σ) : Str × SymmeticChiper γ × σ :=
  if chiper.usrkey = [] then
    let (usrkey, s) := addRand rand chiper.gen 4 chiper.usrkey s
    (usrkey, { chiper with usrkey }, s)
  else (chiper.usrkey, chiper, s)

/-- `set_key` -/
def setKey (chiper : SymmeticChiper γ) (key : Str) : SymmeticChiper γ :=
  { chiper with usrkey := fill 64 key }

/-- `reset_key` -/
def resetKey (chiper : SymmeticChiper γ) : SymmeticChiper γ := { chiper with usrkey := [] }

/-- `init_vector` -/
def initVector (chiper : SymmeticChiper γ) : Str := chiper.init

/-- `set_init`, which adds one character to a short vector. -/
def setInit (chiper : SymmeticChiper γ) (init : Str) : SymmeticChiper γ :=
  { chiper with init := if init.length < 16 then init ++ [48] else init }

/-- `encrypt`, with its result, the cipher and the generators after it. -/
def encrypt (chiper : SymmeticChiper γ) (s : σ) (text : Str) (mode : ℕ) :
    Except Fault Str × SymmeticChiper γ × σ :=
  let usrkey := fill 64 chiper.usrkey
  let (init, s) := rand chiper.gen s
  let init := fill 16 init
  (evpRun evp.encrypt 16 chiper.kind usrkey init text mode, { chiper with usrkey, init }, s)

/-- `decrypt` -/
def decrypt (chiper : SymmeticChiper γ) (pass : Str) (mode : ℕ) : Except Fault Str :=
  evpRun evp.decrypt 0 chiper.kind chiper.usrkey chiper.init pass mode

end SymmeticChiper

/-! ## Calls on two ciphers -/

/-- The two ciphers. -/
inductive Party
  | sender
  | receiver
  deriving DecidableEq

/-- Two ciphers and the state of their generators. -/
structure Pair (γ σ : Type) where
  chipers : Party → SymmeticChiper γ
  src : σ

/-- The calls on a cipher. -/
inductive Call
  | setKey (key : Str)
  | resetKey
  | getKey
  | setInit (init : Str)
  | encrypt (text : Str) (mode : ℕ)
  | decrypt (pass : Str) (mode : ℕ)

section Runs

variable {γ σ : Type} (rand : γ → σ → Str × σ) (evp : Evp)

/-- A call, without its result. -/
def Call.apply (chiper : SymmeticChiper γ) (s : σ) : Call → SymmeticChiper γ × σ
  | setKey key => (chiper.setKey key, s)
  | resetKey => (chiper.resetKey, s)
  | getKey => (chiper.getKey rand s).2
  | setInit init => (chiper.setInit init, s)
  | encrypt text mode => (chiper.encrypt rand evp s text mode).2
  | decrypt _ _ => (chiper, s)

namespace Pair

/-- Two ciphers of one class are constructed. -/
def start (kind : Kind) (gen gen' : γ) (s : σ) : Pair γ σ :=
  let (sender, s) := SymmeticChiper.construct rand kind gen s
  let (receiver, s) := SymmeticChiper.construct rand kind gen' s
  ⟨fun party => match party with | .sender => sender | .receiver => receiver, s⟩

/-- A call on one of the ciphers. -/
def step (w : Pair γ σ) (call : Party × Call) : Pair γ σ :=
  let (chiper, s) := call.2.apply rand evp (w.chipers call.1) w.src
  ⟨Function.update w.chipers call.1 chiper, s⟩

/-- A sequence of calls. -/
def run (calls : List (Party × Call)) (w : Pair γ σ) : Pair γ σ := calls.foldl (step rand evp) w

/-- The sender encrypts, the receiver takes its key and its vector and decrypts. -/
def handOver (w : Pair γ σ) (text : Str) (mode : ℕ) : Except Fault Str :=
  let (pass, sender, s) := (w.chipers .sender).encrypt rand evp w.src text mode
  let (key, sender, _) := sender.getKey rand s
  let receiver := ((w.chipers .receiver).setKey key).setInit sender.initVector
  pass.bind fun pass => receiver.decrypt evp pass mode

end Pair

end Runs

/-! ## The bodies -/

section Bodies

variable {calls : EvpCalls} {room : ℕ} {kind : Kind} {m : Mode} {mode : ℕ}
  {key init text upd fin : Str}

theorem le_passLength (m : Mode) (n : ℕ) : n ≤ m.passLength n := by
  cases m <;> simp only [Mode.passLength] <;> omega

theorem passLength_le (m : Mode) (n : ℕ) : m.passLength n ≤ n + 16 := by
  cases m <;> simp only [Mode.passLength] <;> omega

theorem keyLength_le (kind : Kind) : kind.keyLength ≤ 64 := by
  cases kind <;> decide

theorem ivLength_le (m : Mode) : m.ivLength ≤ 16 := by
  cases m <;> decide

/-- A body whose key and vector are long enough. -/
theorem evpRun_of_mode (hmode : kind.modes[mode]? = some m) (hkey : kind.keyLength ≤ key.length)
    (hinit : m.ivLength ≤ init.length)
    (hcalls : calls kind m (key.take kind.keyLength) (init.take m.ivLength) (toInt text.length) text
      = some (upd, fin)) (hroom : (upd ++ fin).length ≤ text.length + room) :
    evpRun calls room kind key init text mode =
      if 2 ^ 31 ≤ (upd ++ fin).length then .error .overflow else .ok (upd ++ fin) := by
  have hshort : ¬ (key.length < kind.keyLength ∨ init.length < m.ivLength) := by omega
  simp only [evpRun, hmode, if_neg hshort, hcalls, if_neg hroom.not_gt]

/-- The length of a result is an `int`. -/
theorem length_lt_of_evpRun {res : Str} (h : evpRun calls room kind key init text mode = .ok res) :
    res.length < 2 ^ 31 := by
  rw [evpRun] at h
  cases hm : kind.modes[mode]? with
  | none =>
    rw [hm] at h
    cases h
    exact Nat.two_pow_pos 31
  | some m =>
    rw [hm] at h
    dsimp only at h
    split_ifs at h
    cases hc : calls kind m (key.take kind.keyLength) (init.take m.ivLength) (toInt text.length)
        text with
    | none =>
      rw [hc] at h
      cases h
      exact Nat.two_pow_pos 31
    | some bytes =>
      rw [hc] at h
      dsimp only at h
      split_ifs at h with hroom hlt
      cases h
      omega

/-- **A text is encrypted and decrypted again exactly when its pass has an `int` length.** -/
theorem evpRun_evpRun_iff {evp : Evp} (hevp : evp.Correct) (hmode : kind.modes[mode]? = some m)
    (hkey : kind.keyLength ≤ key.length) (hinit : m.ivLength ≤ init.length) :
    ((evpRun evp.encrypt 16 kind key init text mode).bind fun pass =>
        evpRun evp.decrypt 0 kind key init pass mode) = .ok text ↔
      m.passLength text.length < 2 ^ 31 := by
  have hle := le_passLength m text.length
  have hroom := passLength_le m text.length
  have hkeylen : (key.take kind.keyLength).length = kind.keyLength := by
    rw [List.length_take, min_eq_left hkey]
  have hinitlen : (init.take m.ivLength).length = m.ivLength := by
    rw [List.length_take, min_eq_left hinit]
  by_cases hlt : text.length < 2 ^ 31
  · obtain ⟨upd, fin, henc, hlen⟩ := hevp.encrypt_some kind m _ _ text hkeylen hinitlen hlt
    have hcalls := henc
    rw [← toInt_of_lt hlt] at hcalls
    rw [evpRun_of_mode hmode hkey hinit hcalls (by omega)]
    by_cases hpass : 2 ^ 31 ≤ (upd ++ fin).length
    · rw [if_pos hpass]
      exact iff_of_false nofun (by omega)
    · obtain ⟨upd', fin', hdec, htext⟩ := hevp.decrypt_encrypt kind m _ _ text upd fin hkeylen
        hinitlen hlt henc (by omega)
      rw [← toInt_of_lt (by omega)] at hdec
      rw [if_neg hpass]
      refine iff_of_true ?_ (by omega)
      change evpRun evp.decrypt 0 kind key init (upd ++ fin) mode = _
      rw [evpRun_of_mode hmode hkey hinit hdec (by rw [htext]; omega), htext, if_neg (by omega)]
  · constructor
    · intro h
      cases hpass : evpRun evp.encrypt 16 kind key init text mode with
      | error fault =>
        rw [hpass] at h
        cases h
      | ok pass =>
        rw [hpass] at h
        exact absurd (length_lt_of_evpRun h) hlt
    · intro h
      omega

end Bodies

/-! ## Keys and vectors -/

theorem le_length_fill (n : ℕ) (s : Str) : n ≤ (fill n s).length := by
  rw [fill, List.length_append, List.length_replicate]
  omega

theorem fill_of_le {n : ℕ} {s : Str} (h : n ≤ s.length) : fill n s = s := by
  rw [fill, Nat.sub_eq_zero_of_le h, List.replicate_zero, List.append_nil]

section Runs

variable {γ σ : Type} {rand : γ → σ → Str × σ} {evp : Evp}

theorem kind_apply (call : Call) (chiper : SymmeticChiper γ) (s : σ) :
    (call.apply rand evp chiper s).1.kind = chiper.kind := by
  cases call with
  | getKey =>
    simp only [Call.apply, SymmeticChiper.getKey]
    split_ifs <;> rfl
  | _ => rfl

theorem kind_construct (kind : Kind) (gen : γ) (s : σ) :
    (SymmeticChiper.construct rand kind gen s).1.kind = kind := by
  cases kind <;> rfl

theorem kind_start (kind : Kind) (gen gen' : γ) (s : σ) (party : Party) :
    ((Pair.start rand kind gen gen' s).chipers party).kind = kind := by
  cases party <;> exact kind_construct kind _ _

theorem kind_step (w : Pair γ σ) (call : Party × Call) (party : Party) :
    ((w.step rand evp call).chipers party).kind = (w.chipers party).kind := by
  simp only [Pair.step, Function.update_apply]
  split_ifs with h
  · rw [kind_apply, h]
  · rfl

/-- The class of a cipher stays. -/
theorem kind_run (calls : List (Party × Call)) (w : Pair γ σ) (party : Party) :
    ((w.run rand evp calls).chipers party).kind = (w.chipers party).kind := by
  induction calls generalizing w with
  | nil => rfl
  | cons call calls ih => exact (ih _).trans (kind_step w call party)

/-- The receiver ends up with the key and the vector of the encryption. -/
theorem handOver_eq (rand : γ → σ → Str × σ) (evp : Evp) {w : Pair γ σ} {kind : Kind}
    (hsender : (w.chipers .sender).kind = kind) (hreceiver : (w.chipers .receiver).kind = kind)
    (text : Str) (mode : ℕ) :
    ∃ key init, 64 ≤ key.length ∧ 16 ≤ init.length ∧ w.handOver rand evp text mode =
      (evpRun evp.encrypt 16 kind key init text mode).bind fun pass =>
        evpRun evp.decrypt 0 kind key init pass mode := by
  obtain ⟨key, hkey⟩ : ∃ key, key = fill 64 (w.chipers .sender).usrkey := ⟨_, rfl⟩
  obtain ⟨init, hinit⟩ : ∃ init, init = fill 16 (rand (w.chipers .sender).gen w.src).1 := ⟨_, rfl⟩
  have hkeylen : 64 ≤ key.length := hkey ▸ le_length_fill 64 _
  have hinitlen : 16 ≤ init.length := hinit ▸ le_length_fill 16 _
  have hne : key ≠ [] := by
    rintro rfl
    simp at hkeylen
  refine ⟨key, init, hkeylen, hinitlen, ?_⟩
  simp only [Pair.handOver, SymmeticChiper.encrypt, ← hkey, ← hinit, SymmeticChiper.getKey,
    if_neg hne, SymmeticChiper.setKey, SymmeticChiper.initVector, SymmeticChiper.setInit,
    if_neg hinitlen.not_gt, SymmeticChiper.decrypt, fill_of_le hkeylen, hsender, hreceiver]

/-- **Which texts are handed over.** After every sequence of calls on both ciphers, those whose
pass has an `int` length. -/
theorem handOver_iff (rand : γ → σ → Str × σ) {evp : Evp} (hevp : evp.Correct) (kind : Kind)
    (gen gen' : γ) (s : σ) (calls : List (Party × Call)) (text : Str) {mode : ℕ} {m : Mode}
    (hmode : kind.modes[mode]? = some m) :
    ((Pair.start rand kind gen gen' s).run rand evp calls).handOver rand evp text mode = .ok text ↔
      m.passLength text.length < 2 ^ 31 := by
  have hkind (party : Party) :
      (((Pair.start rand kind gen gen' s).run rand evp calls).chipers party).kind = kind := by
    rw [kind_run, kind_start]
  obtain ⟨key, init, hkey, hinit, heq⟩ :=
    handOver_eq rand evp (hkind .sender) (hkind .receiver) text mode
  have hkeylen := keyLength_le kind
  have hinitlen := ivLength_le m
  rw [heq]
  exact evpRun_evpRun_iff hevp hmode (by omega) (by omega)

end Runs

/-! ## An instance -/

/-- The number of missing bytes, as often as bytes are missing, in the modes that pad. -/
def Mode.padBytes (m : Mode) (text : Str) : Str :=
  List.replicate (m.passLength text.length - text.length)
    (UInt8.ofNat (m.passLength text.length - text.length))

/-- The text without the bytes that its last one counts. -/
def Mode.unpad (m : Mode) (text : Str) : Str :=
  match m with
  | ecb | cbc => text.take (text.length - (text.getLastD 0).toNat)
  | _ => text

/-- The bytes of a block that is added count themselves. -/
theorem take_padded {text padded : Str} {p : ℕ} (hpos : 0 < p) (hle : p ≤ 16)
    (h : padded = text ++ List.replicate p (UInt8.ofNat p)) :
    padded.take (padded.length - (padded.getLastD 0).toNat) = text := by
  have hlast : padded.getLastD 0 = UInt8.ofNat p := by
    rw [h, List.getLastD_eq_getLast?, List.getLast?_append, List.getLast?_replicate, if_neg hpos.ne']
    rfl
  have hp : (UInt8.ofNat p).toNat = p := by
    rw [UInt8.toNat_ofNat']
    omega
  rw [hlast, hp, h, List.length_append, List.length_replicate, Nat.add_sub_cancel,
    List.take_left' rfl]

theorem unpad_padBytes (m : Mode) (text : Str) : m.unpad (text ++ m.padBytes text) = text := by
  cases m with
  | ecb | cbc =>
    simp only [Mode.unpad, Mode.padBytes, Mode.passLength]
    exact take_padded (by omega) (by omega) rfl
  | cfb | ofb | ctr =>
    simp only [Mode.unpad, Mode.padBytes, Mode.passLength, Nat.sub_self, List.replicate_zero,
      List.append_nil]

/-- Every byte is masked. -/
def mask (key init text : Str) : Str := text.map ((key.headD 0 ^^^ init.headD 0) ^^^ ·)

theorem mask_mask (key init text : Str) : mask key init (mask key init text) = text := by
  rw [mask, mask, List.map_map, List.map_congr_left (g := id), List.map_id]
  intro b _
  rw [Function.comp_apply, ← UInt8.xor_assoc, UInt8.xor_self, UInt8.zero_xor, id]

theorem mask_append (key init text text' : Str) :
    mask key init (text ++ text') = mask key init text ++ mask key init text' := List.map_append

/-- A cipher that masks the padded text. -/
def masking : Evp where
  encrypt _ m key init inl text :=
    let text := text.take inl.toNat
    some (mask key init text, mask key init (m.padBytes text))
  decrypt _ m key init inl pass := some (m.unpad (mask key init (pass.take inl.toNat)), [])

theorem masking_correct : masking.Correct where
  encrypt_some kind mode key init text hkey hinit hlt := by
    have hle := le_passLength mode text.length
    refine ⟨_, _, rfl, ?_⟩
    rw [Int.toNat_natCast, List.take_length, List.length_append, mask, List.length_map, mask,
      List.length_map, Mode.padBytes, List.length_replicate]
    omega
  decrypt_encrypt kind mode key init text upd fin hkey hinit hlt henc hpass := by
    cases henc
    refine ⟨_, _, rfl, ?_⟩
    rw [Int.toNat_natCast, Int.toNat_natCast, List.take_length, List.take_length, ← mask_append,
      mask_mask, unpad_padBytes, List.append_nil]

/-- A generator that counts. -/
def counter (_ : Unit) (s : UInt8) : Str × UInt8 := (List.replicate 16 s, s + 1)

/-- A call on either side, and a text for the second mode of the first class. -/
theorem handOver_iff_abc :
    ((Pair.start counter .aes128 () () 0).run counter masking
      [(.sender, .resetKey), (.receiver, .setInit [1])]).handOver counter masking [97, 98, 99] 1 =
        .ok [97, 98, 99] :=
  (handOver_iff counter masking_correct .aes128 () () 0 _ [97, 98, 99] (m := .cbc) rfl).mpr
    (by decide)

/-- A text of `2 ^ 31` bytes is not handed over. -/
theorem not_handOver_long : ¬ ∀ (evp : Evp) (_ : evp.Correct) (kind : Kind)
    (calls : List (Party × Call)) (text : Str) (mode : ℕ), mode < kind.modes.length →
      ((Pair.start counter kind () () 0).run counter evp calls).handOver counter evp text mode =
        .ok text := by
  intro h
  have hrun := h masking masking_correct .aes128 [] (List.replicate (2 ^ 31) 97) 0 (by decide)
  obtain ⟨key, init, hkey, hinit, heq⟩ := handOver_eq counter masking
    (w := (Pair.start counter .aes128 () () 0).run counter masking [])
    (kind_start .aes128 () () 0 .sender) (kind_start .aes128 () () 0 .receiver)
    (List.replicate (2 ^ 31) 97) 0
  rw [heq, evpRun_evpRun_iff masking_correct (m := .ecb) rfl (le_trans (by decide) hkey)
    (Nat.zero_le _)] at hrun
  have hle := le_passLength .ecb (List.replicate (2 ^ 31) (97 : UInt8)).length
  rw [List.length_replicate] at hrun hle
  omega

end Jxtd.Misc.Crypto
