import Jxtd.Lib.Defaults
import Jxtd.Lib.Except
import Jxtd.Misc.Flags.Address

/-!
# The flags of the programs

`parse_flags` of `misc/flags/flag.cc`, which all programs call, over the flags that it reads. The
flags have their values from the command line, and each has passed its validator.

* `StrFlag`, `FlagValues`: the flags; `validator`, `Valid`: the checks of `DEFINE_validator`.
* `checks`, `defaults`, `parseFlags`: the function.
* `validator_default`: the only defaults that are checked are the tokens.
* **`parse_again`**: flags that were parsed are valid, and are not changed when they are parsed again.
* **`material_eq`**: the certificate, the key and the authority that each server starts with.
-/

namespace Jxtd.Misc.Flags

open Lib

/-! ## The flags -/

/-- The flags that are strings and have a validator, a default that depends on others, or both; and
those that others get their defaults from. -/
inductive StrFlag
  | compCert | compKey | compCa
  | compApiAddress | compApiCert | compApiKey | compApiCa
  | compCompToken | compManaToken | compStorToken
  | compCompName | compCompAddr | compCompPeerAddr | compCompCert | compCompKey | compCompCa
  | compDatatransBindAddr
  | compTaskdepAddr | compTaskdepCert | compTaskdepKey | compTaskdepCa | compTaskdepCliAddr
  | storCert | storKey | storCa
  | storApiAddress | storApiCert | storApiKey | storApiCa
  | storCompToken | storManaToken | storStorToken
  | storDatatransAddr | storDatatransCert | storDatatransKey | storDatatransCa
  | storBackend | storPath | storRemoteAddr
  | storTaskdepAddr | storTaskdepCert | storTaskdepKey | storTaskdepCa
  | manaCert | manaKey | manaCa
  | manaApiAddress | manaApiCert | manaApiKey | manaApiCa
  | manaCompToken | manaManaToken | manaStorToken
  | manaDatasourceCert | manaDatasourceKey | manaDatasourceCa
  | manaTaskdepAddr
  deriving DecidableEq

/-- The flags that are read. -/
structure FlagValues where
  str : StrFlag → Str
  compCompBoot : Bool
  compCompPeerPort : Int32
  compDatatransRemotePort : Int32
  storRemotePort : Int32

/-! ## The checks -/

/-- `required_string_field` -/
def requiredStringField (value : Str) : Except Str Bool :=
  if value = [] then .error (lit "missing required field") else .ok true

/-- `required_int_field` -/
def requiredIntField (value : Int32) : Except Str Bool :=
  if value = 0 then .error (lit "missing required field") else .ok true

/-- `required_token` -/
def requiredToken (value : Str) : Except Str Bool :=
  if value = [] then .error (lit "missing required field")
  else if value.length ≠ 128 then .error (lit "the length of token should be 128")
  else .ok true

/-- `token_length_check` -/
def tokenLengthCheck (value : Str) : Except Str Bool :=
  if value ≠ [] ∧ value.length ≠ 128 then .error (lit "the length of token should be 128")
  else .ok true

/-- `DEFINE_validator`; one of the addresses is checked in place of another flag. -/
def validator : StrFlag → Option (Str → Except Str Bool)
  | .compApiAddress => some addrCheck
  | .compCompAddr => some addrCheck
  | .compDatatransBindAddr => some addrCheck
  | .compTaskdepAddr => some addrCheck
  | .compTaskdepCliAddr => some addrCheck
  | .storApiAddress => some addrCheck
  | .storDatatransAddr => some addrCheck
  | .storRemoteAddr => some addrCheck
  | .storTaskdepAddr => some addrCheck
  | .manaApiAddress => some addrCheck
  | .manaDatasourceCa => some addrCheck
  | .manaTaskdepAddr => some addrCheck
  | .compCompToken => some tokenLengthCheck
  | .storStorToken => some tokenLengthCheck
  | .manaManaToken => some tokenLengthCheck
  | .compManaToken => some requiredToken
  | .compStorToken => some requiredToken
  | .storCompToken => some requiredToken
  | .storManaToken => some requiredToken
  | .manaCompToken => some requiredToken
  | .manaStorToken => some requiredToken
  | .compCompName => some requiredStringField
  | .storBackend => some requiredStringField
  | .storPath => some requiredStringField
  | _ => none

/-- All validators have passed. -/
structure Valid (f : FlagValues) : Prop where
  str : ∀ flag, ∀ check ∈ validator flag, check (f.str flag) = .ok true
  remotePort : requiredIntField f.compDatatransRemotePort = .ok true

/-- The fields that are required by the values of others. -/
def checks (f : FlagValues) : Except Str Unit := do
  if f.compCompBoot = false then
    let _ ← requiredAddrCheck (f.str .compCompPeerAddr)
  if f.compCompBoot = false then
    let _ ← requiredIntField f.compCompPeerPort
  if f.str .storRemoteAddr ≠ [] then
    let _ ← requiredIntField f.storRemotePort

/-! ## The defaults -/

/-- `std::default_random_engine` and `std::uniform_int_distribution` over printable characters. -/
structure RandomEngine (ρ : Type) where
  seed : ℤ → ρ
  draw : ρ → UInt8 × ρ

/-- The loop of `rand_str`. -/
def draws {ρ : Type} (e : RandomEngine ρ) : ℕ → ρ → Str
  | 0, _ => []
  | n + 1, r => (e.draw r).1 :: draws e n (e.draw r).2

/-- `rand_str`, at a time. -/
def randStr {ρ : Type} (e : RandomEngine ρ) (time : ℤ) (strLeng : ℕ) : Str :=
  draws e strLeng (e.seed time)

/-- `key_default_value`; the length of what is left wraps for a name that is short. -/
def keyDefaultValue (str : Str) : Str :=
  (if str.length < 4 then str else str.take (str.length - 4)) ++ lit ".key"

/-- The times at which the tokens are made. -/
structure Times where
  comp : ℤ
  stor : ℤ
  mana : ℤ

/-- The defaults, in their order. -/
def defaults {ρ : Type} (e : RandomEngine ρ) (t : Times) : List (Default StrFlag Str) :=
  [⟨.compKey, some .compCert, keyDefaultValue⟩,
   ⟨.storKey, some .storCert, keyDefaultValue⟩,
   ⟨.manaKey, some .manaCert, keyDefaultValue⟩,
   ⟨.compCompToken, none, fun _ => randStr e t.comp 128⟩,
   ⟨.storStorToken, none, fun _ => randStr e t.stor 128⟩,
   ⟨.manaManaToken, none, fun _ => randStr e t.mana 128⟩,
   ⟨.compApiCert, some .compCert, id⟩,
   ⟨.compApiKey, some .compKey, id⟩,
   ⟨.compApiCa, some .compCa, id⟩,
   ⟨.compCompCert, some .compCert, id⟩,
   ⟨.compCompKey, some .compKey, id⟩,
   ⟨.compCompCa, some .compCa, id⟩,
   ⟨.compTaskdepCert, some .compCert, id⟩,
   ⟨.compTaskdepKey, some .compKey, id⟩,
   ⟨.compTaskdepCa, some .compCa, id⟩,
   ⟨.storApiCert, some .storCert, id⟩,
   ⟨.storApiKey, some .storKey, id⟩,
   ⟨.storApiCa, some .storCa, id⟩,
   ⟨.storDatatransCert, some .storCert, id⟩,
   ⟨.storDatatransKey, some .storKey, id⟩,
   ⟨.storDatatransCa, some .storCa, id⟩,
   ⟨.storTaskdepCert, some .storCert, id⟩,
   ⟨.storTaskdepKey, some .storKey, id⟩,
   ⟨.storTaskdepCa, some .storCa, id⟩,
   ⟨.manaApiCert, some .manaCert, id⟩,
   ⟨.manaApiKey, some .manaKey, id⟩,
   ⟨.manaApiCa, some .manaCa, id⟩]

/-- `parse_flags`, after the command line was read. -/
def parseFlags {ρ : Type} (e : RandomEngine ρ) (t : Times) (f : FlagValues) : Except Str FlagValues := do
  checks f
  return { f with str := Default.fillAll [] f.str (defaults e t) }

/-! ## What is parsed -/

section Parse

variable {ρ : Type} {e : RandomEngine ρ} {t : Times} {f f' : FlagValues}

theorem length_randStr (time : ℤ) (n : ℕ) : (randStr e time n).length = n := by
  have h : ∀ n r, (draws e n r).length = n := by
    intro n
    induction n with
    | zero => exact fun _ => rfl
    | succ n ih => simp [draws, ih]
  exact h n _

theorem randStr_ne_nil (time : ℤ) : randStr e time 128 ≠ [] := by
  intro h
  have hlen := length_randStr (e := e) time 128
  rw [h] at hlen
  cases hlen

theorem ordered_defaults (e : RandomEngine ρ) (t : Times) : Default.Ordered (defaults e t) :=
  of_decide_eq_true rfl

theorem parse_ok (h : parseFlags e t f = .ok f') :
    checks f = .ok () ∧ f' = { f with str := Default.fillAll [] f.str (defaults e t) } := by
  obtain ⟨_, hchecks, hf⟩ := bind_eq_ok.mp h
  cases hf
  exact ⟨hchecks, rfl⟩

/-- The only defaults that are checked are the tokens that are made. -/
theorem validator_default : ∀ r ∈ defaults e t, ∀ check ∈ validator r.key,
    check = tokenLengthCheck ∧ ∃ time, ∀ s, r.value [] s = randStr e time 128 := by
  have htimes : (∃ time, randStr e t.comp 128 = randStr e time 128) ∧
      (∃ time, randStr e t.stor 128 = randStr e time 128) ∧
      ∃ time, randStr e t.mana 128 = randStr e time 128 := ⟨⟨_, rfl⟩, ⟨_, rfl⟩, _, rfl⟩
  simpa [defaults, validator, Default.value] using htimes

theorem tokenLengthCheck_randStr (time : ℤ) : tokenLengthCheck (randStr e time 128) = .ok true := by
  simp [tokenLengthCheck, length_randStr]

/-- The fields of `checks` have no default. -/
theorem checks_parse (h : parseFlags e t f = .ok f') : checks f' = checks f := by
  obtain ⟨-, rfl⟩ := parse_ok h
  have hpeer : Default.fillAll [] f.str (defaults e t) .compCompPeerAddr =
      f.str .compCompPeerAddr := Default.fillAll_of_notMem (of_decide_eq_true rfl)
  have hremote : Default.fillAll [] f.str (defaults e t) .storRemoteAddr = f.str .storRemoteAddr :=
    Default.fillAll_of_notMem (of_decide_eq_true rfl)
  simp only [checks, hpeer, hremote]

theorem valid_parse (hvalid : Valid f) (h : parseFlags e t f = .ok f') : Valid f' := by
  obtain ⟨-, rfl⟩ := parse_ok h
  refine ⟨fun flag check hcheck => ?_, hvalid.remotePort⟩
  change check (Default.fillAll [] f.str (defaults e t) flag) = .ok true
  have hbefore := hvalid.str flag check hcheck
  by_cases hempty : f.str flag = []
  · by_cases hmem : ∀ r ∈ defaults e t, r.key ≠ flag
    · rwa [Default.fillAll_of_notMem hmem]
    · push Not at hmem
      obtain ⟨r, hr, rfl⟩ := hmem
      obtain ⟨rfl, time, hvalue⟩ := validator_default r hr check hcheck
      rw [Default.fillAll_eq (ordered_defaults e t) r hr, if_pos hempty, hvalue]
      exact tokenLengthCheck_randStr time
  · rwa [Default.fillAll_of_ne hempty]

/-- The time matters for the tokens only. -/
theorem defaults_time (t' : Times) : ∀ r ∈ defaults e t', r ∈ defaults e t ∨
    ∃ r₀ ∈ defaults e t, r₀.key = r.key ∧ ∃ time, ∀ s, r₀.value [] s = randStr e time 128 := by
  intro r hr
  have hset : defaults e t' =
      (((defaults e t).set 3 ⟨.compCompToken, none, fun _ => randStr e t'.comp 128⟩).set
        4 ⟨.storStorToken, none, fun _ => randStr e t'.stor 128⟩).set
        5 ⟨.manaManaToken, none, fun _ => randStr e t'.mana 128⟩ := rfl
  rw [hset] at hr
  rcases List.mem_or_eq_of_mem_set hr with hr | rfl
  · rcases List.mem_or_eq_of_mem_set hr with hr | rfl
    · rcases List.mem_or_eq_of_mem_set hr with hr | rfl
      · exact .inl hr
      · exact .inr ⟨_, List.mem_of_getElem? (i := 3) rfl, rfl, _, fun _ => rfl⟩
    · exact .inr ⟨_, List.mem_of_getElem? (i := 4) rfl, rfl, _, fun _ => rfl⟩
  · exact .inr ⟨_, List.mem_of_getElem? (i := 5) rfl, rfl, _, fun _ => rfl⟩

/-- **Flags that were parsed are parsed again** at any time: they are valid, nothing changes, and
every flag that was set has the value that it was given, as those have that are no strings. -/
theorem parse_again (hvalid : Valid f) (h : parseFlags e t f = .ok f') :
    Valid f' ∧ (∀ t', parseFlags e t' f' = .ok f') ∧
      (∀ flag, f.str flag ≠ [] → f'.str flag = f.str flag) ∧ f' = { f with str := f'.str } := by
  refine ⟨valid_parse hvalid h, fun t' => ?_, ?_⟩
  · have hchecks := (checks_parse h).trans (parse_ok h).1
    obtain ⟨-, rfl⟩ := parse_ok h
    have hfilled : Default.fillAll [] (Default.fillAll [] f.str (defaults e t)) (defaults e t') =
        Default.fillAll [] f.str (defaults e t) := by
      refine Default.fillAll_of_filled fun r hr hempty => ?_
      rcases defaults_time t' r hr with hr | ⟨r₀, hr₀, hkey, time, hvalue⟩
      · have heq : Default.fillAll [] f.str (defaults e t) r.key = _ :=
          Default.fillAll_eq (ordered_defaults e t) r hr
        rw [hempty] at heq
        split_ifs at heq with hs
        · exact heq.symm
        · exact absurd heq.symm hs
      · have heq : Default.fillAll [] f.str (defaults e t) r₀.key = _ :=
          Default.fillAll_eq (ordered_defaults e t) r₀ hr₀
        rw [hkey, hempty, hvalue] at heq
        split_ifs at heq with hs
        · exact absurd heq.symm (randStr_ne_nil time)
        · exact absurd heq.symm hs
    rw [parseFlags, hchecks]
    change Except.ok _ = _
    rw [hfilled]
  · obtain ⟨-, rfl⟩ := parse_ok h
    exact ⟨fun flag hne => Default.fillAll_of_ne hne, rfl⟩

/-- `minstd_rand0`, with its numbers scaled to the characters. -/
def minstd : RandomEngine ℕ where
  seed time := (time % 2147483647).toNat
  draw r := (UInt8.ofNat (33 + (r * 16807 % 2147483647 - 1) / 22845570), r * 16807 % 2147483647)

/-- A node with the tokens of the other units, and a certificate. -/
def sample : FlagValues where
  str
    | .compManaToken | .compStorToken | .storCompToken => List.replicate 128 97
    | .storManaToken | .manaCompToken | .manaStorToken => List.replicate 128 98
    | .compCompName => lit "node"
    | .storBackend => lit "local"
    | .storPath => lit "/data"
    | .storCert => lit "stor.crt"
    | _ => []
  compCompBoot := true
  compCompPeerPort := 0
  compDatatransRemotePort := 3887
  storRemotePort := 0

theorem valid_sample : Valid sample := by
  refine ⟨fun flag check hcheck => ?_, rfl⟩
  cases flag <;> cases hcheck <;>
    simp [sample, requiredToken, tokenLengthCheck, addrCheck, requiredStringField, lit]

theorem parse_again_sample : ∃ f', parseFlags minstd ⟨1, 1, 2⟩ sample = .ok f' ∧ Valid f' ∧
    (∀ t', parseFlags minstd t' f' = .ok f') ∧
      (∀ flag, sample.str flag ≠ [] → f'.str flag = sample.str flag) ∧
      f' = { sample with str := f'.str } :=
  ⟨_, rfl, parse_again valid_sample rfl⟩

/-! ## The servers -/

/-- The servers whose flags have defaults. -/
inductive Server
  | compApi
  | compComp
  | compTaskdep
  | storApi
  | storDatatrans
  | storTaskdep
  | manaApi
  deriving DecidableEq

/-- The flags of a certificate, its key and its authority. -/
structure Material where
  cert : StrFlag
  key : StrFlag
  ca : StrFlag

namespace Server

/-- The flags of a server. -/
def own : Server → Material
  | compApi => ⟨.compApiCert, .compApiKey, .compApiCa⟩
  | compComp => ⟨.compCompCert, .compCompKey, .compCompCa⟩
  | compTaskdep => ⟨.compTaskdepCert, .compTaskdepKey, .compTaskdepCa⟩
  | storApi => ⟨.storApiCert, .storApiKey, .storApiCa⟩
  | storDatatrans => ⟨.storDatatransCert, .storDatatransKey, .storDatatransCa⟩
  | storTaskdep => ⟨.storTaskdepCert, .storTaskdepKey, .storTaskdepCa⟩
  | manaApi => ⟨.manaApiCert, .manaApiKey, .manaApiCa⟩

/-- The flags of its unit. -/
def common : Server → Material
  | compApi => ⟨.compCert, .compKey, .compCa⟩
  | compComp => ⟨.compCert, .compKey, .compCa⟩
  | compTaskdep => ⟨.compCert, .compKey, .compCa⟩
  | storApi => ⟨.storCert, .storKey, .storCa⟩
  | storDatatrans => ⟨.storCert, .storKey, .storCa⟩
  | storTaskdep => ⟨.storCert, .storKey, .storCa⟩
  | manaApi => ⟨.manaCert, .manaKey, .manaCa⟩

end Server

/-- A value, or another one if it is empty. -/
def orElse (value other : Str) : Str := if value = [] then other else value

theorem mem_own (s : Server) :
    ⟨s.own.cert, some s.common.cert, id⟩ ∈ defaults e t ∧
    ⟨s.own.key, some s.common.key, id⟩ ∈ defaults e t ∧
    ⟨s.own.ca, some s.common.ca, id⟩ ∈ defaults e t ∧
    ⟨s.common.key, some s.common.cert, keyDefaultValue⟩ ∈ defaults e t := by
  cases s <;> simp [defaults, Server.own, Server.common]

theorem notMem_common (s : Server) : (∀ r ∈ defaults e t, r.key ≠ s.common.cert) ∧
    ∀ r ∈ defaults e t, r.key ≠ s.common.ca := by
  cases s <;> exact ⟨of_decide_eq_true rfl, of_decide_eq_true rfl⟩

/-- A default that is taken from another flag. -/
theorem parse_default {key source : StrFlag} {make : Str → Str}
    (hr : ⟨key, some source, make⟩ ∈ defaults e t) (h : parseFlags e t f = .ok f') :
    f'.str key = orElse (f.str key) (make (f'.str source)) := by
  obtain ⟨-, rfl⟩ := parse_ok h
  exact Default.fillAll_eq (ordered_defaults e t) _ hr

/-- **What a server starts with.** Its certificate and its authority are its own or those of its unit;
its key is its own, or that of its unit, or the one beside the certificate of the unit, also where it
has a certificate of its own. -/
theorem material_eq (h : parseFlags e t f = .ok f') (s : Server) :
    f'.str s.own.cert = orElse (f.str s.own.cert) (f.str s.common.cert) ∧
    f'.str s.own.key = orElse (f.str s.own.key)
      (orElse (f.str s.common.key) (keyDefaultValue (f.str s.common.cert))) ∧
    f'.str s.own.ca = orElse (f.str s.own.ca) (f.str s.common.ca) := by
  obtain ⟨hcert, hkey, hca, hunit⟩ := @mem_own _ e t s
  obtain ⟨hnocert, hnoca⟩ := @notMem_common _ e t s
  have hcommon : f'.str s.common.cert = f.str s.common.cert ∧
      f'.str s.common.ca = f.str s.common.ca := by
    obtain ⟨-, rfl⟩ := parse_ok h
    exact ⟨Default.fillAll_of_notMem hnocert, Default.fillAll_of_notMem hnoca⟩
  rw [parse_default hcert h, parse_default hkey h, parse_default hca h, parse_default hunit h,
    hcommon.1, hcommon.2]
  exact ⟨rfl, rfl, rfl⟩

/-- The server for the data sources has no defaults, and no authority that is not an address. -/
theorem datasource_eq (hvalid : Valid f) (h : parseFlags e t f = .ok f') :
    f'.str .manaDatasourceCert = f.str .manaDatasourceCert ∧
    f'.str .manaDatasourceKey = f.str .manaDatasourceKey ∧
    f'.str .manaDatasourceCa = f.str .manaDatasourceCa ∧
    (f'.str .manaDatasourceCa = [] ∨ checkIPV6 (f'.str .manaDatasourceCa) ∨
      checkIPV4 (f'.str .manaDatasourceCa)) := by
  have hca := addrCheck_eq_ok.mp ((valid_parse hvalid h).str .manaDatasourceCa addrCheck rfl)
  obtain ⟨-, rfl⟩ := parse_ok h
  refine ⟨?_, ?_, ?_, hca⟩
  · exact Default.fillAll_of_notMem (of_decide_eq_true rfl)
  · exact Default.fillAll_of_notMem (of_decide_eq_true rfl)
  · exact Default.fillAll_of_notMem (of_decide_eq_true rfl)

end Parse

end Jxtd.Misc.Flags
