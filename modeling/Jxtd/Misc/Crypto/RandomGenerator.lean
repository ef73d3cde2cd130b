import Jxtd.Lib.Except
import Jxtd.Lib.Run
import Jxtd.Misc.Crypto.SymmeticChiper
import Mathlib.Data.Int.Interval
import Mathlib.Data.Set.Card

/-!
# The generators

`LCG_Random` of `misc/crypto/RandomGenerator.cc` draws its letters from the generator of the
process, which `std::srand` seeds with the sum of the characters that it is given.

* `Libc`, `LCGRandom`, `Process`: the generator of the process, the objects, and both.
* `LCGCall`, `lcgStep`: the functions of the class; `LCGCall.seeding`: what a call seeds with.
* **`rand_last_seeding`**: all objects draw from the sequence that was seeded last.
* `Sums`, `sums_step`: a process without its strings, of which only the sums matter.
* **`few_keys`**: how many keys and vectors a cipher can get from a seed.
-/

namespace Jxtd.Misc.Crypto

open Lib

/-! ## The generator of the process -/

/-- `std::srand` and `std::rand`, which is never negative. -/
structure Libc (ρ : Type) where
  srand : UInt32 → ρ
  rand : ρ → ℕ × ρ

namespace Libc

variable {ρ : Type} (libc : Libc ρ)

/-- Some turns of the loop of `rand`: letters `a` to `z`. -/
def letters : ℕ → ρ → Str × ρ
  | 0, r => ([], r)
  | n + 1, r =>
    let (tmp, r) := libc.rand r
    let (randSeq, r) := letters n r
    (UInt8.ofNat (tmp % 26 + 97) :: randSeq, r)

/-- The letters that are drawn at once. -/
def block (r : ρ) : Str × ρ := libc.letters 16 r

/-- The letters that are drawn after some others were drawn from a seed. -/
def nth (num : ℤ) (i : ℕ) : Str :=
  (libc.block ((fun r => (libc.block r).2)^[i] (libc.srand (UInt32.ofInt num)))).1

end Libc

/-! ## The objects -/

/-- `LCG_Random` -/
structure LCGRandom where
  seed : Str
  num : ℤ

/-- `static_cast<int>(a)` of a signed `char`. -/
def charInt (a : UInt8) : ℤ := a.toInt8.toInt

/-- The sum of the characters. -/
def charSum (seed : Str) : ℤ := (seed.map charInt).sum

/-- The loop of `srand`, which adds the characters to an `int`. -/
def addChars : ℤ → Str → Except Fault ℤ
  | num, [] => .ok num
  | num, a :: seed =>
    if -2 ^ 31 ≤ num + charInt a ∧ num + charInt a < 2 ^ 31 then addChars (num + charInt a) seed
    else .error .overflow

/-- The objects by their names, the generator of the process, and what `rand` has returned. -/
structure Process (ρ : Type) where
  generators : ℕ → Option LCGRandom
  libc : ρ
  log : List Str

/-- The functions of the class, with the object that they are called on and the one that is moved. -/
inductive LCGCall
  | construct (g : ℕ) (time : ℤ)
  | destroy (g : ℕ)
  | moveConstruct (g other : ℕ)
  | moveAssign (g other : ℕ)
  | reset (g : ℕ)
  | rand (g : ℕ)
  | srand (g : ℕ) (seed : Str)
  | entropy (g : ℕ) (extra : Str)

section Functions

variable {ρ : Type} (libc : Libc ρ)

namespace Process

/-- An object gets its members. -/
def put (p : Process ρ) (g : ℕ) (o : Option LCGRandom) : Process ρ :=
  { p with generators := Function.update p.generators g o }

/-- `std::srand(num)` -/
def seedWith (p : Process ρ) (num : ℤ) : Process ρ :=
  { p with libc := libc.srand (UInt32.ofInt num) }

/-- `reset` -/
def reset (p : Process ρ) (g : ℕ) : Process ρ := (p.put g (some ⟨[], 0⟩)).seedWith libc 0

/-- `rand` -/
def rand (p : Process ρ) : Str × Process ρ :=
  let (randSeq, r) := libc.block p.libc
  (randSeq, { p with libc := r })

/-- `srand` -/
def srand (p : Process ρ) (g : ℕ) (seed : Str) : Except Fault (Process ρ) :=
  (addChars 0 seed).map fun num => (p.put g (some ⟨seed, num⟩)).seedWith libc num

end Process

/-- A call; an object that is not there is read outside of what is there. -/
def lcgStep (p : Process ρ) : LCGCall → Except Fault (Process ρ)
  | .construct g time => .ok ((p.put g (some ⟨[], toInt time⟩)).seedWith libc (toInt time))
  | .destroy g =>
    match p.generators g with
    | none => .error .read
    | some _ => .ok (p.put g none)
  | .moveConstruct g other =>
    match p.generators other with
    | none => .error .read
    | some o => .ok (((p.reset libc other).put g (some o)).seedWith libc o.num)
  | .moveAssign g other =>
    match p.generators g, p.generators other with
    | some _, some o => .ok (((p.put g (some o)).seedWith libc o.num).reset libc other)
    | _, _ => .error .read
  | .reset g =>
    match p.generators g with
    | none => .error .read
    | some _ => .ok (p.reset libc g)
  | .rand g =>
    match p.generators g with
    | none => .error .read
    | some _ => .ok { (p.rand libc).2 with log := p.log ++ [(p.rand libc).1] }
  | .srand g seed =>
    match p.generators g with
    | none => .error .read
    | some _ => p.srand libc g seed
  | .entropy g extra =>
    match p.generators g with
    | none => .error .read
    | some o => p.srand libc g (extra ++ o.seed)

/-- What a call seeds the generator of the process with. -/
def LCGCall.seeding (p : Process ρ) : LCGCall → Option ℤ
  | .construct _ time => some (toInt time)
  | .destroy _ => none
  | .moveConstruct _ other => (p.generators other).map (·.num)
  | .moveAssign _ _ => some 0
  | .reset _ => some 0
  | .rand _ => none
  | .srand _ seed => some (charSum seed)
  | .entropy g extra => (p.generators g).map fun o => charSum extra + charSum o.seed

/-- The calls that do not seed. -/
def LCGCall.Keeps : LCGCall → Prop
  | .destroy _ => True
  | .rand _ => True
  | _ => False

/-- The calls of `rand`. -/
def LCGCall.draws : LCGCall → Bool
  | .rand _ => true
  | _ => false

end Functions

/-! ## One sequence -/

section Sequence

variable {ρ : Type} {libc : Libc ρ} {p q : Process ρ}

@[simp] theorem charSum_nil : charSum [] = 0 := rfl

@[simp] theorem charSum_cons (a : UInt8) (seed : Str) :
    charSum (a :: seed) = charInt a + charSum seed := by
  simp [charSum]

theorem charSum_append (extra seed : Str) : charSum (extra ++ seed) = charSum extra + charSum seed := by
  simp [charSum]

/-- The loop adds all characters, if it ends. -/
theorem addChars_eq {num num' : ℤ} {seed : Str} (h : addChars num seed = .ok num') :
    num' = num + charSum seed := by
  induction seed generalizing num with
  | nil =>
    cases h
    simp
  | cons a seed ih =>
    rw [addChars] at h
    split_ifs at h
    rw [ih h, charSum_cons, add_assoc]

theorem srand_ok {g : ℕ} {seed : Str} (h : p.srand libc g seed = .ok q) :
    q = (p.put g (some ⟨seed, charSum seed⟩)).seedWith libc (charSum seed) := by
  obtain ⟨num, hnum, rfl⟩ := map_eq_ok.mp h
  obtain rfl : num = charSum seed := by simpa using addChars_eq hnum
  rfl

/-- **A call that seeds** starts a sequence, whatever was drawn before, and returns no letters. -/
theorem step_seeding {call : LCGCall} {num : ℤ} (h : lcgStep libc p call = .ok q)
    (hseed : call.seeding p = some num) :
    q.libc = libc.srand (UInt32.ofInt num) ∧ q.log = p.log := by
  cases call with
  | construct g time =>
    cases h
    cases hseed
    exact ⟨rfl, rfl⟩
  | destroy g => cases hseed
  | rand g => cases hseed
  | moveConstruct g other =>
    rw [lcgStep] at h
    rw [LCGCall.seeding] at hseed
    cases ho : p.generators other with
    | none => simp [ho] at h
    | some o =>
      rw [ho] at h hseed
      cases h
      cases hseed
      exact ⟨rfl, rfl⟩
  | moveAssign g other =>
    cases hseed
    rw [lcgStep] at h
    split at h
    · cases h
      exact ⟨rfl, rfl⟩
    · cases h
  | reset g =>
    cases hseed
    rw [lcgStep] at h
    split at h
    · cases h
    · cases h
      exact ⟨rfl, rfl⟩
  | srand g seed =>
    cases hseed
    rw [lcgStep] at h
    split at h
    · cases h
    · rw [srand_ok h]
      exact ⟨rfl, rfl⟩
  | entropy g extra =>
    rw [lcgStep] at h
    rw [LCGCall.seeding] at hseed
    cases ho : p.generators g with
    | none => simp [ho] at h
    | some o =>
      rw [ho] at h hseed
      cases hseed
      rw [srand_ok h, charSum_append]
      exact ⟨rfl, rfl⟩

/-- Where the generator of the process is in a sequence. -/
structure Drawn (libc : Libc ρ) (num : ℤ) (before : List Str) (n : ℕ) (p : Process ρ) : Prop where
  state : p.libc = (fun r => (libc.block r).2)^[n] (libc.srand (UInt32.ofInt num))
  log : p.log = before ++ (List.range n).map (libc.nth num)

/-- **A call that does not seed** goes on in the sequence, on any object. -/
theorem Drawn.step {num : ℤ} {before : List Str} {n : ℕ} (hp : Drawn libc num before n p)
    {call : LCGCall} (hkeep : call.Keeps) (h : lcgStep libc p call = .ok q) :
    Drawn libc num before (n + if call.draws then 1 else 0) q := by
  cases call with
  | destroy g =>
    rw [lcgStep] at h
    split at h
    · cases h
    · cases h
      exact ⟨hp.state, hp.log⟩
  | rand g =>
    rw [lcgStep] at h
    split at h
    · cases h
    · cases h
      refine ⟨?_, ?_⟩
      · change (libc.block p.libc).2 = (fun r => (libc.block r).2)^[n + 1] _
        rw [Function.iterate_succ_apply', hp.state]
      · change p.log ++ [(libc.block p.libc).1] = before ++ (List.range (n + 1)).map (libc.nth num)
        rw [hp.log, hp.state, List.range_succ, List.map_append, List.append_assoc]
        rfl
  | construct g time => exact hkeep.elim
  | moveConstruct g other => exact hkeep.elim
  | moveAssign g other => exact hkeep.elim
  | reset g => exact hkeep.elim
  | srand g seed => exact hkeep.elim
  | entropy g extra => exact hkeep.elim

theorem Drawn.run {num : ℤ} {before : List Str} {n : ℕ} (hp : Drawn libc num before n p)
    {calls : List LCGCall} (hkeep : ∀ call ∈ calls, call.Keeps)
    (h : run (lcgStep libc) p calls = .ok q) :
    Drawn libc num before (n + calls.countP LCGCall.draws) q := by
  induction calls generalizing n p with
  | nil =>
    cases h
    exact hp
  | cons call calls ih =>
    cases hstep : lcgStep libc p call with
    | error f =>
      rw [run_cons_error hstep] at h
      cases h
    | ok p' =>
      rw [run_cons_ok hstep] at h
      have hnext := ih (hp.step (hkeep call List.mem_cons_self) hstep)
        (fun c hc => hkeep c (List.mem_cons_of_mem _ hc)) h
      rwa [add_right_comm, add_assoc, ← List.countP_cons] at hnext

/-- **All objects draw from the sequence that was seeded last.** After a call that seeds, on any
object and whatever came before it, the calls of `rand` return the letters of its sequence one after
the other, whichever objects they are made on. -/
theorem rand_last_seeding {pre post : List LCGCall} {call : LCGCall}
    (h : run (lcgStep libc) p (pre ++ call :: post) = .ok q) (hkeep : ∀ c ∈ post, c.Keeps) :
    ∃ p₁, run (lcgStep libc) p pre = .ok p₁ ∧ ∀ num, call.seeding p₁ = some num →
      q.log = p₁.log ++ (List.range (post.countP LCGCall.draws)).map (libc.nth num) := by
  obtain ⟨p₁, hpre⟩ := run_of_append h
  rw [run_append hpre] at h
  refine ⟨p₁, hpre, fun num hseed => ?_⟩
  cases hstep : lcgStep libc p₁ call with
  | error f =>
    rw [run_cons_error hstep] at h
    cases h
  | ok p₂ =>
    rw [run_cons_ok hstep] at h
    obtain ⟨hlibc, hlog⟩ := step_seeding hstep hseed
    have hdrawn : Drawn libc num p₁.log 0 p₂ := ⟨hlibc, by simp [hlog]⟩
    have hlast := (hdrawn.run hkeep h).log
    rwa [Nat.zero_add] at hlast

/-- The generator in the text of the standard. -/
def ansi : Libc UInt32 where
  srand seed := seed
  rand r := ((r * 1103515245 + 12345) / 65536 % 32768 |>.toNat, r * 1103515245 + 12345)

/-- A generator that takes over another one draws from the sequence of zero. -/
theorem rand_last_seeding_moved : ∃ q,
    run (lcgStep ansi) ⟨fun _ => none, 1, []⟩
      ([.construct 0 7, .construct 1 9, .srand 1 (lit "seed")] ++
        .moveAssign 0 1 :: [.rand 0, .destroy 1, .rand 0]) = .ok q ∧
    ∃ p₁, run (lcgStep ansi) ⟨fun _ => none, 1, []⟩
        [.construct 0 7, .construct 1 9, .srand 1 (lit "seed")] = .ok p₁ ∧
      ∀ num, LCGCall.seeding p₁ (.moveAssign 0 1) = some num →
        q.log = p₁.log ++ (List.range (List.countP LCGCall.draws [.rand 0, .destroy 1, .rand 0])).map
          (ansi.nth num) :=
  ⟨_, rfl, rand_last_seeding rfl (by simp [LCGCall.Keeps])⟩

end Sequence

/-! ## The sums -/

section Sums

variable {ρ : Type} (libc : Libc ρ)

/-- A process whose objects have the number and the sum of the seed only. -/
structure Sums (ρ : Type) where
  generators : ℕ → Option (ℤ × ℤ)
  libc : ρ

namespace Sums

/-- An object gets its members. -/
def put (s : Sums ρ) (g : ℕ) (o : Option (ℤ × ℤ)) : Sums ρ :=
  { s with generators := Function.update s.generators g o }

/-- `std::srand(num)` -/
def seedWith (s : Sums ρ) (num : ℤ) : Sums ρ := { s with libc := libc.srand (UInt32.ofInt num) }

/-- `srand` -/
def srand (s : Sums ρ) (g : ℕ) (sum : ℤ) : Sums ρ :=
  (s.put g (some (sum, sum))).seedWith libc sum

/-- `reset` -/
def reset (s : Sums ρ) (g : ℕ) : Sums ρ := (s.put g (some (0, 0))).seedWith libc 0

/-- The object of a name. -/
def get (s : Sums ρ) (g : ℕ) : ℤ × ℤ := (s.generators g).getD (0, 0)

/-- A call. -/
def step (s : Sums ρ) : LCGCall → Sums ρ
  | .construct g time => (s.put g (some (toInt time, 0))).seedWith libc (toInt time)
  | .destroy g => s.put g none
  | .moveConstruct g other =>
    ((s.reset libc other).put g (some (s.get other))).seedWith libc (s.get other).1
  | .moveAssign g other =>
    ((s.put g (some (s.get other))).seedWith libc (s.get other).1).reset libc other
  | .reset g => s.reset libc g
  | .rand _ => { s with libc := (libc.block s.libc).2 }
  | .srand g seed => s.srand libc g (charSum seed)
  | .entropy g extra => s.srand libc g (charSum extra + (s.get g).2)

end Sums

/-- The number and the sum of an object. -/
def LCGRandom.sums (o : LCGRandom) : ℤ × ℤ := (o.num, charSum o.seed)

/-- What is left of a process. -/
def Process.sums (p : Process ρ) : Sums ρ := ⟨fun g => (p.generators g).map LCGRandom.sums, p.libc⟩

variable {libc} {p q : Process ρ}

theorem sums_put (g : ℕ) (o : Option LCGRandom) :
    (p.put g o).sums = p.sums.put g (o.map LCGRandom.sums) := by
  simp only [Process.sums, Process.put, Sums.put, Sums.mk.injEq, and_true]
  funext g'
  by_cases h : g' = g
  · simp [h]
  · simp [h]

theorem sums_seedWith (num : ℤ) : (p.seedWith libc num).sums = p.sums.seedWith libc num := rfl

theorem sums_reset (g : ℕ) : (p.reset libc g).sums = p.sums.reset libc g := by
  rw [Process.reset, sums_seedWith, sums_put]
  rfl

theorem sums_srand {g : ℕ} {seed : Str} (h : p.srand libc g seed = .ok q) :
    q.sums = p.sums.srand libc g (charSum seed) := by
  rw [srand_ok h, sums_seedWith, sums_put]
  rfl

theorem get_sums {g : ℕ} {o : LCGRandom} (h : p.generators g = some o) : p.sums.get g = o.sums := by
  simp [Sums.get, Process.sums, h]

/-- **A call sees the strings by their sums only.** -/
theorem sums_step {call : LCGCall} (h : lcgStep libc p call = .ok q) :
    q.sums = p.sums.step libc call := by
  cases call with
  | construct g time =>
    cases h
    rw [sums_seedWith, sums_put]
    rfl
  | destroy g =>
    rw [lcgStep] at h
    split at h
    · cases h
    · cases h
      exact sums_put g none
  | moveConstruct g other =>
    rw [lcgStep] at h
    split at h
    · cases h
    · rename_i o ho
      cases h
      rw [sums_seedWith, sums_put, sums_reset, Sums.step, get_sums ho]
      rfl
  | moveAssign g other =>
    rw [lcgStep] at h
    split at h
    · rename_i o ho
      cases h
      rw [sums_reset, sums_seedWith, sums_put, Sums.step, get_sums ho]
      rfl
    · cases h
  | reset g =>
    rw [lcgStep] at h
    split at h
    · cases h
    · cases h
      exact sums_reset g
  | rand g =>
    rw [lcgStep] at h
    split at h
    · cases h
    · cases h
      rfl
  | srand g seed =>
    rw [lcgStep] at h
    split at h
    · cases h
    · exact sums_srand h
  | entropy g extra =>
    rw [lcgStep] at h
    split at h
    · cases h
    · rename_i o ho
      rw [sums_srand h, Sums.step, get_sums ho, charSum_append]
      rfl

/-! ## The keys -/

/-- The key and the vector of a new cipher. -/
def secret (libc : Libc ρ) (kind : Kind) (r : ρ) : Str × Str :=
  let (chiper, _) := SymmeticChiper.construct (fun _ : Unit => libc.block) kind () r
  (chiper.usrkey, chiper.init)

theorem charInt_range (a : UInt8) : -128 ≤ charInt a ∧ charInt a ≤ 127 := by
  have hlo := a.toInt8.le_toInt
  have hhi := a.toInt8.toInt_lt
  unfold charInt
  omega

theorem charSum_range (seed : Str) :
    -128 * (seed.length : ℤ) ≤ charSum seed ∧ charSum seed ≤ 127 * seed.length := by
  induction seed with
  | nil => simp
  | cons a seed ih =>
    have ha := charInt_range a
    rw [charSum_cons, List.length_cons]
    push_cast
    omega

/-- **There are few keys.** From the seeds of at most `n` characters, of which there are `256 ^ n` of
full length alone, and whatever is called after the seeding, a new cipher gets one of at most
`255 n + 1` keys with their vectors. -/
theorem few_keys (libc : Libc ρ) (kind : Kind) (p : Process ρ) (g : ℕ) (post : List LCGCall) (n : ℕ) :
    {key | ∃ seed q, seed.length ≤ n ∧
      run (lcgStep libc) p (.srand g seed :: post) = .ok q ∧
      key = secret libc kind q.libc}.encard ≤ 255 * n + 1 := by
  have hsubset : {key | ∃ seed q, seed.length ≤ n ∧
      run (lcgStep libc) p (.srand g seed :: post) = .ok q ∧ key = secret libc kind q.libc} ⊆
      (fun sum => secret libc kind
        (post.foldl (Sums.step libc) (p.sums.srand libc g sum)).libc) ''
        (Finset.Icc (-128 * (n : ℤ)) (127 * n) : Finset ℤ) := by
    rintro key ⟨seed, q, hlen, hrun, rfl⟩
    have hrange := charSum_range seed
    refine ⟨charSum seed, ?_, ?_⟩
    · rw [Finset.coe_Icc, Set.mem_Icc]
      omega
    · have hsums := run_foldl (fun _ _ _ => sums_step) hrun
      rw [List.foldl_cons, Sums.step] at hsums
      dsimp only
      rw [← hsums]
      rfl
  calc _ ≤ _ := Set.encard_le_encard hsubset
    _ ≤ _ := Set.encard_image_le ..
    _ = 255 * n + 1 := by
      rw [Set.encard_coe_eq_coe_finsetCard, Int.card_Icc]
      have hcard : ((127 * n + 1 - -128 * n : ℤ)).toNat = 255 * n + 1 := by omega
      rw [hcard]
      norm_num

end Sums

end Jxtd.Misc.Crypto
