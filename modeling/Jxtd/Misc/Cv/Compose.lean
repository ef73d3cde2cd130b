import Jxtd.Lib.Bytes
import Jxtd.Lib.CInt
import Jxtd.Lib.Run
import Mathlib.Data.List.Flatten
import Mathlib.Logic.Function.Basic

/-!
# Composed transforms

`Compose` and `Transforms` of `misc/cv`. Sizes are kept in an `int`, and a loop that runs over one
is undefined from `2 ^ 31` on.

* `Transforms`, `Compose`, `pushBack`, `popBack`, `addCompose`, `start`: the classes.
* `pushSelf`: a `Compose` pushed to itself, of which the range insertion leaves anything.
* `Stack`: the stages as an abstract stack; `step_refines`: a step does to the stages what it should.
* `popBack_pushBack`, `start_addCompose`: the two functions of a `Compose` in step.
* **`run_inStep`**: the flat list is that of the stages in every run that meets the conditions.
* `inStep_pushSelf_iff`, `inStep_popBack_iff`: a step that does not meet them breaks it.
-/

namespace Jxtd.Misc.Cv

open Lib

/-- The functions, the output and the name. -/
structure Transforms (τ : Type) where
  name : Str
  trans : List (τ → τ)
  buf : τ

/-- The flat list of functions, and the sequence of stages. -/
structure Compose (τ : Type) extends Transforms τ where
  transSeq : List (Transforms τ)

/-- `transforms_pool` -/
abbrev Pool (τ : Type) := Str → Option (Transforms τ)

variable {τ : Type}

namespace Compose

/-- `push_back` -/
def pushBack (c : Compose τ) (transforms : Transforms τ) : Compose τ :=
  { c with
    trans := c.trans ++ transforms.trans
    transSeq := c.transSeq ++ [transforms] }

/-- `push_back` of the `Compose` itself. The iterators of the insertion point into the list that
grows, so that it may leave anything; what it leaves is the list of the new stage too. -/
def pushSelf (c : Compose τ) (grown : List (τ → τ)) : Compose τ :=
  { c with
    trans := grown
    transSeq := c.transSeq ++ [{ c.toTransforms with trans := grown }] }

/-- `pop_back` of a vector, some times. -/
def popTimes {α : Type} : ℕ → List α → Option (List α)
  | 0, l => some l
  | n + 1, l => if l.isEmpty then none else popTimes n l.dropLast

/-- `pop_back`; none where it is undefined. -/
def popBack (c : Compose τ) : Option (Compose τ) :=
  let size := toInt c.transSeq.length
  if size - 1 < 0 then none
  else
    (c.transSeq[(size - 1).toNat]?).bind fun transforms =>
      let tSize := toInt transforms.trans.length
      (popTimes tSize.toNat c.trans).map fun trans =>
        { c with trans := trans, transSeq := c.transSeq.dropLast }

/-- The constructor from a vector of transforms. -/
def ofTransforms [Inhabited τ] (transforms : List (Transforms τ)) : Option (Compose τ) :=
  if transforms.length < 2 ^ 31 then some (transforms.foldl pushBack ⟨⟨[], [], default⟩, []⟩)
  else none

end Compose

namespace Transforms

/-- `add_compose` -/
def addCompose (t : Transforms τ) (compose : Compose τ) (pool : Pool τ) : Transforms τ × Pool τ :=
  let t := { t with trans := t.trans ++ compose.trans }
  (t, Function.update pool t.name (some t))

/-- `start`; none where the loop is undefined. -/
def start (t : Transforms τ) (tensor : τ) (pool : Pool τ) : Option (Transforms τ × Pool τ) :=
  if t.trans.length < 2 ^ 31 then
    let t := { t with buf := t.trans.foldl (fun tmp f => f tmp) tensor }
    some (t, Function.update pool t.name (some t))
  else none

end Transforms

/-- The functions of the stages. -/
def Compose.stages (c : Compose τ) : List (List (τ → τ)) := c.transSeq.map (·.trans)

/-- **The flat list is that of the stages.** -/
def InStep (c : Compose τ) : Prop := c.trans = c.stages.flatten

/-! ## Runs -/

inductive Op (τ : Type)
  | push (transforms : Transforms τ)
  | self (grown : List (τ → τ))
  | pop

def step (c : Compose τ) : Op τ → Except Unit (Compose τ)
  | .push transforms => .ok (c.pushBack transforms)
  | .self grown => .ok (c.pushSelf grown)
  | .pop => c.popBack.elim (.error ()) .ok

/-- The stages, as a stack with its top at the end. -/
abbrev Stack (τ : Type) := List (List (τ → τ))

namespace Stack

/-- What a step should do to the stages. -/
def step (s : Stack τ) : Op τ → Stack τ
  | .push transforms => s ++ [transforms.trans]
  | .self grown => s ++ [grown]
  | .pop => s.dropLast

/-- There is a stage to remove, the sizes are those of an `int`, and a `Compose` is pushed to itself
only while it has no functions. -/
def Meets (s : Stack τ) : Op τ → Prop
  | .push _ => True
  | .self _ => s.flatten = []
  | .pop => s.length < 2 ^ 31 ∧ ∃ fs, s.getLast? = some fs ∧ fs.length < 2 ^ 31

end Stack

variable {c c' : Compose τ} {t : Transforms τ}

@[simp] theorem stages_pushBack (c : Compose τ) (t : Transforms τ) :
    (c.pushBack t).stages = c.stages ++ [t.trans] := by
  simp [Compose.stages, Compose.pushBack]

@[simp] theorem stages_pushSelf (c : Compose τ) (grown : List (τ → τ)) :
    (c.pushSelf grown).stages = c.stages ++ [grown] := by
  simp [Compose.stages, Compose.pushSelf]

theorem InStep.pushBack (h : InStep c) (t : Transforms τ) : InStep (c.pushBack t) := by
  rw [InStep, stages_pushBack, List.flatten_concat, ← h]
  rfl

/-- Whatever the insertion leaves, it is in step only behind an empty list. -/
theorem inStep_pushSelf_iff (h : InStep c) (grown : List (τ → τ)) :
    InStep (c.pushSelf grown) ↔ c.trans = [] := by
  rw [InStep, stages_pushSelf, List.flatten_concat, ← h]
  exact List.self_eq_append_left

/-! ## The end of a list -/

theorem popTimes_eq {α : Type} {n : ℕ} {l : List α} (h : n ≤ l.length) :
    Compose.popTimes n l = some (l.take (l.length - n)) := by
  induction n generalizing l with
  | zero => rw [Compose.popTimes, Nat.sub_zero, List.take_length]
  | succ n ih =>
    have hne : l.isEmpty = false := by
      rw [List.isEmpty_eq_false_iff, ← List.length_pos_iff]
      omega
    rw [Compose.popTimes, hne, if_neg Bool.false_ne_true, ih (by rw [List.length_dropLast]; omega),
      List.length_dropLast, List.dropLast_eq_take, List.take_take]
    congr 2
    omega

theorem popTimes_append {α : Type} (l u : List α) :
    Compose.popTimes u.length (l ++ u) = some l := by
  rw [popTimes_eq (by simp), List.length_append, Nat.add_sub_cancel, List.take_left]

/-- What `pop_back` does to a `Compose` with few stages. -/
theorem popBack_eq {ts : List (Transforms τ)} (hts : c.transSeq = ts ++ [t])
    (hlen : c.transSeq.length < 2 ^ 31) :
    c.popBack = (Compose.popTimes (toInt t.trans.length).toNat c.trans).map fun trans =>
      { c with trans := trans, transSeq := ts } := by
  rw [hts] at hlen
  have hsize : toInt (ts ++ [t]).length - 1 = ts.length := by
    rw [toInt_of_lt hlen, List.length_append, List.length_singleton]
    omega
  have hneg : ¬ (ts.length : ℤ) < 0 := by omega
  rw [Compose.popBack]
  dsimp only
  rw [hts, hsize, if_neg hneg, Int.toNat_natCast, List.getElem?_concat_length, Option.bind_some,
    List.dropLast_concat]

/-- **The last stage is removed** with exactly its functions. -/
theorem popBack_of_small {ts : List (Transforms τ)} (h : InStep c) (hts : c.transSeq = ts ++ [t])
    (hlen : c.transSeq.length < 2 ^ 31) (ht : t.trans.length < 2 ^ 31) :
    c.popBack =
      some { c with trans := (ts.map (·.trans)).flatten, transSeq := ts } := by
  have htrans : c.trans = (ts.map (·.trans)).flatten ++ t.trans := by
    rw [h, Compose.stages, hts, List.map_append, List.flatten_append]
    simp
  rw [popBack_eq hts hlen, toInt_of_lt ht, Int.toNat_natCast, htrans, popTimes_append]
  rfl

/-- **Pushing and popping** leaves the `Compose` as it was. -/
theorem popBack_pushBack (h : InStep c) (hlen : c.transSeq.length + 1 < 2 ^ 31)
    (ht : t.trans.length < 2 ^ 31) : (c.pushBack t).popBack = some c := by
  have hseq : (c.pushBack t).transSeq = c.transSeq ++ [t] := rfl
  have hpush := popBack_of_small (h.pushBack t) hseq
    (by simpa [Compose.pushBack] using hlen) ht
  rw [hpush]
  have hflat : (c.transSeq.map (·.trans)).flatten = c.trans := h.symm
  rw [hflat]
  rfl

/-- A stage whose size is none of an `int` is removed with other functions than its own. -/
theorem inStep_popBack_iff {ts : List (Transforms τ)} (h : InStep c) (hts : c.transSeq = ts ++ [t])
    (hlen : c.transSeq.length < 2 ^ 31) :
    (∃ c', c.popBack = some c' ∧ InStep c') ↔ t.trans.length < 2 ^ 31 := by
  constructor
  · rintro ⟨c', hpop, hc'⟩
    rw [popBack_eq hts hlen] at hpop
    obtain ⟨trans, htimes, rfl⟩ := Option.map_eq_some_iff.mp hpop
    have hle := toInt_le t.trans.length
    have htrans : c.trans.length = (ts.map (·.trans)).flatten.length + t.trans.length := by
      rw [h, Compose.stages, hts, List.map_append, List.flatten_append, List.length_append]
      simp
    rw [popTimes_eq (by omega)] at htimes
    have hlength := congrArg List.length (Option.some.inj htimes)
    rw [InStep, Compose.stages] at hc'
    simp only at hc'
    rw [hc', List.length_take] at hlength
    have hsame : toInt t.trans.length = t.trans.length ∨ t.trans.length = 0 := by omega
    rcases hsame with hsame | hzero
    · exact (toInt_eq_iff _).mp hsame
    · omega
  · intro ht
    exact ⟨_, popBack_of_small h hts hlen ht, rfl⟩

/-! ## The result -/

/-- A step does to the stages what it should, and keeps the list in step. -/
theorem step_refines {s : Stack τ} {op : Op τ} (hR : c.stages = s ∧ InStep c) (hop : s.Meets op) :
    ∃ c', step c op = .ok c' ∧ c'.stages = s.step op ∧ InStep c' := by
  obtain ⟨rfl, h⟩ := hR
  cases op with
  | push t => exact ⟨_, rfl, stages_pushBack c t, h.pushBack t⟩
  | self grown =>
    refine ⟨_, rfl, stages_pushSelf c grown, (inStep_pushSelf_iff h grown).mpr ?_⟩
    exact h.trans hop
  | pop =>
    obtain ⟨hlen, fs, hlast, hfs⟩ := hop
    rw [Compose.stages, List.length_map] at hlen
    rw [Compose.stages, List.getLast?_map] at hlast
    obtain ⟨t, ht, rfl⟩ := Option.map_eq_some_iff.mp hlast
    obtain ⟨ts, hts⟩ := List.getLast?_eq_some_iff.mp ht
    have hpop := popBack_of_small h hts hlen hfs
    refine ⟨{ c with trans := (ts.map (·.trans)).flatten, transSeq := ts }, ?_, ?_, rfl⟩
    · rw [step, hpop, Option.elim_some]
    · simp [Stack.step, Compose.stages, hts]

theorem ofTransforms_inStep [Inhabited τ] {ts : List (Transforms τ)} (hts : ts.length < 2 ^ 31) :
    ∃ c, Compose.ofTransforms ts = some c ∧ c.stages = ts.map (·.trans) ∧ InStep c := by
  rw [Compose.ofTransforms, if_pos hts]
  refine ⟨_, rfl, ?_⟩
  have hfold : ∀ (ts : List (Transforms τ)) (c : Compose τ), InStep c →
      (ts.foldl Compose.pushBack c).stages = c.stages ++ ts.map (·.trans) ∧
        InStep (ts.foldl Compose.pushBack c) := by
    intro ts
    induction ts with
    | nil => exact fun c h => ⟨(List.append_nil _).symm, h⟩
    | cons t ts ih =>
      intro c h
      obtain ⟨hstages, hstep⟩ := ih (c.pushBack t) (h.pushBack t)
      refine ⟨?_, hstep⟩
      rw [List.foldl_cons, hstages, stages_pushBack]
      simp
  exact hfold ts _ rfl

/-- A `Compose` that is added is applied after what was there, stage by stage. -/
theorem start_addCompose (h : InStep c) (pool : Pool τ) (tensor : τ)
    (hlen : t.trans.length + c.trans.length < 2 ^ 31) :
    ∃ t' pool', (t.addCompose c pool).1.start tensor (t.addCompose c pool).2 = some (t', pool') ∧
      t'.buf = c.stages.flatten.foldl (fun tmp f => f tmp)
        (t.trans.foldl (fun tmp f => f tmp) tensor) := by
  have hsmall : (t.addCompose c pool).1.trans.length < 2 ^ 31 := by
    simpa [Transforms.addCompose] using hlen
  rw [Transforms.start, if_pos hsmall]
  refine ⟨_, _, rfl, ?_⟩
  rw [← h, ← List.foldl_append]
  rfl

/-- A `Compose` in step removes what was pushed, and is applied as its stages are. -/
structure Faithful (c : Compose τ) : Prop where
  inStep : c.trans = (c.transSeq.map (·.trans)).flatten
  undo : ∀ t : Transforms τ, c.transSeq.length + 1 < 2 ^ 31 → t.trans.length < 2 ^ 31 →
    (c.pushBack t).popBack = some c
  applied : ∀ (t : Transforms τ) (pool : Pool τ) (tensor : τ),
    t.trans.length + c.trans.length < 2 ^ 31 →
      ∃ t' pool', (t.addCompose c pool).1.start tensor (t.addCompose c pool).2 = some (t', pool') ∧
        t'.buf = (c.transSeq.map (·.trans)).flatten.foldl (fun tmp f => f tmp)
          (t.trans.foldl (fun tmp f => f tmp) tensor)

/-- **Every run that meets the conditions** keeps the flat list that of the stages. -/
theorem run_inStep [Inhabited τ] {ts : List (Transforms τ)} {ops : List (Op τ)}
    (hts : ts.length < 2 ^ 31) (hops : Along Stack.Meets Stack.step (ts.map (·.trans)) ops) :
    ∃ c c', Compose.ofTransforms ts = some c ∧ run step c ops = .ok c' ∧
      c'.transSeq.map (·.trans) = ops.foldl Stack.step (ts.map (·.trans)) ∧ Faithful c' := by
  obtain ⟨c, hc, hR⟩ := ofTransforms_inStep hts
  obtain ⟨c', hrun, hstages, h⟩ := run_simulates step Stack.Meets Stack.step
    (fun (c : Compose τ) s => c.stages = s ∧ InStep c) (fun _ _ _ hR hop => step_refines hR hop)
    hR hops
  exact ⟨c, c', hc, hrun, hstages, h, fun t hlen ht => popBack_pushBack h hlen ht,
    fun t pool tensor hlen => start_addCompose h pool tensor hlen⟩

/-! ## Two stages of numbers -/

/-- One function that counts. -/
def counter : Transforms ℕ := ⟨lit "tran1", [Nat.succ], 0⟩

theorem run_inStep_counter :
    ∃ c c', Compose.ofTransforms [counter] = some c ∧
      run step c [.push counter, .pop] = .ok c' ∧
      c'.transSeq.map (·.trans) =
        [Op.push counter, .pop].foldl Stack.step ([counter].map (·.trans)) ∧ Faithful c' :=
  run_inStep (by simp) ⟨trivial, ⟨by simp [Stack.step], [Nat.succ], rfl, by simp⟩, trivial⟩

/-- **A `Compose` that is pushed to itself** doubles its list, and has three functions in its two
stages. -/
theorem not_inStep_self : ∃ c c', Compose.ofTransforms [counter] = some c ∧
    run step c [.self (c.trans ++ c.trans)] = .ok c' ∧
      c'.trans ≠ (c'.transSeq.map (·.trans)).flatten := by
  have hts : [counter].length < 2 ^ 31 := by simp
  obtain ⟨c, hc, hstages, h⟩ := ofTransforms_inStep hts
  refine ⟨c, _, hc, rfl, fun hself => ?_⟩
  have hnil := (inStep_pushSelf_iff h _).mp hself
  rw [h, hstages] at hnil
  exact List.cons_ne_nil _ _ hnil

end Jxtd.Misc.Cv
