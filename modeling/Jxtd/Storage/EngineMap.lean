import Jxtd.Lib.WriteOnce
import Jxtd.Storage.Areas
import Jxtd.Storage.Layout

/-!
# The engine area as a map

The id and the name of an engine are flattened into the name of one file. The area is a write-once
map of these names, and one of the pairs as far as the names differ.

* `flat`: the name of the file of a pair.
* `Holds`: what the area holds under a name; `Holds.step`: one call.
* **`engine_map_iff`**: a set of pairs sees a write-once map keyed by pairs exactly when the names
  of its pairs are different.
* `engine_names_collide`: two pairs with one name, and a file that is too long.
-/

namespace Jxtd.Storage

open Lib Posix WriteOnce

/-- The name of the file of a pair, which ends before its first zero byte. -/
def flat (k : Str × Str) : Str := cstr (Datamanager.engineFile k.1 k.2)

/-- The call for an operation on a map. -/
def engineCall : Op (Str × Str) Str → AreaOp
  | .push k engine => .enginePush k.1 k.2 engine
  | .pull k => .enginePull k.1 k.2
  | .remove k => .engineRemove k.1 k.2

/-- What the call returns. -/
def answerOf : Out Str → Answer
  | .pushed ok => .code (if ok then 0 else -1)
  | .pulled engine => .data (engine.getD [])
  | .removed => .void

/-- Contents that `int` can count. -/
def shortStr : Set Str := { s | s.length < 2 ^ 31 }

/-- The id and the name have no slash. -/
def NoSlash (k : Str × Str) : Prop := slash ∉ k.1 ∧ slash ∉ k.2

section Map

variable {d : Datamanager} {fs fs' : Fs} {p : Path} {k : Str × Str}

theorem components_flat (hk : NoSlash k) :
    components (cstr (Datamanager.engineFile k.1 k.2)) = [flat k] := by
  refine components_of_notMem fun hmem => ?_
  have hfile : slash ∈ Datamanager.engineFile k.1 k.2 := (List.takeWhile_prefix _).subset hmem
  simp only [Datamanager.engineFile, List.mem_append, hk.1, hk.2, or_false] at hfile
  revert hfile
  decide

/-- Where the file of a pair is. -/
theorem Layout.resolve_flat (h : Layout d fs p) (hk : NoSlash k) :
    fs.resolve (d.enginePath k.1 k.2) = some (p ++ [lit "engine", flat k]) := by
  have hmem : lit "engine" ∈ areas := by decide
  have hplain : Fs.Plain (flat k) := by
    obtain ⟨c, cs, hcs, hc⟩ := components_engineFile k.1 k.2
    rw [components_flat hk] at hcs
    cases hcs
    exact hc
  rw [enginePath_eq, h.resolve_area hmem, components_flat hk,
    Fs.walk_plain hplain (h.area _ hmem), List.append_assoc]
  rfl

/-- What the area holds under every name: files, and none that is too long. -/
structure Holds (d : Datamanager) (fs : Fs) (p : Path) (m : Str → Option Str) : Prop where
  layout : Layout d fs p
  file : ∀ c, fs.node (p ++ [lit "engine", c]) = (m c).map .file
  short : ∀ c engine, m c = some engine → engine ∈ shortStr

variable {m : Str → Option Str} {c engine : Str}

theorem entry_ne {c' : Str} (h : c' ≠ c) (p : Path) :
    p ++ [lit "engine", c'] ≠ p ++ [lit "engine", c] := by
  simpa using h

/-- A name is written. -/
theorem Holds.set (h : Holds d fs p m) (hnone : m (flat k) = none) (hk : NoSlash k)
    (hshort : engine ∈ shortStr) :
    Holds d (fs.set (p ++ [lit "engine", flat k]) (.file engine)) p
      (Function.update m (flat k) (some engine)) := by
  have hnode : fs.node (p ++ [lit "engine", flat k]) = none := by rw [h.file, hnone]; rfl
  have hdir : ¬ fs.IsDir (p ++ [lit "engine", flat k]) := by simp [Fs.IsDir, hnode]
  have hr := h.layout.resolve_flat hk
  rw [enginePath_eq] at hr
  refine ⟨h.layout.keepsDirs (Fs.keepsDirs_set_file hdir engine)
    (h.layout.wf_set (by decide : lit "engine" ∈ areas) hr hdir _) rfl, fun c => ?_,
    fun c engine' hc => ?_⟩
  · by_cases hc : c = flat k
    · rw [hc, Fs.node_set fs (Fs.ne_nil_of_node_none hnode), Function.update_self]
      rfl
    · rw [Fs.node_set_ne fs (entry_ne hc p), Function.update_of_ne hc, h.file]
  · by_cases hck : c = flat k
    · rw [hck, Function.update_self, Option.some_inj] at hc
      exact hc ▸ hshort
    · rw [Function.update_of_ne hck] at hc
      exact h.short c engine' hc

/-- A name is removed. -/
theorem Holds.del (h : Holds d fs p m) {c : Str} (hc : m c = some engine) :
    Holds d (fs.del (p ++ [lit "engine", c])) p (Function.update m c none) := by
  have hnode : fs.node (p ++ [lit "engine", c]) = some (.file engine) := by rw [h.file, hc]; rfl
  have hdir : ¬ fs.IsDir (p ++ [lit "engine", c]) := by simp [Fs.IsDir, hnode]
  refine ⟨h.layout.keepsDirs (Fs.keepsDirs_del hdir) (h.layout.wf.del_file hnode) rfl, fun c' => ?_,
    fun c' engine' hc' => ?_⟩
  · by_cases heq : c' = c
    · rw [heq, Fs.node_del fs (Fs.ne_nil_of_node_file hnode), Function.update_self]
      rfl
    · rw [Fs.node_del_ne fs (entry_ne heq p), Function.update_of_ne heq, h.file]
  · by_cases heq : c' = c
    · rw [heq, Function.update_self] at hc'
      cases hc'
    · rw [Function.update_of_ne heq] at hc'
      exact h.short c' engine' hc'

/-! ## Calls -/

/-- **One call** does to the names what the operation does to the map. -/
theorem Holds.step {st : State Fs} (h : Holds st.dManager st.fs p m) {op : Op (Str × Str) Str}
    (hop : op.Over { k | NoSlash k } shortStr) :
    ∃ st', areaStep localFileoperations st (engineCall op) =
        .ok (answerOf (WriteOnce.step m (op.rename flat)).1, st') ∧
      Holds st'.dManager st'.fs p (WriteOnce.step m (op.rename flat)).2 := by
  cases op with
  | push k engine =>
    have hr := h.layout.resolve_flat hop.1
    have hfile := h.file (flat k)
    cases hm : m (flat k) with
    | none =>
      rw [hm] at hfile
      have hpush := enginePush_new hr hfile engine
      rw [Op.rename, step_push_none hm]
      refine ⟨⟨st.dManager, st.fs.set (p ++ [lit "engine", flat k]) (.file engine)⟩, ?_,
        h.set hm hop.1 hop.2⟩
      rw [engineCall, areaStep, hpush]
      rfl
    | some old =>
      rw [hm] at hfile
      have hold : ∀ q, st.fs.resolve (st.dManager.enginePath k.1 k.2) = some q →
          st.fs.node q ≠ none := by
        intro q hq
        rw [hr, Option.some_inj] at hq
        rw [← hq, hfile]
        exact Option.some_ne_none _
      have hpush := enginePush_old hold engine
      rw [Op.rename, step_push_some hm]
      refine ⟨st, ?_, h⟩
      rw [engineCall, areaStep, hpush]
      rfl
  | pull k =>
    have hr := h.layout.resolve_flat hop
    have hfile := h.file (flat k)
    cases hm : m (flat k) with
    | none =>
      rw [hm] at hfile
      have hpull : st.dManager.enginePull localFileoperations st.fs k.1 k.2 = .ok ([], st.fs) :=
        Local.pull_missing fun q hq => by
          rw [hr, Option.some_inj] at hq
          rw [← hq, hfile]
          rfl
      refine ⟨st, ?_, h⟩
      rw [engineCall, areaStep, hpull, Op.rename, WriteOnce.step, hm]
      rfl
    | some engine =>
      rw [hm] at hfile
      have hpull := enginePull_file hr hfile (h.short _ engine hm)
      refine ⟨st, ?_, h⟩
      rw [engineCall, areaStep, hpull, Op.rename, WriteOnce.step, hm]
      rfl
  | remove k =>
    have hr := h.layout.resolve_flat hop
    have hfile := h.file (flat k)
    refine ⟨⟨st.dManager, st.dManager.engineRemove localFileoperations st.fs k.1 k.2⟩, rfl, ?_⟩
    cases hm : m (flat k) with
    | none =>
      rw [hm] at hfile
      have hself : Function.update m (flat k) none = m :=
        Function.update_eq_self_iff.mpr hm.symm
      rw [engineRemove_other hr (by simp [hfile]), Op.rename, WriteOnce.step, hself]
      exact h
    | some engine =>
      rw [hm] at hfile
      rw [engineRemove_file hr hfile]
      exact h.del hm

/-- **The engine area is a write-once map of the names** of its files. -/
theorem run_holds {st : State Fs} (h : Holds st.dManager st.fs p m) {ops : List (Op (Str × Str) Str)}
    (hops : ∀ op ∈ ops, op.Over { k | NoSlash k } shortStr) (answers : List Answer) :
    ∃ x, run (areaRun localFileoperations) (st, answers) (ops.map engineCall) = .ok x ∧
      x.2 = answers ++ (outs m (ops.map (Op.rename flat))).map answerOf := by
  induction ops generalizing st m answers with
  | nil => exact ⟨(st, answers), rfl, (List.append_nil answers).symm⟩
  | cons op ops ih =>
    rw [List.forall_mem_cons] at hops
    obtain ⟨st', hstep, hst'⟩ := h.step hops.1
    obtain ⟨x, hx, hanswers⟩ := ih hst' hops.2 (answers ++
      [answerOf (WriteOnce.step m (op.rename flat)).1])
    have hone : areaRun localFileoperations (st, answers) (engineCall op) = .ok (st', answers ++
        [answerOf (WriteOnce.step m (op.rename flat)).1]) := by
      rw [areaRun, hstep]
      rfl
    refine ⟨x, ?_, ?_⟩
    · rw [List.map_cons, run_cons_ok hone, hx]
    · rw [hanswers, List.map_cons, outs, List.map_cons, List.append_assoc, List.singleton_append]

end Map

/-- **The engine area as a map of pairs.** Whatever files are in the area, every sequence of calls on
pairs of a set returns what a write-once map keyed by pairs returns, in which each pair begins with
what its file holds, exactly when no two pairs of the set have one name. -/
theorem engine_map_iff {st : State Fs} {p : Path} {m : Str → Option Str}
    (h : Holds st.dManager st.fs p m) {K : Set (Str × Str)} (hK : ∀ k ∈ K, NoSlash k) :
    (∀ ops, (∀ op ∈ ops, op.Over K shortStr) → ∃ x,
      run (areaRun localFileoperations) (st, []) (ops.map engineCall) = .ok x ∧
        x.2 = (outs (m ∘ flat) ops).map answerOf) ↔ Set.InjOn flat K := by
  have hnonempty : shortStr.Nonempty := ⟨[], Nat.two_pow_pos 31⟩
  have hview : answerOf (.pushed true) ≠ answerOf (.pushed false) := by decide
  rw [← outs_rename_iff flat K hnonempty m hview]
  refine forall_congr' fun ops => imp_congr_right fun hops => ?_
  have hover : ∀ op ∈ ops, op.Over { k | NoSlash k } shortStr := by
    intro op hop
    have := hops op hop
    cases op with
    | push k engine => exact ⟨hK k this.1, this.2⟩
    | pull k => exact hK k this
    | remove k => exact hK k this
  obtain ⟨x, hx, hanswers⟩ := run_holds h hover []
  rw [List.nil_append] at hanswers
  constructor
  · rintro ⟨y, hy, hyanswers⟩
    rw [hx] at hy
    cases hy
    rw [← hanswers, hyanswers]
  · intro heq
    exact ⟨x, hx, hanswers.trans heq⟩

theorem Blank.holds {d : Datamanager} {fs : Fs} {p : Path} (h : Blank d fs p) :
    Holds d fs p fun _ => none :=
  ⟨h.toLayout, fun c => h.empty (lit "engine") (by decide) [c] (List.cons_ne_nil _ _),
    fun _ _ hc => by cases hc⟩

/-- Two pairs on a new node, with calls on both in turn. -/
theorem engine_map_newNode : ∃ x,
    run (areaRun localFileoperations) (newNode, []) ([.push (lit "a", lit "b") [0x01],
      .push (lit "c", lit "d") [0x02], .push (lit "a", lit "b") [0x03], .remove (lit "c", lit "d"),
      .pull (lit "a", lit "b"), .pull (lit "c", lit "d")].map engineCall) = .ok x ∧
    x.2 = (outs ((fun _ => none) ∘ flat) [.push (lit "a", lit "b") [0x01],
      .push (lit "c", lit "d") [0x02], .push (lit "a", lit "b") [0x03], .remove (lit "c", lit "d"),
      .pull (lit "a", lit "b"), .pull (lit "c", lit "d")]).map answerOf := by
  have hK : ∀ k ∈ ({(lit "a", lit "b"), (lit "c", lit "d")} : Set (Str × Str)), NoSlash k := by
    rintro k (rfl | rfl) <;> exact ⟨by decide, by decide⟩
  have hflat : Set.InjOn flat {(lit "a", lit "b"), (lit "c", lit "d")} := by
    rw [Set.injOn_pair]
    decide
  refine (engine_map_iff newNode_blank.holds hK).mpr hflat _ fun op hop => ?_
  have hshort (b : UInt8) : [b] ∈ shortStr := by
    change 1 < 2 ^ 31
    decide
  simp only [List.mem_cons, List.not_mem_nil, or_false] at hop
  rcases hop with rfl | rfl | rfl | rfl | rfl | rfl
  · exact ⟨.inl rfl, hshort 1⟩
  · exact ⟨.inr rfl, hshort 2⟩
  · exact ⟨.inl rfl, hshort 3⟩
  · exact .inr rfl
  · exact .inl rfl
  · exact .inr rfl

/-- Data whose size is negative as an `int` is pushed, and the pull of it ends the process. -/
theorem Holds.push_pull_long {st : State Fs} {p : Path} {m : Str → Option Str}
    (h : Holds st.dManager st.fs p m) {k : Str × Str} (hk : NoSlash k) (hm : m (flat k) = none)
    {data : Str} (hlen : Datamanager.narrow data.length < -1) :
    run (areaRun localFileoperations) (st, []) ([.push k data, .pull k].map engineCall) =
      .error .lengthError := by
  have hr := h.layout.resolve_flat hk
  have hnone : st.fs.node (p ++ [lit "engine", flat k]) = none := by
    rw [h.file, hm]
    rfl
  have hpush := enginePush_new hr hnone data
  have hfirst : areaRun localFileoperations (st, []) (engineCall (.push k data)) =
      .ok (⟨st.dManager, st.fs.set (p ++ [lit "engine", flat k]) (.file data)⟩, [.code 0]) := by
    rw [engineCall, areaRun, areaStep, hpush]
    rfl
  have hr' := (Fs.resolve_set_file hnone data _).trans hr
  have hfile := Fs.node_set st.fs (Fs.ne_nil_of_node_none hnone) (.file data)
  have hpull : st.dManager.enginePull localFileoperations
      (st.fs.set (p ++ [lit "engine", flat k]) (.file data)) k.1 k.2 = .error .lengthError :=
    Local.pull_error hr' hfile hlen
  rw [List.map_cons, run_cons_ok hfirst, List.map_cons, List.map_nil]
  refine run_cons_error ?_ []
  rw [engineCall, areaRun, areaStep, hpull]
  rfl

/-- **A file that is too long.** -/
theorem enginePull_long : run (areaRun localFileoperations) (newNode, [])
    ([.push (lit "a", lit "b") (List.replicate (2 ^ 31) 0), .pull (lit "a", lit "b")].map engineCall) =
      .error .lengthError := by
  have hlen : Datamanager.narrow (List.replicate (2 ^ 31) (0 : UInt8)).length < -1 := by
    rw [List.length_replicate]
    decide
  exact newNode_blank.holds.push_pull_long ⟨by decide, by decide⟩ rfl hlen

/-- **What a map of pairs excludes.** Of two pairs with one name the second push fails, and the pull
returns what was pushed for the first pair; the pull of a file that is too long ends the process. -/
theorem engine_names_collide : (∃ x,
    run (areaRun localFileoperations) (newNode, []) ([.push (lit "a", lit "b_c") [0x01],
      .push (lit "a_b", lit "c") [0x02], .pull (lit "a_b", lit "c")].map engineCall) = .ok x ∧
    x.2 = [.code 0, .code (-1), .data [0x01]] ∧
    x.2 ≠ (outs (fun _ => none) [.push (lit "a", lit "b_c") [0x01],
      .push (lit "a_b", lit "c") [0x02], .pull (lit "a_b", lit "c")]).map answerOf) ∧
    run (areaRun localFileoperations) (newNode, []) ([.push (lit "a", lit "b")
      (List.replicate (2 ^ 31) 0), .pull (lit "a", lit "b")].map engineCall) =
        .error .lengthError :=
  ⟨⟨_, rfl, rfl, by decide⟩, enginePull_long⟩

end Jxtd.Storage
