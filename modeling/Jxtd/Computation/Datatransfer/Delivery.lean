import Jxtd.Computation.Datatransfer.Disposal
import Jxtd.Storage.Fidelity

/-!
# The delivery of an engine

An `EnginePull` for a task at the storage and the disposal of the response at the client, one after
the other.

* `enginePull_shape`, `enginePull_bound_master`, `enginePull_same`: the answer of the storage.
* `Delivered`: every engine of the task is in the directory of the task under its own name.
* **`delivered_iff`**: exactly when this is so.
* `dependency_shadows`: a master with one dependency, which is written over it.
-/

namespace Jxtd.Computation

open Lib Posix Datatransfer Storage
open Storage.Datamanager (engineFile)
open Taskdep (Engine)

/-! ## The answer of the storage -/

section Answer

variable {adm : Datamanager} {fs fs' : Fs} {master : Adtsrc} {dtsrc : Dtsrc} {mid name data : Str}
  {deps : List Engine}

theorem pullDeps_shape {relative : Str} {out : List (Adtsrc × Str) × Fs}
    (h : Datatrans.pullDeps localFileoperations adm relative fs deps = .ok out) :
    ∀ dep ∈ out.1, dep.2 = relative ∧ dep.1.binary.length < 2 ^ 31 := by
  induction deps generalizing fs out with
  | nil =>
    cases h
    intro dep hdep
    cases hdep
  | cons eng engs ih =>
    obtain ⟨x, hx, h⟩ := bind_eq_ok.mp h
    obtain ⟨y, hy, h⟩ := bind_eq_ok.mp h
    have hrest := ih hy
    cases h
    intro dep hdep
    rcases List.mem_cons.mp hdep with rfl | hdep
    · exact ⟨rfl, Local.length_pullData hx⟩
    · exact hrest dep hdep

/-- Every answer has the id of the request, one relative path and binaries that `int` can count. -/
theorem enginePull_shape
    (h : Datatrans.enginePull localFileoperations adm fs master = .ok (dtsrc, fs')) :
    dtsrc.master.taskid = master.taskid ∧ SamePath dtsrc ∧
      ∀ content ∈ binaries dtsrc, content.length < 2 ^ 31 := by
  unfold Datatrans.enginePull at h
  dsimp only at h
  split_ifs at h
  · obtain ⟨x, hx, h⟩ := bind_eq_ok.mp h
    cases h
    refine ⟨rfl, fun dep hdep => (List.not_mem_nil hdep).elim, fun content hcontent => ?_⟩
    rw [List.mem_singleton.mp hcontent]
    exact Local.length_pullData hx
  · split at h
    · cases h
      refine ⟨rfl, fun dep hdep => (List.not_mem_nil hdep).elim, fun content hcontent => ?_⟩
      rw [List.mem_singleton.mp hcontent]
      exact Nat.two_pow_pos 31
    · obtain ⟨x, hx, h⟩ := bind_eq_ok.mp h
      obtain ⟨y, hy, h⟩ := bind_eq_ok.mp h
      have hdeps := pullDeps_shape hy
      cases h
      refine ⟨rfl, fun dep hdep => (hdeps dep hdep).1, fun content hcontent => ?_⟩
      rcases List.mem_cons.mp hcontent with rfl | hcontent
      · exact Local.length_pullData hx
      · obtain ⟨dep, hdep, rfl⟩ := List.mem_map.mp hcontent
        exact (hdeps dep hdep).2

/-- The answer for the task `0` is one by name. -/
theorem enginePull_zero (h0 : master.taskid = 0)
    (h : Datatrans.enginePull localFileoperations adm fs master = .ok (dtsrc, fs')) :
    dtsrc.master.engineattr = master.engineattr := by
  unfold Datatrans.enginePull at h
  dsimp only at h
  rw [if_pos h0] at h
  obtain ⟨x, -, h⟩ := bind_eq_ok.mp h
  cases h
  rfl

/-- The answer for a task that is bound. -/
theorem enginePull_bound_master (h0 : master.taskid ≠ 0)
    (hbound : adm.getTaskEngine master.taskid.toUInt64 = some ((mid, name), deps))
    (h : Datatrans.enginePull localFileoperations adm fs master = .ok (dtsrc, fs')) :
    dtsrc.master.engineattr = (mid, name) ∧ ∃ fs₁,
      adm.enginePull localFileoperations fs mid name = .ok (dtsrc.master.binary, fs₁) := by
  unfold Datatrans.enginePull at h
  dsimp only at h
  rw [if_neg h0, hbound] at h
  obtain ⟨x, hx, h⟩ := bind_eq_ok.mp h
  obtain ⟨y, hy, h⟩ := bind_eq_ok.mp h
  cases h
  exact ⟨rfl, _, hx⟩

theorem pullDeps_same (relative : Str)
    (hpull : ∀ g ∈ deps, adm.enginePull localFileoperations fs g.id g.name = .ok (data, fs)) :
    ∃ out, Datatrans.pullDeps localFileoperations adm relative fs deps = .ok (out, fs) ∧
      ∀ dep ∈ out, dep.1.binary = data := by
  induction deps with
  | nil => exact ⟨[], rfl, fun dep hdep => (List.not_mem_nil hdep).elim⟩
  | cons eng engs ih =>
    obtain ⟨out, hout, hdata⟩ := ih fun g hg => hpull g (List.mem_cons_of_mem _ hg)
    refine ⟨_, bind_eq_ok.mpr ⟨_, hpull eng List.mem_cons_self, bind_eq_ok.mpr ⟨_, hout, rfl⟩⟩, ?_⟩
    intro dep hdep
    rcases List.mem_cons.mp hdep with rfl | hdep
    · rfl
    · exact hdata dep hdep

/-- The answer for a task all of whose top-level dependencies have the file of the master. -/
theorem enginePull_same (h0 : master.taskid ≠ 0)
    (hbound : adm.getTaskEngine master.taskid.toUInt64 = some ((mid, name), deps))
    (hpull : adm.enginePull localFileoperations fs mid name = .ok (data, fs))
    (hfile : ∀ g ∈ deps, engineFile g.id g.name = engineFile mid name) :
    ∃ dtsrc, Datatrans.enginePull localFileoperations adm fs master = .ok (dtsrc, fs) ∧
      ∀ content ∈ binaries dtsrc, content = data := by
  have hsame (g : Engine) (hg : g ∈ deps) :
      adm.enginePull localFileoperations fs g.id g.name = .ok (data, fs) := by
    have hpath : adm.enginePath g.id g.name = adm.enginePath mid name := by
      rw [Datamanager.enginePath, hfile g hg, Datamanager.enginePath]
    rw [← hpull, Datamanager.enginePull, hpath, Datamanager.enginePull]
  obtain ⟨out, hout, hdata⟩ := pullDeps_same (lit "./" ++ engineFile mid name) hsame
  unfold Datatrans.enginePull
  dsimp only
  rw [if_neg h0, hbound]
  refine ⟨_, bind_eq_ok.mpr ⟨_, hpull, bind_eq_ok.mpr ⟨_, hout, rfl⟩⟩, fun content hcontent => ?_⟩
  rcases List.mem_cons.mp hcontent with rfl | hcontent
  · rfl
  · obtain ⟨dep, hdep, rfl⟩ := List.mem_map.mp hcontent
    exact hdata dep hdep

end Answer

/-! ## What is delivered -/

/-- An engine below a list of dependencies, at any depth. -/
inductive Within (g : Engine) : List Engine → Prop
  | here {engs : List Engine} (h : g ∈ engs) : Within g engs
  | deeper {e : Engine} {engs : List Engine} (he : e ∈ engs) (h : Within g e.deps) : Within g engs

/-- The ids and names of a master and of all that it depends on. -/
def IsKey (master : Str × Str) (deps : List Engine) (k : Str × Str) : Prop :=
  k = master ∨ ∃ g, Within g deps ∧ k = (g.id, g.name)

/-- The file of an engine in the directory of the task holds what is stored for it. -/
def Delivered (adm : Datamanager) (fs client' : Fs) (dir : Path) (k : Str × Str) : Prop :=
  ∃ data, fs.contents (adm.enginePath k.1 k.2) = some data ∧
    client'.node (dir ++ [engineFile k.1 k.2]) = some (.file data)

/-- The storage answers an `EnginePull` for a task, the client disposes of the answer, and every
engine of the task is delivered. -/
def DeliversAll (adm : Datamanager) (fs client : Fs) (t : UInt64) (master : Str × Str)
    (deps : List Engine) : Prop :=
  ∃ dtsrc fs' names client',
    Datatrans.enginePull localFileoperations adm fs { Adtsrc.new with taskid := t.toUInt32 } =
      .ok (dtsrc, fs') ∧
    respDispose [] client dtsrc = some (names, client') ∧
    ∀ k, IsKey master deps k → Delivered adm fs client' (taskDir client t.toNat) k

/-- The id fits into the message, the id and the name of the master make a file name, its binary is
not empty, and no dependency at any depth has another file. -/
structure Deliverable (adm : Datamanager) (fs : Fs) (t : UInt64) (master : Str × Str)
    (deps : List Engine) : Prop where
  pos : t ≠ 0
  lt : t.toNat < 2 ^ 32
  id : master.1 ≠ []
  name : master.2 ≠ []
  cleanId : Clean master.1
  cleanName : Clean master.2
  stored : ∃ data, fs.contents (adm.enginePath master.1 master.2) = some data ∧ data ≠ [] ∧
    data.length < 2 ^ 31
  file : ∀ g, Within g deps → engineFile g.id g.name = engineFile master.1 master.2

section Delivery

variable {adm : Datamanager} {fs client : Fs} {t : UInt64} {master : Str × Str}
  {deps : List Engine}

theorem Deliverable.delivers (hbound : adm.getTaskEngine t = some (master, deps))
    (h : Deliverable adm fs t master deps)
    (hclient : Accepts client t.toNat (engineFile master.1 master.2)) :
    DeliversAll adm fs client t master deps := by
  obtain ⟨data, hdata, hne, hlen⟩ := h.stored
  obtain ⟨p, hr, hp⟩ := Fs.of_contents hdata
  have hpull : adm.enginePull localFileoperations fs master.1 master.2 = .ok (data, fs) :=
    enginePull_file hr hp hlen
  have h0 : ({ Adtsrc.new with taskid := t.toUInt32 } : Adtsrc).taskid ≠ 0 :=
    toUInt32_ne_zero h.pos h.lt
  have hget : adm.getTaskEngine t.toUInt32.toUInt64 = some ((master.1, master.2), deps) := by
    rw [toUInt64_toUInt32 h.lt, hbound]
  obtain ⟨dtsrc, hout, hsame⟩ := enginePull_same h0 hget hpull fun g hg => h.file g (.here hg)
  obtain ⟨htaskid, hpath, -⟩ := enginePull_shape hout
  obtain ⟨hattr, -⟩ := enginePull_bound_master h0 hget hout
  have hid : dtsrc.master.taskid.toNat = t.toNat := by
    rw [htaskid]
    show t.toUInt32.toNat = t.toNat
    rw [UInt64.toNat_toUInt32, Nat.mod_eq_of_lt h.lt]
  have hbinary : dtsrc.master.binary ≠ [] := by
    rw [hsame _ List.mem_cons_self]
    exact hne
  obtain ⟨names, client', hdispose, content, hmem, hnode⟩ :=
    hclient.respDispose hpath hid hattr h.id h.name hbinary h.cleanId h.cleanName []
  obtain rfl := hsame content hmem
  refine ⟨dtsrc, fs, names, client', hout, hdispose, fun k hk => ⟨content, ?_⟩⟩
  rcases hk with rfl | ⟨g, hg, rfl⟩
  · exact ⟨hdata, hnode⟩
  · have hfile := h.file g hg
    rw [Datamanager.enginePath] at hdata
    rw [Datamanager.enginePath, hfile]
    exact ⟨hdata, hnode⟩

/-- A task whose directory is still to be made. -/
theorem DeliversAll.deliverable (hbound : adm.getTaskEngine t = some (master, deps))
    (hclient : Ready client) (hnew : client.node (taskDir client t.toNat) = none)
    (h : DeliversAll adm fs client t master deps) : Deliverable adm fs t master deps := by
  obtain ⟨dtsrc, fs', names, client', hout, hdispose, hall⟩ := h
  obtain ⟨htaskid, hpath, hlen⟩ := enginePull_shape hout
  have hnewFile {f b : Str} (hfile : client'.node (taskDir client t.toNat ++ [f]) = some (.file b)) :=
    respDispose_new hclient hpath hdispose hnew hfile
  obtain ⟨data, hdata, hmaster⟩ := hall master (.inl rfl)
  obtain ⟨⟨hid, hname, hbinary⟩, hdir, hclean, hmem, fs₁, hmk, hr⟩ := hnewFile hmaster
  -- the client writes into the directory of the id that the message holds
  have hlow : t.toNat = t.toNat % 2 ^ 32 := by
    have := taskDir_injective client hdir
    rwa [htaskid, show ({ Adtsrc.new with taskid := t.toUInt32 } : Adtsrc).taskid = t.toUInt32 from rfl,
      UInt64.toNat_toUInt32] at this
  have hlt : t.toNat < 2 ^ 32 := by omega
  have hpos : t ≠ 0 := by
    rintro rfl
    rw [enginePull_zero rfl hout] at hid
    exact hid rfl
  have h0 := toUInt32_ne_zero hpos hlt
  have hget : adm.getTaskEngine t.toUInt32.toUInt64 = some ((master.1, master.2), deps) := by
    rw [toUInt64_toUInt32 hlt, hbound]
  obtain ⟨hattr, fs₂, hpull⟩ := enginePull_bound_master h0 hget hout
  rw [hattr] at hid hname
  obtain ⟨hcid, hcname⟩ := clean_of_engineFile hclean
  have hlen := hlen data hmem
  refine ⟨hpos, hlt, hid, hname, hcid, hcname, ⟨data, hdata, ?_, hlen⟩, fun g hg => ?_⟩
  · rintro rfl
    obtain ⟨p, hr, hp⟩ := Fs.of_contents hdata
    rw [enginePull_file hr hp hlen] at hpull
    exact hbinary (congrArg Prod.fst (Except.ok.inj hpull)).symm
  · obtain ⟨data', -, hnode⟩ := hall (g.id, g.name) (.inr ⟨g, hg, rfl⟩)
    obtain ⟨-, -, -, -, fs₁', hmk', hr'⟩ := hnewFile hnode
    cases hmk.symm.trans hmk'
    have := Option.some.inj (hr'.symm.trans hr)
    exact List.singleton_inj.mp (List.append_cancel_left this)

/-- **Exactly when an engine with dependencies is delivered.** If a task is deliverable, it is
delivered to every client where nothing is in the way; if not, to no client whose directory for the
task is still to be made. -/
theorem delivered_iff (hbound : adm.getTaskEngine t = some (master, deps)) :
    ((∀ client, Accepts client t.toNat (engineFile master.1 master.2) →
      DeliversAll adm fs client t master deps) ↔ Deliverable adm fs t master deps) ∧
    ∀ client, Ready client → client.node (taskDir client t.toNat) = none →
      (DeliversAll adm fs client t master deps ↔ Deliverable adm fs t master deps) := by
  have hnew (client : Fs) (hclient : Ready client)
      (hnone : client.node (taskDir client t.toNat) = none) :
      DeliversAll adm fs client t master deps ↔ Deliverable adm fs t master deps :=
    ⟨fun h => h.deliverable hbound hclient hnone,
      fun h => h.delivers hbound (hclient.accepts hnone _)⟩
  refine ⟨⟨fun h => ?_, fun h client hclient => h.delivers hbound hclient⟩, hnew⟩
  have hclient := ready_empty
  have hnone : (⟨∅, ∅, []⟩ : Fs).node (taskDir ⟨∅, ∅, []⟩ t.toNat) = none := rfl
  exact (hnew _ hclient hnone).mp (h _ (hclient.accepts hnone _))

end Delivery

/-- A new node with the engines `(m, e)` and `(d, x)`, the first bound to the task `5`. -/
def twoEngines (deps : List Engine) : State Fs :=
  let d := newNode.dManager
  let (_, fs) := d.enginePush localFileoperations newNode.fs (lit "m") (lit "e") [0x01]
  let (_, fs) := d.enginePush localFileoperations fs (lit "d") (lit "x") [0x02]
  accept localFileoperations ⟨d, fs⟩ 5 { Engine.new with id := lit "m", name := lit "e", deps := deps }

theorem delivered_iff_twoEngines :
    DeliversAll (twoEngines []).dManager (twoEngines []).fs ⟨∅, ∅, []⟩ 5 (lit "m", lit "e") [] := by
  have hbound : (twoEngines []).dManager.getTaskEngine 5 = some ((lit "m", lit "e"), []) := rfl
  have hnil (g : Engine) (hg : Within g []) : False := by
    cases hg with
    | here h => cases h
    | deeper he h => cases he
  refine ((delivered_iff hbound).2 ⟨∅, ∅, []⟩ ready_empty rfl).mpr ?_
  exact ⟨by decide, by decide, by decide, by decide, by decide, by decide,
    ⟨[0x01], rfl, by decide, by decide⟩, fun g hg => (hnil g hg).elim⟩

/-- The dependency of `dependency_shadows`. -/
def dependency : Engine := { Engine.new with id := lit "d", name := lit "x" }

/-- **A dependency is written over its master.** -/
theorem dependency_shadows :
    (twoEngines [dependency]).dManager.getTaskEngine 5 =
      some ((lit "m", lit "e"), [dependency]) ∧
    (twoEngines [dependency]).fs.contents (lit "/data/engine/JXTDENGINE_m_e.so") = some [0x01] ∧
    (twoEngines [dependency]).fs.contents (lit "/data/engine/JXTDENGINE_d_x.so") = some [0x02] ∧
    ¬ DeliversAll (twoEngines [dependency]).dManager (twoEngines [dependency]).fs ⟨∅, ∅, []⟩ 5
      (lit "m", lit "e") [dependency] ∧
    ∃ dtsrc fs names client,
      Datatrans.enginePull localFileoperations (twoEngines [dependency]).dManager
        (twoEngines [dependency]).fs { Adtsrc.new with taskid := 5 } = .ok (dtsrc, fs) ∧
      respDispose [] ⟨∅, ∅, []⟩ dtsrc = some (names, client) ∧
      client.node [lit "Task_5", lit "JXTDENGINE_m_e.so"] = some (.file [0x02]) ∧
      client.node [lit "Task_5", lit "JXTDENGINE_d_x.so"] = none := by
  refine ⟨rfl, rfl, rfl, fun h => ?_, _, _, _, _, rfl, rfl, rfl, rfl⟩
  have hfile := (h.deliverable rfl ready_empty rfl).file dependency (.here List.mem_cons_self)
  revert hfile
  decide

end Jxtd.Computation
