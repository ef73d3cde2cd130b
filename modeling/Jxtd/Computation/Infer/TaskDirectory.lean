import Jxtd.Computation.Datatransfer.Delivery
import Jxtd.Computation.Infer.Submission

/-!
# The directory of a task

`drccp_on_server_receive_payload` on the file system of the node: the pull writes the engine below
`../Task_<id>`, and what is removed in the end is `computation/Task_<id>`.

* `Payload`, `pullDtsrcs`, `payloadStep`: one payload, with the storage that answers its pull.
* `receivePayload_of_step`: the result is that of `receivePayload`.
* `Brings`: the pull brings an engine that is written.
* **`task_directory_iff`**: exactly when the directory of the task is gone in the end; the library
  that is loaded is always one of the answer.
-/

namespace Jxtd.Infer

open Lib Posix Taskdep Jxtd.Computation Jxtd.Storage
open Datatransfer (Adtsrc Dtsrc)
open Storage.Datamanager (engineFile)

/-- What ends the node: a fault, or an exception in the callback of the pull. -/
inductive PayloadFault
  | fault (f : Fault)
  | exception
  deriving DecidableEq

/-- A payload, and the manager and the files of the storage when its pull is answered; nothing for a
pull that fails. -/
structure Payload where
  binary : Str
  storage : Option (Datamanager × Fs)

section Step

variable (codec : SubmitCodec) (runEngine : Option Str → Str × Str → Str → Except Fault (Option Str))
  (src token : Str)

/-- The request of the pull. -/
def engineRequest (req : SubmitRequest) : Datatransfer.Request :=
  let request := ((Datatransfer.Request.new.setToken token).setDest req.inputPath).setSrc src
  (request.setDirection 0x0).2.addAdtsrc (engineRecord req)

/-- The sources in the answer. -/
def pullDtsrcs (req : SubmitRequest) (storage : Option (Datamanager × Fs)) : List Dtsrc :=
  match storage with
  | none => []
  | some (adm, fs) =>
    match Datatrans.process localFileoperations adm fs (engineRequest src token req) with
    | .error _ => []
    | .ok (resp, _) => resp.dtsrcs

/-- What `dlopen` finds, given the names that the pull has filled in. -/
def library (taskid : UInt32) (st : DataState) (midName : Str × Str) : Option Str :=
  st.fs.contents (libraryPath taskid midName)

/-- The path that is removed in the end. -/
def removedPath (taskid : UInt32) : Str := lit "computation/Task_" ++ decimal taskid.toNat

/-- `drccp_on_server_receive_payload` on the files of the node. -/
def payloadStep (fs : Fs) (payload : Payload) : Except PayloadFault (Str × Fs) :=
  let req := codec.parseRequest payload.binary
  match readInput req with
  | .error f => .error (.fault f)
  | .ok none => .ok ([], fs)
  | .ok (some input) =>
    match callBack ⟨[], [], fs⟩ (pullDtsrcs src token req payload.storage) with
    | none => .error .exception
    | some st =>
      match st.masterMidName with
      | [midName] =>
        match runEngine (library req.taskid st midName) midName input with
        | .error f => .error (.fault f)
        | .ok output =>
          .ok (codec.dumpResponse (payloadResponse req output),
            st.fs.removeAll (removedPath req.taskid))
      | _ => .ok (codec.dumpResponse (payloadResponse req none), st.fs)

end Step

variable {codec : SubmitCodec} {runEngine : Option Str → Str × Str → Str → Except Fault (Option Str)}
  {src token : Str} {fs fs' fs₀ : Fs} {payload : Payload} {result : Str}

/-- **The result is that of `receivePayload`**, in a world with the same pull and the same library. -/
theorem receivePayload_of_step
    (h : payloadStep codec runEngine src token fs payload = .ok (result, fs')) :
    ∃ world, receivePayload codec world payload.binary = .ok result := by
  unfold payloadStep at h
  dsimp only at h
  split at h
  · cases h
  · rename_i hinput
    cases h
    refine ⟨⟨fun _ => [], fun _ _ _ => .ok none⟩, ?_⟩
    rw [receivePayload]
    simp only [hinput]
  · rename_i input hinput
    split at h
    · cases h
    · rename_i st hst
      refine ⟨⟨fun _ => st.masterMidName, fun path midName input =>
        runEngine (st.fs.contents path) midName input⟩, ?_⟩
      rw [receivePayload]
      cases hnames : st.masterMidName with
      | nil =>
        simp only [hnames] at h
        cases h
        simp only [hinput, engineOutput]
        rfl
      | cons midName rest =>
        cases rest with
        | nil =>
          simp only [hnames] at h
          cases hrun : runEngine (library (codec.parseRequest payload.binary).taskid st midName)
              midName input with
          | error f =>
            simp only [hrun] at h
            cases h
          | ok output =>
            simp only [hrun] at h
            cases h
            simp only [hinput, engineOutput]
            exact map_eq_ok.mpr ⟨output, hrun, rfl⟩
        | cons midName' rest =>
          simp only [hnames] at h
          cases h
          simp only [hinput, engineOutput]
          rfl

/-! ## The answer of the storage -/

/-- The engine of a source is written. -/
def Complete (dtsrc : Dtsrc) : Prop :=
  dtsrc.master.engineattr.1 ≠ [] ∧ dtsrc.master.engineattr.2 ≠ [] ∧ dtsrc.master.binary ≠ []

instance (dtsrc : Dtsrc) : Decidable (Complete dtsrc) := inferInstanceAs (Decidable (_ ∧ _ ∧ _))

theorem enginePull_type {adm : Datamanager} {fs : Fs} {master : Adtsrc} {out : Dtsrc × Fs}
    (h : Datatrans.enginePull localFileoperations adm fs master = .ok out) :
    out.1.master.type = 0x0 := by
  unfold Datatrans.enginePull at h
  dsimp only at h
  split_ifs at h
  · obtain ⟨x, -, h⟩ := bind_eq_ok.mp h
    cases h
    rfl
  · split at h
    · cases h
      rfl
    · obtain ⟨x, -, h⟩ := bind_eq_ok.mp h
      obtain ⟨y, -, h⟩ := bind_eq_ok.mp h
      cases h
      rfl

/-- **The answer** is one engine of the task, with dependencies under its own path, or nothing. -/
theorem pullDtsrcs_cases (src token : Str) (req : SubmitRequest)
    (storage : Option (Datamanager × Fs)) :
    pullDtsrcs src token req storage = [] ∨ ∃ dtsrc, pullDtsrcs src token req storage = [dtsrc] ∧
      dtsrc.master.type = 0x0 ∧ dtsrc.master.taskid = req.taskid ∧ SamePath dtsrc := by
  unfold pullDtsrcs
  split
  · exact .inl rfl
  · rename_i adm sfs
    split
    · exact .inl rfl
    · rename_i resp sfs' hprocess
      right
      obtain ⟨x, hx, hrest⟩ := bind_eq_ok.mp hprocess
      obtain ⟨⟨dtsrc, sfs₁⟩, hpull, hsome⟩ := bind_eq_ok.mp hx
      cases hsome
      cases hrest
      obtain ⟨htaskid, hpath, -⟩ := enginePull_shape hpull
      exact ⟨dtsrc, rfl, enginePull_type hpull, htaskid, hpath⟩

/-- The pull of a payload brings an engine that is written. -/
def Brings (codec : SubmitCodec) (src token : Str) (payload : Payload) : Prop :=
  let req := codec.parseRequest payload.binary
  readInput req ≠ .ok none ∧ ∃ dtsrc ∈ pullDtsrcs src token req payload.storage, Complete dtsrc

/-! ## The engine in its directory -/

theorem complete_iff {dtsrc : Dtsrc} : Complete dtsrc ↔ ¬ (dtsrc.master.engineattr.1 = [] ∨
    dtsrc.master.engineattr.2 = [] ∨ dtsrc.master.binary = []) := by
  rw [not_or, not_or]
  rfl

theorem respDispose_incomplete {names : List (Str × Str)} {dtsrc : Dtsrc} (h : ¬ Complete dtsrc) :
    respDispose names fs dtsrc = some (names, fs) := by
  rw [complete_iff, not_not] at h
  rw [respDispose]
  dsimp only
  rw [if_pos h]

/-- An engine with its names in its directory, and in its file, unless this cannot be opened. -/
structure Disposed (client client' : Fs) (names names' : List (Str × Str)) (dtsrc : Dtsrc) : Prop where
  names : names' = names ++ [dtsrc.master.engineattr]
  ready : Ready client'
  isDir : client'.IsDir (taskDir client dtsrc.master.taskid.toNat)
  contents : ∀ content, client'.contents (taskPath dtsrc.master.taskid.toNat ++
    engineFile dtsrc.master.engineattr.1 dtsrc.master.engineattr.2) = some content →
      content ∈ binaries dtsrc

theorem respDispose_complete {client client' : Fs} {names names' : List (Str × Str)} {dtsrc : Dtsrc}
    (h : Ready client) (hsame : SamePath dtsrc) (hcomplete : Complete dtsrc)
    (hout : respDispose names client dtsrc = some (names', client')) :
    Disposed client client' names names' dtsrc := by
  have hfile : lit "JXTDENGINE_" ++ dtsrc.master.engineattr.1 ++ lit "_" ++
      dtsrc.master.engineattr.2 ++ lit ".so" =
        engineFile dtsrc.master.engineattr.1 dtsrc.master.engineattr.2 := rfl
  unfold respDispose at hout
  dsimp only at hout
  rw [if_neg (complete_iff.mp hcomplete), hfile] at hout
  split at hout
  · cases hout
  · rename_i fs₁ hmk
    have hmade := h.made hmk
    split at hout
    · rename_i hwrite
      cases hout
      refine ⟨rfl, hmade.ready, hmade.isDir, fun content hcontent => ?_⟩
      -- what cannot be written is not there to be loaded
      obtain ⟨p, hr, hp⟩ := Fs.of_contents hcontent
      have hdir : ¬ client'.IsDir p := by simp [Fs.IsDir, hp]
      rw [Fs.writeFile_of_resolve hr hdir] at hwrite
      cases hwrite
    · rename_i fs₂ hwrite
      split at hout
      · cases hout
      · rename_i fs₃ hdeps
        cases hout
        obtain ⟨p, hr, rfl, hwritten⟩ := hmade.written hwrite
        obtain ⟨content', hmem, hw, -⟩ := hwritten.depsDispose hsame hdeps
        refine ⟨rfl, ⟨hw.wellFormed, hw.cwd⟩, hw.isDir, fun content hcontent => ?_⟩
        rw [taskPath_append, Fs.contents, Fs.resolve_below hw.nul hw.resolve, hw.walk,
          Option.bind_some, hw.node] at hcontent
        cases hcontent
        exact hmem

/-- The directory of the task is not below the path that is removed. -/
theorem not_prefix_taskDir {taskid : UInt32} {p : Path}
    (h : fs.resolve (removedPath taskid) = some p) : ¬ p <+: taskDir fs taskid.toNat ∧ ¬ p <+: fs.cwd := by
  have h0 : 0 ∉ removedPath taskid := by
    rw [removedPath, List.mem_append, not_or]
    exact ⟨by decide, (clean_decimal _).1⟩
  have hcomponents : components (removedPath taskid) =
      [lit "computation", lit "Task_" ++ decimal taskid.toNat] := by
    rw [show removedPath taskid = lit "computation" ++ slash ::
      (lit "Task_" ++ decimal taskid.toNat) from rfl, components_append,
      components_of_notMem (clean_task _).2]
    rfl
  have hstart : fs.start (removedPath taskid) = fs.cwd := rfl
  have hplain := plain_task taskid.toNat
  rw [Fs.resolve, cstr_of_notMem h0, if_neg (by simp [removedPath, lit]), hstart, hcomponents,
    Fs.walk] at h
  split_ifs at h with _ hdot hdots
  · exact absurd hdot (by decide)
  · exact absurd hdots (by decide)
  · rw [Fs.walk, if_neg (not_or.mpr ⟨hplain.1, hplain.2.1⟩), if_neg hplain.2.2] at h
    split_ifs at h
    cases h
    constructor <;>
    · intro hpre
      have := hpre.length_le
      simp [taskDir] at this
      try omega

/-- The node is as ready after the removal as it was before. -/
theorem ready_removed (h : Ready fs) (taskid : UInt32) :
    Ready (fs.removeAll (removedPath taskid)) ∧
      (fs.removeAll (removedPath taskid)).cwd = fs.cwd ∧
      ((fs.removeAll (removedPath taskid)).IsDir (taskDir fs taskid.toNat) ↔
        fs.IsDir (taskDir fs taskid.toNat)) := by
  have hcwd := Fs.cwd_removeAll fs (removedPath taskid)
  have hkeep : (fs.removeAll (removedPath taskid)).node fs.cwd = fs.node fs.cwd :=
    Fs.node_removeAll fun _ hp => (not_prefix_taskDir hp).2
  refine ⟨⟨h.wellFormed.removeAll _, ?_⟩, hcwd, ?_⟩
  · rw [hcwd, Fs.IsDir, hkeep]
    exact h.cwd
  · rw [Fs.IsDir, Fs.node_removeAll fun _ hp => (not_prefix_taskDir hp).1]
    exact Iff.rfl

theorem cwd_depsDispose {filepath : Str} {deps : List (Adtsrc × Str)}
    (h : depsDispose filepath fs deps = some fs') : fs'.cwd = fs.cwd := by
  induction deps generalizing fs with
  | nil =>
    cases h
    rfl
  | cons dep deps ih =>
    rw [depsDispose] at h
    split at h
    · cases h
    · rename_i fs₁ hmk
      rw [ih h, ← Fs.cwd_mkdirAll hmk]
      cases hwrite : fs₁.writeFile (filepath ++ dep.2) dep.1.binary with
      | none => rfl
      | some fs₂ => exact Fs.cwd_writeFile hwrite

theorem cwd_respDispose {names names' : List (Str × Str)} {dtsrc : Dtsrc}
    (h : respDispose names fs dtsrc = some (names', fs')) : fs'.cwd = fs.cwd := by
  unfold respDispose at h
  dsimp only at h
  split_ifs at h
  · cases h
    rfl
  · split at h
    · cases h
    · rename_i fs₁ hmk
      rw [← Fs.cwd_mkdirAll hmk]
      split at h
      · cases h
        rfl
      · rename_i fs₂ hwrite
        rw [← Fs.cwd_writeFile hwrite]
        split at h
        · cases h
        · rename_i fs₃ hdeps
          cases h
          exact cwd_depsDispose hdeps

/-- **What the pull of a payload does**: nothing, or it writes one engine into the directory of the
task. -/
theorem callBack_cases (h : Ready fs) {req : SubmitRequest} {storage : Option (Datamanager × Fs)}
    {st : DataState} (hst : callBack ⟨[], [], fs⟩ (pullDtsrcs src token req storage) = some st) :
    (st.masterMidName = [] ∧ st.fs = fs ∧
      ∀ dtsrc ∈ pullDtsrcs src token req storage, ¬ Complete dtsrc) ∨
    ∃ dtsrc, pullDtsrcs src token req storage = [dtsrc] ∧ Complete dtsrc ∧
      st.masterMidName = [dtsrc.master.engineattr] ∧ Ready st.fs ∧ st.fs.cwd = fs.cwd ∧
      st.fs.IsDir (taskDir fs req.taskid.toNat) ∧
      ∀ content, library req.taskid st dtsrc.master.engineattr = some content →
        content ∈ binaries dtsrc := by
  rcases pullDtsrcs_cases src token req storage with hnil | ⟨dtsrc, hone, htype, htaskid, hsame⟩
  · rw [hnil] at hst ⊢
    cases hst
    exact .inl ⟨rfl, rfl, nofun⟩
  · rw [hone] at hst ⊢
    rw [callBack, if_pos htype] at hst
    split at hst
    · cases hst
    · rename_i names client' hdispose
      cases hst
      by_cases hcomplete : Complete dtsrc
      · right
        have hdisposed := respDispose_complete h hsame hcomplete hdispose
        refine ⟨dtsrc, rfl, hcomplete, hdisposed.names, hdisposed.ready, cwd_respDispose hdispose,
          htaskid ▸ hdisposed.isDir, fun content hc => hdisposed.contents content ?_⟩
        have hpath : libraryPath req.taskid dtsrc.master.engineattr =
            taskPath req.taskid.toNat ++
              engineFile dtsrc.master.engineattr.1 dtsrc.master.engineattr.2 := by
          simp [libraryPath, taskPath, engineFile, lit]
        rwa [library, hpath, ← htaskid] at hc
      · left
        rw [respDispose_incomplete hcomplete] at hdispose
        cases hdispose
        refine ⟨rfl, rfl, fun dtsrc' hmem => ?_⟩
        rwa [List.mem_singleton.mp hmem]

/-! ## Runs of payloads -/

/-- The id of the task of a payload. -/
def Payload.taskid (codec : SubmitCodec) (payload : Payload) : UInt32 :=
  (codec.parseRequest payload.binary).taskid

/-- The libraries that a payload loads. -/
def Loads (codec : SubmitCodec) (src token : Str) (fs : Fs) (payload : Payload) (content : Str) :
    Prop :=
  let req := codec.parseRequest payload.binary
  readInput req ≠ .ok none ∧ ∃ st midName,
    callBack ⟨[], [], fs⟩ (pullDtsrcs src token req payload.storage) = some st ∧
      st.masterMidName = [midName] ∧ library req.taskid st midName = some content

/-- **One payload** leaves the directory of its task exactly when it was there or an engine is
brought. -/
theorem payloadStep_directory (h : Ready fs)
    (hstep : payloadStep codec runEngine src token fs payload = .ok (result, fs')) :
    Ready fs' ∧ fs'.cwd = fs.cwd ∧
      (fs'.IsDir (taskDir fs (payload.taskid codec).toNat) ↔
        fs.IsDir (taskDir fs (payload.taskid codec).toNat) ∨ Brings codec src token payload) := by
  unfold payloadStep at hstep
  unfold Brings
  dsimp only at hstep ⊢
  split at hstep
  · cases hstep
  · rename_i hinput
    cases hstep
    exact ⟨h, rfl, by simp [hinput]⟩
  · rename_i input hinput
    have hread : readInput (codec.parseRequest payload.binary) ≠ .ok none := by simp [hinput]
    split at hstep
    · cases hstep
    · rename_i st hst
      rcases callBack_cases h hst with ⟨hnames, hfs, hnone⟩ |
        ⟨dtsrc, hone, hcomplete, hnames, hready, hcwd, hdir, -⟩
      · rw [hnames] at hstep
        cases hstep
        rw [hfs]
        refine ⟨h, rfl, ?_⟩
        rw [or_iff_left]
        rintro ⟨-, dtsrc, hmem, hcomplete⟩
        exact hnone dtsrc hmem hcomplete
      · rw [hnames] at hstep
        dsimp only at hstep
        split at hstep
        · cases hstep
        · cases hstep
          obtain ⟨hready', hcwd', hkeep⟩ := ready_removed hready (payload.taskid codec)
          rw [taskDir, hcwd] at hkeep
          refine ⟨hready', hcwd'.trans hcwd, iff_of_true (hkeep.mpr hdir) (.inr ⟨hread, dtsrc, ?_⟩)⟩
          exact ⟨hone ▸ List.mem_singleton.mpr rfl, hcomplete⟩

/-- The files after some payloads. -/
def payloadRun (codec : SubmitCodec)
    (runEngine : Option Str → Str × Str → Str → Except Fault (Option Str)) (src token : Str) :
    Fs → List Payload → Except PayloadFault Fs :=
  run fun fs payload => (payloadStep codec runEngine src token fs payload).map Prod.snd

theorem ready_payloadRun (h : Ready fs₀) {payloads : List Payload}
    (hrun : payloadRun codec runEngine src token fs₀ payloads = .ok fs) : Ready fs := by
  refine run_invariant (I := Ready) (fun s s' payload hs hstep => ?_) h hrun
  obtain ⟨⟨result, s'⟩, hout, rfl⟩ := map_eq_ok.mp hstep
  exact (payloadStep_directory hs hout).1

/-- **Exactly when a task directory does not outlive its run.** After every sequence of payloads, one
more payload that is processed to its end leaves no directory of its task exactly when there was none
and its pull brings no engine. The library that a payload loads is one of the answer to its own pull
in any case. -/
theorem task_directory_iff (h : Ready fs₀) {payloads : List Payload}
    (hrun : payloadRun codec runEngine src token fs₀ payloads = .ok fs)
    (hstep : payloadStep codec runEngine src token fs payload = .ok (result, fs')) :
    (¬ fs'.IsDir (taskDir fs' (payload.taskid codec).toNat) ↔
      ¬ fs.IsDir (taskDir fs (payload.taskid codec).toNat) ∧ ¬ Brings codec src token payload) ∧
    ∀ content, Loads codec src token fs payload content →
      ∃ dtsrc ∈ pullDtsrcs src token (codec.parseRequest payload.binary) payload.storage,
        content ∈ binaries dtsrc := by
  have hready := ready_payloadRun h hrun
  obtain ⟨-, hcwd, hdir⟩ := payloadStep_directory hready hstep
  constructor
  · rw [← not_or, not_iff_not, ← hdir, taskDir, taskDir, hcwd]
  · rintro content ⟨-, st, midName, hst, hnames, hlibrary⟩
    rcases callBack_cases hready hst with ⟨hnil, -, -⟩ |
      ⟨dtsrc, hone, -, hname, -, -, -, hcontents⟩
    · rw [hnil] at hnames
      cases hnames
    · rw [hname] at hnames
      cases hnames
      exact ⟨dtsrc, hone ▸ List.mem_singleton.mpr rfl, hcontents content hlibrary⟩

/-- An engine without output. -/
def silentEngine (_library : Option Str) (_midName : Str × Str) (_input : Str) :
    Except Fault (Option Str) := .ok none

/-- The storage of the samples, with an engine for task `5`. -/
def sampleStorage : Option (Datamanager × Fs) :=
  some ((twoEngines []).dManager, (twoEngines []).fs)

/-- After a payload for task `5`, one for task `6`, which has no engine, leaves no directory. -/
theorem task_directory_noEngine : ∃ fs result fs',
    payloadRun wireCodec silentEngine [] [] ⟨∅, ∅, []⟩ [⟨[8, 5], sampleStorage⟩] = .ok fs ∧
      fs.IsDir (taskDir fs 5) ∧
      payloadStep wireCodec silentEngine [] [] fs ⟨[8, 6], sampleStorage⟩ = .ok (result, fs') ∧
      ¬ fs'.IsDir (taskDir fs' 6) := by
  obtain ⟨fs, hrun, hdir⟩ : ∃ fs, payloadRun wireCodec silentEngine [] [] ⟨∅, ∅, []⟩
      [⟨[8, 5], sampleStorage⟩] = .ok fs ∧ fs.IsDir (taskDir fs 5) ∧ ¬ fs.IsDir (taskDir fs 6) :=
    ⟨_, rfl, rfl, by decide +kernel⟩
  obtain ⟨result, fs', hstep⟩ : ∃ result fs', payloadStep wireCodec silentEngine [] [] fs
      ⟨[8, 6], sampleStorage⟩ = .ok (result, fs') := by
    cases hrun
    exact ⟨_, _, rfl⟩
  refine ⟨fs, result, fs', hrun, hdir.1, hstep, ?_⟩
  refine ((task_directory_iff ready_empty hrun hstep).1).mpr ⟨hdir.2, ?_⟩
  rintro ⟨-, dtsrc, hmem, hcomplete⟩
  obtain ⟨dtsrc', hone, hnot⟩ : ∃ dtsrc', pullDtsrcs [] [] (wireCodec.parseRequest [8, 6])
      sampleStorage = [dtsrc'] ∧ ¬ Complete dtsrc' := ⟨_, rfl, by decide +kernel⟩
  rw [hone, List.mem_singleton] at hmem
  exact hnot (hmem ▸ hcomplete)

/-- **The directory of task `5` is left**, with the engine, when its pull is answered. -/
theorem task_directory_left : ∃ result fs,
    payloadStep wireCodec silentEngine [] [] ⟨∅, ∅, []⟩
      ⟨[8, 5], some ((twoEngines []).dManager, (twoEngines []).fs)⟩ = .ok (result, fs) ∧
    fs.IsDir (taskDir fs 5) ∧
    fs.node (taskDir fs 5 ++ [engineFile (lit "m") (lit "e")]) = some (.file [0x01]) :=
  ⟨_, _, rfl, rfl, rfl⟩

end Jxtd.Infer
