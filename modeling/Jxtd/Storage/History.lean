import Jxtd.Storage.AreaMaps
import Jxtd.Storage.NodeRuns

/-!
# Histories of a storage node

What a node that was new holds after any requests of the two servers, read off the requests.

* `readBack`: what a pull returns of the data of a file; `readBack_append_iff`: when two files can
  not be told apart by appending to both and pulling.
* `pushes`, `runtimeLog`, `firstBinary`: what the requests pushed.
* **`Blank.holding`**: the runtime files hold all pushes for their tasks, and the file of the
  binaries holds the first push for any task.
* `runtimeReply_eq`, `binaryReply_eq`: the replies to pulls.
-/

namespace Jxtd.Storage

open Lib Posix Datatrans

/-! ## What a pull returns of a file -/

/-- A pull of a file with these data: its size is an `int`. -/
def readBack (data : Str) : Except Fault Str :=
  if Datamanager.narrow data.length = -1 then .ok []
  else if Datamanager.narrow data.length < 0 then .error .lengthError
  else .ok (data.take (Datamanager.narrow data.length).toNat)

theorem narrow_le (n : ℕ) : Datamanager.narrow n ≤ n := by
  rw [Datamanager.narrow, Int.bmod_def]
  split_ifs <;> omega

theorem readBack_of_lt {data : Str} (h : data.length < 2 ^ 31) : readBack data = .ok data := by
  rw [readBack, Local.narrow_of_lt h, if_neg (by omega), if_neg (by omega), Int.toNat_natCast,
    List.take_length]

section Pull

variable {fs : Fs} {s data : Str} {q : Path}

theorem pull_readBack_file (hr : fs.resolve s = some q) (hq : fs.node q = some (.file data)) :
    (Datamanager.pullData localFileoperations (fs.openFile s {}).2 (fs.openFile s {}).1).map
      Prod.fst = readBack data := by
  have hopen : fs.openFile s {} = fs.allocate q {} := by
    rw [Fs.openFile, hr]
    simp only [hq]
    rfl
  have hfile : (fs.allocate q {}).2.node q = some (.file data) := hq
  have hsize : (fs.allocate q {}).2.fsize (fs.allocate q {}).1 = data.length := by
    rw [Fs.fsize, Fs.lookup_allocate fs q {}]
    simp only [hfile]
  have hle := narrow_le data.length
  rw [hopen, Datamanager.pullData, if_neg (Fs.allocate_fst_ne fs q {}), readBack]
  dsimp only [localFileoperations]
  rw [hsize]
  split_ifs with hone hneg
  · rfl
  · rfl
  · obtain ⟨f', -, hread⟩ := Fs.read_file (Fs.lookup_allocate fs q {}) hq rfl
      (Datamanager.narrow data.length).toNat
    rw [hread]
    have hlen : (data.take (Datamanager.narrow data.length).toNat).length =
        (Datamanager.narrow data.length).toNat := by
      rw [List.length_take]
      omega
    simp [Except.map, hlen]

/-- **Every pull returns what its file gives back.** -/
theorem pull_readBack (fs : Fs) (s : Str) :
    (Datamanager.pullData localFileoperations (fs.openFile s {}).2 (fs.openFile s {}).1).map
      Prod.fst = readBack ((fs.contents s).getD []) := by
  cases hcontents : fs.contents s with
  | none =>
    obtain ⟨fs', hpull⟩ := Local.pull_contents (s := s) fun data hdata => by
      rw [hcontents] at hdata
      cases hdata
    rw [hpull, hcontents]
    rfl
  | some data =>
    obtain ⟨q, hr, hq⟩ := Fs.of_contents hcontents
    rw [pull_readBack_file hr hq, Option.getD_some]

end Pull

/-! ## Files that can not be told apart -/

/-- What pulls can tell of the data of a file to which data is appended. -/
def visible (data : Str) : ℕ × Str := (data.length % 2 ^ 32, data.take (2 ^ 31 - 1))

theorem narrow_congr {m n : ℕ} (h : m % 2 ^ 32 = n % 2 ^ 32) :
    Datamanager.narrow m = Datamanager.narrow n := by
  rw [Datamanager.narrow, Datamanager.narrow, Int.bmod_def, Int.bmod_def]
  norm_cast
  rw [h]

/-- The first bytes after data is appended to files that begin alike. -/
theorem take_append_congr {a b : Str} {k n : ℕ} (h : a.take n = b.take n) (hk : k ≤ n)
    (more : Str) : (a ++ more).take k = (b ++ more).take k := by
  by_cases ha : n ≤ a.length
  · have hb : n ≤ b.length := by
      have := congrArg List.length h
      rw [List.length_take, List.length_take] at this
      omega
    have hmin : min k n = k := by omega
    rw [List.take_append_of_le_length (by omega), List.take_append_of_le_length (by omega),
      ← hmin, ← List.take_take, h, List.take_take]
  · have hab : a = b := by
      have hlen' := congrArg List.length h
      rw [List.length_take, List.length_take] at hlen'
      rw [List.take_of_length_le (by omega), List.take_of_length_le (by omega)] at h
      exact h
    rw [hab]

theorem readBack_congr {a b : Str} (h : visible a = visible b) (more : Str) :
    readBack (a ++ more) = readBack (b ++ more) := by
  obtain ⟨hlen, htake⟩ := Prod.mk.injEq .. ▸ h
  have hnarrow : Datamanager.narrow (a ++ more).length = Datamanager.narrow (b ++ more).length := by
    refine narrow_congr ?_
    rw [List.length_append, List.length_append]
    omega
  have hlt : Datamanager.narrow (b ++ more).length < 2 ^ 31 := Int.bmod_lt (by decide)
  rw [readBack, readBack, hnarrow]
  split_ifs
  · rfl
  · rfl
  · rw [take_append_congr htake (by omega)]

/-- A pull that returns one byte less than `2 ^ 31`, or less. -/
theorem readBack_of_mod {data : Str} {k : ℕ} (hk : k < 2 ^ 31) (h : data.length % 2 ^ 32 = k) :
    readBack data = .ok (data.take k) := by
  have hnarrow : Datamanager.narrow data.length = k := by
    rw [narrow_congr (n := k) (by omega), Local.narrow_of_lt hk]
  rw [readBack, hnarrow, if_neg (by omega), if_neg (by omega), Int.toNat_natCast]

theorem readBack_length {data out : Str} (h : readBack data = .ok out) (hout : out ≠ []) :
    data.length % 2 ^ 32 = out.length := by
  have hlt : Datamanager.narrow data.length < 2 ^ 31 := Int.bmod_lt (by decide)
  have hle := narrow_le data.length
  have hmod : Datamanager.narrow data.length % ((2 ^ 32 : ℕ) : ℤ) =
      data.length % ((2 ^ 32 : ℕ) : ℤ) := Int.bmod_emod
  unfold readBack at h
  split_ifs at h with hone hneg
  · exact absurd (Except.ok.inj h).symm hout
  · rw [← Except.ok.inj h, List.length_take]
    omega

/-- Two files with the same first bytes whatever is appended. -/
theorem take_eq_of_append {a b : Str} {k n : ℕ} (hk : k ≤ n)
    (h : ∀ c, (a ++ List.replicate n c).take k = (b ++ List.replicate n c).take k) :
    a.take k = b.take k := by
  have hget (c : UInt8) {i : ℕ} (hi : i < k) :
      (a ++ List.replicate n c)[i]? = (b ++ List.replicate n c)[i]? := by
    have := congrArg (fun l => l[i]?) (h c)
    simpa only [List.getElem?_take, if_pos hi] using this
  refine List.ext_getElem? fun i => ?_
  rw [List.getElem?_take, List.getElem?_take]
  split_ifs with hi
  · have h₀ := hget 0 hi
    have h₁ := hget 1 hi
    simp only [List.getElem?_append, List.getElem?_replicate] at h₀ h₁
    rcases lt_or_ge i a.length with ha | ha
    · rcases lt_or_ge i b.length with hb | hb
      · rwa [if_pos ha, if_pos hb] at h₀
      · rw [if_pos ha, if_neg (by omega), if_pos (by omega)] at h₀ h₁
        rw [h₀] at h₁
        exact absurd h₁ (by decide)
    · rcases lt_or_ge i b.length with hb | hb
      · rw [if_neg (by omega), if_pos (by omega), if_pos hb] at h₀ h₁
        rw [← h₀] at h₁
        exact absurd h₁ (by decide)
      · rw [List.getElem?_eq_none ha, List.getElem?_eq_none hb]
  · rfl

/-- **Two files can be told apart**, by appending the same to both and pulling, exactly when they
differ in what is visible. -/
theorem readBack_append_iff {a b : Str} :
    (∀ more, readBack (a ++ more) = readBack (b ++ more)) ↔ visible a = visible b := by
  refine ⟨fun h => ?_, readBack_congr⟩
  -- so many bytes that the size is `k` as an `int`
  have hfill (k : ℕ) : ∃ n, k ≤ n ∧ (a.length + n) % 2 ^ 32 = k % 2 ^ 32 :=
    ⟨2 ^ 32 * (a.length + 1) - a.length + k, by omega, by omega⟩
  have hlen : a.length % 2 ^ 32 = b.length % 2 ^ 32 := by
    obtain ⟨n, hn, hmod⟩ := hfill 1
    have ha : readBack (a ++ List.replicate n 0) = .ok ((a ++ List.replicate n 0).take 1) := by
      refine readBack_of_mod (by decide) ?_
      rw [List.length_append, List.length_replicate, hmod]
      rfl
    rw [h] at ha
    have hone : ((a ++ List.replicate n 0).take 1).length = 1 := by
      rw [List.length_take, List.length_append, List.length_replicate]
      omega
    have hb := readBack_length ha (List.ne_nil_of_length_pos (by omega))
    rw [hone, List.length_append, List.length_replicate] at hb
    omega
  refine Prod.ext hlen ?_
  obtain ⟨n, hn, hmod⟩ := hfill (2 ^ 31 - 1)
  refine take_eq_of_append hn fun c => ?_
  have ha : readBack (a ++ List.replicate n c) =
      .ok ((a ++ List.replicate n c).take (2 ^ 31 - 1)) := by
    refine readBack_of_mod (by decide) ?_
    rw [List.length_append, List.length_replicate, hmod]
    rfl
  have hb : readBack (b ++ List.replicate n c) =
      .ok ((b ++ List.replicate n c).take (2 ^ 31 - 1)) := by
    refine readBack_of_mod (by decide) ?_
    rw [List.length_append, List.length_replicate]
    omega
  rw [h, hb] at ha
  exact (Except.ok.inj ha).symm

/-! ## What the requests pushed -/

/-- The data that the requests push for a task, in order. -/
def pushes (kind : NodeEvent → Option (UInt64 × Str)) (taskid : UInt64)
    (history : List NodeEvent) : List Str :=
  (history.filterMap kind).filterMap fun x => if x.1 = taskid then some x.2 else none

/-- All runtime data that the requests push for a task. -/
def runtimeLog (taskid : UInt64) (history : List NodeEvent) : Str :=
  (pushes NodeEvent.runtime taskid history).flatten

/-- The first binary that the requests push, for any task. -/
def firstBinary (history : List NodeEvent) : Option Str :=
  (history.filterMap NodeEvent.binary).head?.map Prod.snd

theorem pushes_append (kind : NodeEvent → Option (UInt64 × Str)) (taskid : UInt64)
    (h h' : List NodeEvent) :
    pushes kind taskid (h ++ h') = pushes kind taskid h ++ pushes kind taskid h' := by
  rw [pushes, List.filterMap_append, List.filterMap_append]
  rfl

theorem runtimeLog_append (taskid : UInt64) (h h' : List NodeEvent) :
    runtimeLog taskid (h ++ h') = runtimeLog taskid h ++ runtimeLog taskid h' := by
  rw [runtimeLog, pushes_append, List.flatten_append]
  rfl

section Single

variable {e : NodeEvent} {t taskid : UInt64} {data : Str}

theorem runtimeLog_single (he : e.runtime = some (taskid, data)) :
    runtimeLog taskid [e] = data := by
  simp [runtimeLog, pushes, he]

theorem runtimeLog_single_ne (he : e.runtime = some (taskid, data)) (hne : taskid ≠ t) :
    runtimeLog t [e] = [] := by
  simp [runtimeLog, pushes, he, hne]

theorem runtimeLog_single_none (he : e.runtime = none) : runtimeLog t [e] = [] := by
  simp [runtimeLog, pushes, he]

theorem firstBinary_append (h h' : List NodeEvent) :
    firstBinary (h ++ h') = (firstBinary h).or (firstBinary h') := by
  rw [firstBinary, List.filterMap_append, List.head?_append, Option.map_or]
  rfl

theorem firstBinary_single (he : e.binary = some (taskid, data)) :
    firstBinary [e] = some data := by
  simp [firstBinary, he]

theorem firstBinary_single_none (he : e.binary = none) : firstBinary [e] = none := by
  simp [firstBinary, he]

end Single

/-! ## What a node holds -/

/-- The file of the binaries holds the first one that was pushed. -/
structure HoldsBinary (r : Str) (p : Path) (d : Datamanager) (fs : Fs) (first : Option Str) :
    Prop where
  noFile : NoFile p r fs
  node : Ends p r → fs.node (binaryTarget p r) = first.map .file
  found : first ≠ none → fs.resolve (d.binaryPath r) = some (binaryTarget p r)

section HoldsBinary

variable {r : Str} {p : Path} {d d' : Datamanager} {fs fs' : Fs} {first : Option Str}

theorem HoldsBinary.frame (h : HoldsBinary r p d fs first) (hroot : d'.rootPath = d.rootPath)
    (hk : fs.KeepsDirs fs') (hnode : ∀ b, b = r ∨ b ∈ searched r →
      fs'.node (binaryTarget p b) = fs.node (binaryTarget p b)) : HoldsBinary r p d' fs' first := by
  refine ⟨fun b hb data hfile => ?_, fun hends => ?_, fun hfirst => ?_⟩
  · rw [hnode b (.inr (mem_searched.mpr hb))] at hfile
    exact h.noFile b hb data hfile
  · rw [hnode r (.inl rfl)]
    exact h.node hends
  · rw [Datamanager.binaryPath, hroot]
    exact hk.resolve (h.found hfirst)

/-- A push is kept if it is the first. -/
theorem HoldsBinary.push (h : HoldsBinary r p d fs first) (hl : Layout d fs p) (h₀ : 0 ∉ r)
    (data : Str) : HoldsBinary r p d (d.binaryPush localFileoperations fs r data).2
      (first.or (some data)) := by
  have hmakes := makes_makeDirectories hl r
  have hnofile := h.noFile.makes hmakes
  have hfound := resolve_makeDirectories hl h₀ h.noFile
  by_cases hends : Ends p r
  · have hnode := h.node hends
    cases first with
    | none =>
      obtain ⟨hnone, hpush⟩ := binaryPush_new hl h₀ h.noFile hends hnode data
      have hnodir : ¬ (d.makeDirectories localFileoperations fs r).IsDir (binaryTarget p r) := by
        simp [Fs.IsDir, hnone]
      rw [hpush]
      refine ⟨fun b hb old hold => ?_, fun _ => ?_, fun _ => ?_⟩
      · rw [Fs.node_set_ne _ (hends.2 b (mem_searched.mpr hb))] at hold
        exact hnofile b hb old hold
      · exact Fs.node_set _ (Fs.ne_nil_of_node_none hnone) _
      · exact (Fs.keepsDirs_set_file hnodir data).resolve hfound
    | some old =>
      rw [binaryPush_old hl h₀ h.noFile (by rw [hnode]; exact Option.some_ne_none _) data]
      exact ⟨hnofile, fun _ => hmakes.grows.node _ _ hnode, fun _ => hfound⟩
  · rw [binaryPush_dot hl h₀ h.noFile hends data]
    exact ⟨hnofile, fun hends' => absurd hends' hends, fun _ => hfound⟩

/-- What a pull finds. -/
theorem HoldsBinary.contents (h : HoldsBinary r p d fs first) (hl : Layout d fs p) :
    (fs.contents (d.binaryPath r)).getD [] = if Ends p r then first.getD [] else [] := by
  split_ifs with hends
  · have hnode := h.node hends
    cases first with
    | none =>
      have hnone : fs.contents (d.binaryPath r) = none := by
        by_contra hsome
        obtain ⟨data, hdata⟩ := Option.ne_none_iff_exists'.mp hsome
        obtain ⟨q, hr, hq⟩ := Fs.of_contents hdata
        rw [hl.resolve_binaryTarget hr, hnode] at hq
        cases hq
      rw [hnone]
    | some data => rw [Fs.contents_eq (h.found (Option.some_ne_none data)) hnode]
  · rw [hl.contents_dot h.noFile hends]
    rfl

end HoldsBinary

/-- What is in the files of a node after requests. -/
structure Holding (r : Str) (p : Path) (x : State Fs × List Event) (history : List NodeEvent) :
    Prop where
  node : Node p x.1
  rootPath : x.1.dManager.rootPath = r
  runtime : ∀ t, SparesRuntime p r t → Logged x.1.fs p t (runtimeLog t history)
  binary : StaysAlong p r → HoldsBinary r p x.1.dManager x.1.fs (firstBinary history)

section Holding

variable {r : Str} {p : Path} {x y : State Fs × List Event} {history : List NodeEvent}
  {e : NodeEvent} {endpoint : Taskdep.Endpoint} {st : State Fs}

theorem Blank.holding (h : Blank st.dManager st.fs p)
    (hroot : SparesEngines p st.dManager.rootPath) (log : List Event) :
    Holding st.dManager.rootPath p (st, log) [] := by
  have hbinary {b : Str} (hb : Stays p b) : binaryTarget p b = p ++ [lit "binary"] ∨
      st.fs.node (binaryTarget p b) = none := by
    obtain ⟨q, hq⟩ := hb
    rw [← hq]
    cases q with
    | nil => exact .inl (List.append_nil _)
    | cons c cs =>
      rw [List.append_assoc]
      exact .inr (h.empty (lit "binary") (by decide) (c :: cs) (List.cons_ne_nil c cs))
  refine ⟨h.node hroot, rfl, fun t _ => .inr ⟨?_, rfl⟩, fun hstays => ⟨?_, fun hends => ?_,
    fun hfirst => absurd rfl hfirst⟩⟩
  · exact h.empty (lit "runtime") (by decide) [runtimeFile t] (List.cons_ne_nil _ _)
  · intro b hb data hfile
    rcases hbinary (hstays.2 b (mem_searched.mpr hb)) with harea | hnone
    · have hdir := h.area _ binary_mem
      rw [Fs.IsDir, ← harea, hfile] at hdir
      cases hdir
    · rw [hnone] at hfile
      cases hfile
  · exact (hbinary hstays.1).resolve_left hends.1

theorem Logged.append_of_node {fs fs' : Fs} {t : UInt64} {log more : Str} (h : Logged fs p t log)
    (hnode : fs'.node (p ++ [lit "runtime", runtimeFile t]) =
      fs.node (p ++ [lit "runtime", runtimeFile t])) (hmore : more = []) :
    Logged fs' p t (log ++ more) := by
  rw [hmore, List.append_nil, Logged, hnode]
  exact h

theorem Holding.step (h : Holding r p x history) (he : nodeStep endpoint x e = .ok y) :
    Holding r p y (history ++ [e]) := by
  have hnode := h.node.step he
  obtain ⟨hroot, heff⟩ := h.node.step_cases he
  rw [h.rootPath] at hroot
  have hroot' : y.1.dManager.rootPath = x.1.dManager.rootPath := hroot.trans h.rootPath.symm
  -- requests that change nothing in the binary area
  have hframe {c : Str} {q : Path} (hc : lit "binary" ≠ c)
      (hw : FilesWithin (p ++ c :: q) x.1.fs y.1.fs) (hb : e.binary = none)
      (hstays : StaysAlong p r) :
      HoldsBinary r p y.1.dManager y.1.fs (firstBinary (history ++ [e])) := by
    rw [firstBinary_append, firstBinary_single_none hb, Option.or_none]
    refine (h.binary hstays).frame hroot' hw.keeps fun b hb => hw.node _ ?_
    rcases hb with rfl | hb
    · exact hstays.1.not_below hc
    · exact (hstays.2 b hb).not_below hc
  cases heff with
  | runtime taskid data hr hb hfs =>
    have hw := h.node.layout.runtimePush taskid data
    rw [← hfs] at hw
    refine ⟨hnode, hroot, fun t hspares => ?_, hframe (by decide) hw hb⟩
    rw [runtimeLog_append]
    by_cases ht : taskid = t
    · subst ht
      obtain ⟨fs', hpush, hlog⟩ :=
        h.node.layout.runtimePush_logged (h.runtime taskid hspares) data
      rw [runtimeLog_single hr, hfs, hpush]
      exact hlog
    · exact (h.runtime t hspares).append_of_node (hw.node _ (runtime_apart (Ne.symm ht) p))
        (runtimeLog_single_ne hr ht)
  | binary taskid data hb hr hfs =>
    rw [h.rootPath] at hfs
    have hw := h.node.layout.binaryPush_withinPath r data
    rw [← hfs] at hw
    refine ⟨hnode, hroot, fun t hspares => ?_, fun hstays => ?_⟩
    · rw [runtimeLog_append]
      exact (h.runtime t hspares).append_of_node (hw.node _ hspares) (runtimeLog_single_none hr)
    · have hpush := (h.binary hstays).push h.node.layout (h.rootPath ▸ h.node.layout.root) data
      rw [← hfs] at hpush
      rw [firstBinary_append, firstBinary_single hb]
      exact hpush.frame hroot' (.refl _) fun _ _ => rfl
  | other hr hb hw =>
    refine ⟨hnode, hroot, fun t hspares => ?_, hframe (by decide) hw hb⟩
    rw [runtimeLog_append]
    refine (h.runtime t hspares).append_of_node (hw.node _ fun hpre => ?_)
      (runtimeLog_single_none hr)
    have hhead := (List.cons_prefix_cons.mp ((List.prefix_append_right_inj p).mp hpre)).1
    exact absurd hhead (by decide)

/-- **What a node that was new holds** after any requests. -/
theorem Blank.run_holding (h : Blank st.dManager st.fs p)
    (hroot : SparesEngines p st.dManager.rootPath)
    (hrun : run (nodeStep endpoint) (st, []) history = .ok x) :
    Holding st.dManager.rootPath p x history :=
  run_history (fun _ _ _ _ h he => h.step he) (h.holding hroot []) hrun

theorem Holding.run {more : List NodeEvent} (h : Holding r p x history)
    (hrun : Lib.run (nodeStep endpoint) x more = .ok y) : Holding r p y (history ++ more) :=
  run_history (fun _ _ _ _ h he => h.step he) h hrun

/-! ## Replies -/

/-- The reply to a pull. -/
def pullReply (st : State Fs) (master : Datatransfer.Adtsrc) :
    Except Fault (Option Datatransfer.Dtsrc) :=
  (processOne localFileoperations st.dManager 0 st.fs master).map Prod.fst

theorem map_fst_reply (pull : Except Fault (Str × Fs)) (g : Str → Datatransfer.Dtsrc) :
    ((pull >>= fun x => .ok (g x.1, x.2)) >>= fun x => .ok (some x.1, x.2)).map Prod.fst =
      ((pull.map Prod.fst).map fun binary => some (g binary) :
        Except Fault (Option Datatransfer.Dtsrc)) := by
  cases pull <;> rfl

theorem runtimeReply_eq (h : Holding r p x history) {master : Datatransfer.Adtsrc}
    (hspares : SparesRuntime p r master.taskid.toUInt64)
    (htype : master.type = Datatype.endpoint.toUInt32) :
    pullReply x.1 master = (readBack (runtimeLog master.taskid.toUInt64 history)).map fun binary =>
      some ⟨{ Datatransfer.Adtsrc.new with
        taskid := master.taskid, type := Datatype.endpoint.toUInt32,
        endpointattr := master.endpointattr, binary := binary }, []⟩ := by
  have hengine : Datatype.endpoint.toUInt32 ≠ Datatype.engine.toUInt32 := by decide
  have hpull := pull_readBack x.1.fs (x.1.dManager.runtimePath master.taskid.toUInt64)
  rw [h.node.layout.contents_logged (h.runtime _ hspares)] at hpull
  rw [← hpull]
  unfold pullReply processOne
  rw [htype, if_neg hengine, if_pos rfl, if_pos rfl]
  exact map_fst_reply (x.1.dManager.runtimePull localFileoperations x.1.fs master.taskid.toUInt64)
    fun binary => ⟨{ Datatransfer.Adtsrc.new with
      taskid := master.taskid, type := Datatype.endpoint.toUInt32,
      endpointattr := master.endpointattr, binary := binary }, []⟩

/-- The data of the binaries of a node. -/
def binaryData (p : Path) (r : Str) (history : List NodeEvent) : Str :=
  if Ends p r then (firstBinary history).getD [] else []

theorem binaryReply_eq (h : Holding r p x history) (hstays : StaysAlong p r)
    {master : Datatransfer.Adtsrc} (htype : master.type = Datatype.binary.toUInt32) :
    pullReply x.1 master = (readBack (binaryData p r history)).map fun binary =>
      some ⟨{ Datatransfer.Adtsrc.new with
        taskid := master.taskid, type := Datatype.binary.toUInt32, binary := binary }, []⟩ := by
  have hengine : Datatype.binary.toUInt32 ≠ Datatype.engine.toUInt32 := by decide
  have hendpoint : Datatype.binary.toUInt32 ≠ Datatype.endpoint.toUInt32 := by decide
  have hpull := pull_readBack x.1.fs (x.1.dManager.binaryPath x.1.dManager.rootPath)
  rw [h.rootPath, (h.binary hstays).contents h.node.layout] at hpull
  rw [binaryData, ← hpull, ← h.rootPath]
  unfold pullReply processOne
  rw [htype, if_neg hengine, if_neg hendpoint, if_pos rfl, if_pos rfl]
  exact map_fst_reply
    (x.1.dManager.binaryPull localFileoperations x.1.fs x.1.dManager.rootPath)
    fun binary => ⟨{ Datatransfer.Adtsrc.new with
      taskid := master.taskid, type := Datatype.binary.toUInt32, binary := binary }, []⟩

end Holding

end Jxtd.Storage
