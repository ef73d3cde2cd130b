import Jxtd.Storage.BinaryArea
import Jxtd.Storage.EngineMap

/-!
# The runtime and the binary area as maps

* `Contents`: a log for each task, a map from paths to binaries, and the directories that were made
  for the paths.
* `Contents.step`, `Allowed`: the calls on it, and when they are promised to work.
* `Refines`: the file system holds these contents; `Refines.step`: one call.
* **`areas_refine`**: every sequence of allowed calls returns what it returns on the maps.
* `binary_directory_taken`, `binary_zero_bytes`: a path that is a directory, and two paths that are
  one before a zero byte.
-/

namespace Jxtd.Storage

open Lib Posix

/-! ## The maps -/

/-- What the two areas hold. -/
structure Contents where
  log : UInt64 → Str
  files : Str → Option Str
  dirs : List Str

namespace Contents

/-- Nothing was pushed. -/
def empty : Contents := ⟨fun _ => [], fun _ => none, []⟩

/-- A path is taken by a binary or by a directory that was made for one. -/
def Taken (m : Contents) (path : Str) : Prop := path ∈ m.dirs ∨ (m.files path).isSome

instance (m : Contents) (path : Str) : Decidable (m.Taken path) :=
  inferInstanceAs (Decidable (_ ∨ _))

def step (m : Contents) : AreaOp → Answer × Contents
  | .runtimePull taskid => (.data (m.log taskid), m)
  | .runtimePush taskid runtime =>
    (.code 0, { m with log := Function.update m.log taskid (m.log taskid ++ runtime) })
  | .runtimeRemove taskid => (.void, { m with log := Function.update m.log taskid [] })
  | .binaryPull path => (.data ((m.files path).getD []), m)
  | .binaryPush path binary =>
    if m.Taken path then (.code (-1), m)
    else (.code 0, { m with
      files := Function.update m.files path (some binary), dirs := searched path ++ m.dirs })
  | .binaryRemove path => (.void, { m with files := Function.update m.files path none })
  | .init .. | .enginePull .. | .enginePush .. | .engineRemove .. => (.void, m)

end Contents

/-- A path of names with slashes between them, without zero bytes. -/
structure ValidPath (path : Str) : Prop where
  plain : ∀ c ∈ components path, Fs.Plain c
  nul : 0 ∉ path

/-- The calls on the two areas, as long as `int` can count what they leave. -/
def Allowed (m : Contents) : AreaOp → Prop
  | .runtimePull _ | .runtimeRemove _ => True
  | .runtimePush taskid runtime => m.log taskid ++ runtime ∈ shortStr
  | .binaryPull path | .binaryRemove path => ValidPath path
  | .binaryPush path binary =>
    ValidPath path ∧ (∀ b ∈ searched path, m.files b = none) ∧ binary ∈ shortStr
  | .init .. | .enginePull .. | .enginePush .. | .engineRemove .. => False

theorem ValidPath.inner {path : Str} (h : ValidPath path) : Inner path :=
  ⟨fun hmem => (h.plain _ hmem).2.2 rfl, h.nul⟩

theorem ValidPath.of_prefix {path b : Str} (h : ValidPath path) (hb : b ++ [slash] <+: path) :
    ValidPath b := by
  obtain ⟨rest, hrest, -⟩ := components_of_prefix hb
  refine ⟨fun c hc => h.plain c ?_, notMem_before h.nul hb⟩
  rw [hrest]
  exact List.mem_append_left rest hc

/-- The place of a path of names. -/
def binaryNode (p : Path) (path : Str) : Path := p ++ lit "binary" :: components path

theorem binaryNode_injective (p : Path) : Function.Injective (binaryNode p) := by
  intro s t h
  exact components_injective (List.cons.inj (List.append_cancel_left h)).2

theorem ValidPath.binaryTarget_eq {path : Str} (h : ValidPath path) (p : Path) :
    binaryTarget p path = binaryNode p path := by
  rw [h.inner.binaryTarget_eq, binaryNode, Fs.names_eq_self h.plain, List.append_assoc]
  rfl

theorem binaryNode_below {path b : Str} (p : Path) (hb : b ++ [slash] <+: path) :
    binaryNode p b <+: binaryNode p path := by
  obtain ⟨rest, hrest, -⟩ := components_of_prefix hb
  exact ⟨rest, by rw [binaryNode, binaryNode, hrest, List.append_assoc, List.cons_append]⟩

theorem binaryNode_ne {path b : Str} (p : Path) (hb : b ++ [slash] <+: path) :
    binaryNode p path ≠ binaryNode p b := by
  intro heq
  have hpath := binaryNode_injective p heq
  have hlen := hb.length_le
  rw [hpath, List.length_append, List.length_singleton] at hlen
  omega

theorem ValidPath.ends {path : Str} (h : ValidPath path) (p : Path) : Ends p path := by
  rw [Ends, h.binaryTarget_eq]
  refine ⟨fun heq => ?_, fun b hb => ?_⟩
  · exact components_ne_nil path (List.cons.inj (List.append_cancel_left heq)).2
  · rw [(h.of_prefix (mem_searched.mp hb)).binaryTarget_eq]
    exact (binaryNode_ne p (mem_searched.mp hb)).symm

/-! ## The file system holds them -/

/-- What is at the place of a path. -/
def Contents.at (m : Contents) (path : Str) : Option Node :=
  if path ∈ m.dirs then some .dir else (m.files path).map .file

/-- The file system holds the contents. -/
structure Refines (d : Datamanager) (fs : Fs) (p : Path) (m : Contents) : Prop where
  layout : Layout d fs p
  log : ∀ t, fs.node (p ++ [lit "runtime", runtimeFile t]) = some (.file (m.log t)) ∨
    fs.node (p ++ [lit "runtime", runtimeFile t]) = none ∧ m.log t = []
  binary : ∀ path, fs.node (binaryNode p path) = m.at path
  apart : ∀ path ∈ m.dirs, m.files path = none
  shortLog : ∀ t, m.log t ∈ shortStr
  shortFile : ∀ path data, m.files path = some data → data ∈ shortStr

section Refines

variable {d : Datamanager} {fs fs' : Fs} {p : Path} {m : Contents} {path : Str}

theorem Blank.refines (h : Blank d fs p) : Refines d fs p .empty := by
  refine ⟨h.toLayout, fun t => .inr ⟨?_, rfl⟩, fun path => ?_, fun _ hmem => absurd hmem List.not_mem_nil,
    fun _ => Nat.two_pow_pos 31, fun _ _ hdata => ?_⟩
  · exact h.empty (lit "runtime") (by decide) [runtimeFile t] (List.cons_ne_nil _ _)
  · exact h.empty (lit "binary") (by decide) _ (components_ne_nil path)
  · cases hdata

/-- The areas are apart. -/
theorem not_below_runtime (t : UInt64) (path : Str) :
    ¬ p ++ [lit "runtime", runtimeFile t] <+: binaryNode p path := by
  intro hpre
  have hhead := (List.cons_prefix_cons.mp ((List.prefix_append_right_inj p).mp hpre)).1
  exact absurd hhead (by decide)

theorem not_below_binary (t : UInt64) :
    ¬ p ++ [lit "binary"] <+: p ++ [lit "runtime", runtimeFile t] := by
  intro hpre
  have hhead := (List.cons_prefix_cons.mp ((List.prefix_append_right_inj p).mp hpre)).1
  exact absurd hhead (by decide)

theorem runtimeFile_injective : Function.Injective runtimeFile := by
  intro t t' h
  exact UInt64.toNat_inj.mp (decimal_injective (List.append_cancel_left h))

theorem runtime_apart {t t' : UInt64} (h : t' ≠ t) (p : Path) :
    ¬ p ++ [lit "runtime", runtimeFile t] <+: p ++ [lit "runtime", runtimeFile t'] := by
  intro hpre
  have hlast := (List.cons_prefix_cons.mp ((List.prefix_append_right_inj p).mp hpre)).2
  exact h (runtimeFile_injective (List.cons_prefix_cons.mp hlast).1).symm

theorem Refines.sameTree (h : Refines d fs p m) (hs : fs.SameTree fs') : Refines d fs' p m := by
  refine ⟨h.layout.keepsDirs hs.grows.keepsDirs (h.layout.wf.sameTree hs) rfl, fun t => ?_,
    fun path => (hs.node _).trans (h.binary path), h.apart, h.shortLog, h.shortFile⟩
  rw [hs.node]
  exact h.log t

/-! ### Runtime data -/

theorem contents_runtime (h : Refines d fs p m) (t : UInt64) :
    (fs.contents (d.runtimePath t)).getD [] = m.log t :=
  h.layout.contents_logged (h.log t)

theorem Refines.runtimePull (h : Refines d fs p m) (t : UInt64) :
    ∃ fs', d.runtimePull localFileoperations fs t = .ok (m.log t, fs') ∧ Refines d fs' p m := by
  have hlen : ∀ data, fs.contents (d.runtimePath t) = some data → data.length < 2 ^ 31 := by
    intro data hdata
    have hlog := contents_runtime h t
    rw [hdata, Option.getD_some] at hlog
    exact hlog ▸ h.shortLog t
  obtain ⟨fs', hpull⟩ := Local.pull_contents hlen
  rw [contents_runtime h t] at hpull
  exact ⟨fs', hpull, h.sameTree (Local.sameTree_pull hpull)⟩

/-- The log of one task changes. -/
theorem Refines.update_log (h : Refines d fs p m) (t : UInt64) {log : Str} (hshort : log ∈ shortStr)
    (hw : FilesWithin (p ++ [lit "runtime", runtimeFile t]) fs fs')
    (hnode : fs'.node (p ++ [lit "runtime", runtimeFile t]) = some (.file log) ∨
      fs'.node (p ++ [lit "runtime", runtimeFile t]) = none ∧ log = []) :
    Refines d fs' p { m with log := Function.update m.log t log } := by
  refine ⟨h.layout.keepsDirs hw.keeps (hw.wf h.layout.wf) rfl, fun t' => ?_, fun path => ?_,
    h.apart, fun t' => ?_, h.shortFile⟩
  · by_cases ht : t' = t
    · rw [ht]
      simpa only [Function.update_self] using hnode
    · rw [hw.node _ (runtime_apart ht p)]
      simpa only [Function.update_of_ne ht] using h.log t'
  · exact (hw.node _ (not_below_runtime t path)).trans (h.binary path)
  · by_cases ht : t' = t
    · rw [ht]
      simpa only [Function.update_self] using hshort
    · simpa only [Function.update_of_ne ht] using h.shortLog t'

theorem Refines.runtimePush (h : Refines d fs p m) {t : UInt64} {runtime : Str}
    (hshort : m.log t ++ runtime ∈ shortStr) : ∃ fs',
    d.runtimePush localFileoperations fs t runtime = (0, fs') ∧
      Refines d fs' p { m with log := Function.update m.log t (m.log t ++ runtime) } := by
  have hwithin := h.layout.runtimePush t runtime
  obtain ⟨fs', hpush, hlog⟩ := h.layout.runtimePush_logged (h.log t) runtime
  rw [hpush] at hwithin
  exact ⟨fs', hpush, h.update_log t hshort hwithin hlog⟩

theorem Refines.runtimeRemove (h : Refines d fs p m) (t : UInt64) :
    Refines d (d.runtimeRemove localFileoperations fs t) p
      { m with log := Function.update m.log t [] } := by
  have hr := h.layout.resolve_runtime t
  have hwithin : FilesWithin (p ++ [lit "runtime", runtimeFile t]) fs
      (d.runtimeRemove localFileoperations fs t) := by
    refine .unlink fun q hq => ?_
    rw [hr, Option.some_inj] at hq
    rw [hq]
  refine h.update_log t (Nat.two_pow_pos 31) hwithin (.inr ⟨?_, rfl⟩)
  change (fs.unlink _).2.node _ = none
  rw [Fs.unlink, hr]
  rcases h.log t with hfile | ⟨hnone, -⟩
  · simp only [hfile]
    exact Fs.node_del fs (Fs.ne_nil_of_node_file hfile)
  · simp only [hnone]

/-! ### Binaries -/

/-- What is found under a path. -/
theorem Layout.contents_binary (h : Layout d fs p) (hpath : ValidPath path) {data : Str} :
    fs.contents (d.binaryPath path) = some data ↔
      fs.node (binaryNode p path) = some (.file data) := by
  rw [← hpath.binaryTarget_eq]
  constructor
  · intro hcontents
    obtain ⟨q, hr, hq⟩ := Fs.of_contents hcontents
    rw [← h.resolve_binaryTarget hr, hq]
  · intro hfile
    refine Fs.contents_eq ?_ hfile
    cases hpos : findLastSlash path with
    | none => exact h.resolve_binary_name hpath.nul (notMem_of_findLastSlash hpos)
    | some pos =>
      obtain ⟨hsplit, hslash⟩ := findLastSlash_split hpos
      have hpre := take_findLastSlash hpos
      have hparent := hpath.of_prefix hpre
      have hdir : fs.IsDir (binaryTarget p (path.take pos)) := by
        rw [hpath.binaryTarget_eq] at hfile
        rw [hparent.binaryTarget_eq]
        exact h.wf.isDir_of_prefix (by rw [hfile]; exact Option.some_ne_none _)
          (binaryNode_below p hpre) (binaryNode_ne p hpre)
      have hr := h.resolve_binary_child (by rw [hsplit]; exact hpath.nul) hslash
        (h.isDirAt_binary hparent.inner hdir)
      rwa [hsplit] at hr

theorem contents_binary (h : Refines d fs p m) (hpath : ValidPath path) :
    fs.contents (d.binaryPath path) = m.files path := by
  refine Option.ext fun data => ?_
  rw [h.layout.contents_binary hpath, h.binary, Contents.at]
  split_ifs with hdir
  · simp [h.apart path hdir]
  · simp

theorem Refines.binaryPull (h : Refines d fs p m) (hpath : ValidPath path) : ∃ fs',
    d.binaryPull localFileoperations fs path = .ok ((m.files path).getD [], fs') ∧
      Refines d fs' p m := by
  have hcontents := contents_binary h hpath
  have hlen : ∀ data, fs.contents (d.binaryPath path) = some data → data.length < 2 ^ 31 := by
    intro data hdata
    rw [hcontents] at hdata
    exact h.shortFile path data hdata
  obtain ⟨fs', hpull⟩ := Local.pull_contents hlen
  rw [hcontents] at hpull
  exact ⟨fs', hpull, h.sameTree (Local.sameTree_pull hpull)⟩

/-- The binary area changes. -/
theorem Refines.update_binary (h : Refines d fs p m) (hw : Within (p ++ [lit "binary"]) fs fs')
    {files : Str → Option Str} {dirs : List Str}
    (hbinary : ∀ path, fs'.node (binaryNode p path) =
      if path ∈ dirs then some .dir else (files path).map .file)
    (hapart : ∀ path ∈ dirs, files path = none)
    (hshort : ∀ path data, files path = some data → data ∈ shortStr) :
    Refines d fs' p ⟨m.log, files, dirs⟩ := by
  refine ⟨h.layout.keepsDirs hw.keeps (hw.wf h.layout.wf) rfl, fun t => ?_, hbinary, hapart,
    h.shortLog, hshort⟩
  rw [hw.node _ (not_below_binary t)]
  exact h.log t

theorem binary_prefix_node (p : Path) (path : Str) : p ++ [lit "binary"] <+: binaryNode p path := by
  exact ⟨components path, List.append_assoc ..⟩

theorem Refines.binaryRemove (h : Refines d fs p m) (hpath : ValidPath path) :
    Refines d (d.binaryRemove localFileoperations fs path) p
      { m with files := Function.update m.files path none } := by
  have hcontents := contents_binary h hpath
  change Refines d (fs.unlink (d.binaryPath path)).2 p _
  cases hfile : m.files path with
  | none =>
    have hself : Function.update m.files path none = m.files :=
      Function.update_eq_self_iff.mpr hfile.symm
    rw [hfile] at hcontents
    rw [Fs.unlink_of_contents_none hcontents, hself]
    exact h
  | some data =>
    rw [hfile] at hcontents
    obtain ⟨q, hr, hq, hunlink⟩ := Fs.unlink_of_contents hcontents
    obtain rfl : binaryNode p path = q := by
      rw [← hpath.binaryTarget_eq, h.layout.resolve_binaryTarget hr]
    have hdir : ¬ fs.IsDir (binaryNode p path) := by simp [Fs.IsDir, hq]
    rw [hunlink]
    refine h.update_binary ⟨Fs.keepsDirs_del hdir, fun hwf => hwf.del_file hq, fun r hr => ?_⟩
      (fun path' => ?_) (fun path' hmem => ?_) fun path' data' hdata => ?_
    · refine Fs.node_del_ne fs fun heq => hr ?_
      rw [heq]
      exact binary_prefix_node p path
    · by_cases heq : path' = path
      · have hnot : path ∉ m.dirs := fun hmem => by
          rw [h.apart path hmem] at hfile
          cases hfile
        rw [heq, Fs.node_del fs (Fs.ne_nil_of_node_file hq), if_neg hnot, Function.update_self]
        rfl
      · rw [Fs.node_del_ne fs fun hn => heq (binaryNode_injective p hn), h.binary, Contents.at,
          Function.update_of_ne heq]
    · by_cases heq : path' = path
      · rw [heq, Function.update_self]
      · rw [Function.update_of_ne heq]
        exact h.apart path' hmem
    · by_cases heq : path' = path
      · rw [heq, Function.update_self] at hdata
        cases hdata
      · rw [Function.update_of_ne heq] at hdata
        exact h.shortFile path' data' hdata

/-- A path that is not taken is free. -/
theorem Refines.node_eq_none (h : Refines d fs p m) :
    fs.node (binaryNode p path) = none ↔ ¬ m.Taken path := by
  rw [h.binary, Contents.at, Contents.Taken]
  split_ifs with hdir
  · simp [hdir]
  · cases hfile : m.files path <;> simp [hdir]

theorem Refines.noFile (h : Refines d fs p m) (hpath : ValidPath path)
    (hfree : ∀ b ∈ searched path, m.files b = none) : NoFile p path fs := by
  intro b hb data hfile
  rw [(hpath.of_prefix hb).binaryTarget_eq, h.binary, Contents.at,
    hfree b (mem_searched.mpr hb)] at hfile
  split_ifs at hfile
  · cases hfile
  · cases hfile

/-- What is above a node of the area is a directory, and the loops make nothing new. -/
theorem Refines.makes_taken (h : Refines d fs p m) (hpath : ValidPath path) (htaken : m.Taken path)
    (hm : Makes p path fs fs') : Refines d fs' p m := by
  have hsome : fs.node (binaryNode p path) ≠ none := by
    rw [Ne, h.node_eq_none, not_not]
    exact htaken
  have hsame (q : Path) : fs'.node q = fs.node q := by
    rcases hm.new q with heq | ⟨hnone, -, b, hb, rfl⟩
    · exact heq
    · have hdir := h.layout.wf.isDir_of_prefix hsome (binaryNode_below p hb) (binaryNode_ne p hb)
      rw [(hpath.of_prefix hb).binaryTarget_eq] at hnone
      rw [Fs.IsDir, hnone] at hdir
      cases hdir
  exact h.update_binary (hm.within (hpath.inner.staysAlong p))
    (fun path => (hsame _).trans (h.binary path)) h.apart h.shortFile

/-- **A push of a free path** makes its directories and the file. -/
theorem Refines.push_free (h : Refines d fs p m) (hpath : ValidPath path)
    (hfree : ∀ b ∈ searched path, m.files b = none) (htaken : ¬ m.Taken path) {data : Str}
    (hshort : data ∈ shortStr) (hm : Makes p path fs fs')
    (hnone : fs'.node (binaryNode p path) = none)
    (hr : fs'.resolve (d.binaryPath path) = some (binaryNode p path)) :
    Refines d (fs'.set (binaryNode p path) (.file data)) p
      { m with
        files := Function.update m.files path (some data), dirs := searched path ++ m.dirs } := by
  have hl := h.layout.makes hm
  have hnodir : ¬ fs'.IsDir (binaryNode p path) := by simp [Fs.IsDir, hnone]
  have hwf : (fs'.set (binaryNode p path) (.file data)).WellFormed := by
    rw [binaryPath_eq] at hr
    exact hl.wf_set binary_mem hr hnodir _
  have hset := Fs.node_set fs' (Fs.ne_nil_of_node_none hnone) (.file data)
  have hnot : path ∉ searched path := fun hmem =>
    binaryNode_ne p (mem_searched.mp hmem) rfl
  rw [Contents.Taken, not_or] at htaken
  have hwithin : Within (p ++ [lit "binary"]) fs (fs'.set (binaryNode p path) (.file data)) :=
    (hm.within (hpath.inner.staysAlong p)).trans
      (FilesWithin.set_file (binary_prefix_node p path) hnodir data fun _ => hwf).toWithin
  refine h.update_binary hwithin (fun path' => ?_) (fun path' hmem => ?_) fun path' data' hdata => ?_
  · by_cases heq : path' = path
    · rw [heq, hset, if_neg, Function.update_self]
      · rfl
      · rw [List.mem_append, not_or]
        exact ⟨hnot, htaken.1⟩
    · have hne : binaryNode p path' ≠ binaryNode p path :=
        fun hn => heq (binaryNode_injective p hn)
      by_cases hmem : path' ∈ searched path
      · -- a directory above the new file
        have hb := mem_searched.mp hmem
        rw [if_pos (List.mem_append_left _ hmem)]
        exact hwf.isDir_of_prefix (by rw [hset]; exact Option.some_ne_none _)
          (binaryNode_below p hb) (binaryNode_ne p hb)
      · have hold : fs'.node (binaryNode p path') = fs.node (binaryNode p path') := by
          rcases hm.new (binaryNode p path') with hold | ⟨-, -, b, hb, hn⟩
          · exact hold
          · rw [(hpath.of_prefix hb).binaryTarget_eq] at hn
            exact absurd (binaryNode_injective p hn ▸ mem_searched.mpr hb) hmem
        rw [Fs.node_set_ne _ hne, hold, h.binary, Contents.at, Function.update_of_ne heq]
        simp only [List.mem_append, hmem, false_or]
  · have hne : path' ≠ path := by
      rintro rfl
      rcases List.mem_append.mp hmem with hs | hd
      · exact hnot hs
      · exact htaken.1 hd
    rw [Function.update_of_ne hne]
    rcases List.mem_append.mp hmem with hs | hd
    · exact hfree path' hs
    · exact h.apart path' hd
  · by_cases heq : path' = path
    · rw [heq, Function.update_self, Option.some_inj] at hdata
      exact hdata ▸ hshort
    · rw [Function.update_of_ne heq] at hdata
      exact h.shortFile path' data' hdata

theorem Refines.binaryPush (h : Refines d fs p m) (hpath : ValidPath path)
    (hfree : ∀ b ∈ searched path, m.files b = none) {data : Str} (hshort : data ∈ shortStr) :
    ∃ fs', d.binaryPush localFileoperations fs path data =
        ((if m.Taken path then -1 else 0), fs') ∧
      Refines d fs' p (m.step (.binaryPush path data)).2 := by
  have hnofile := h.noFile hpath hfree
  have hm := makes_makeDirectories h.layout path
  have htarget := hpath.binaryTarget_eq p
  by_cases htaken : m.Taken path
  · have hsome : fs.node (binaryTarget p path) ≠ none := by
      rw [htarget, Ne, h.node_eq_none, not_not]
      exact htaken
    rw [Contents.step, if_pos htaken, if_pos htaken,
      binaryPush_old h.layout hpath.nul hnofile hsome]
    exact ⟨_, rfl, h.makes_taken hpath htaken hm⟩
  · have hnone : fs.node (binaryTarget p path) = none := by
      rw [htarget, h.node_eq_none]
      exact htaken
    have hr := resolve_makeDirectories h.layout hpath.nul hnofile
    obtain ⟨hnone', hpush⟩ := binaryPush_new h.layout hpath.nul hnofile (hpath.ends p) hnone data
    rw [htarget] at hr hnone' hpush
    rw [Contents.step, if_neg htaken, if_neg htaken, hpush]
    exact ⟨_, rfl, h.push_free hpath hfree htaken hshort hm hnone' hr⟩

end Refines

/-! ## Runs -/

/-- **One call** returns what it returns on the maps. -/
theorem Refines.step {st : State Fs} {p : Path} {m : Contents} (h : Refines st.dManager st.fs p m)
    {op : AreaOp} (hop : Allowed m op) :
    ∃ st', areaStep localFileoperations st op = .ok ((m.step op).1, st') ∧
      Refines st'.dManager st'.fs p (m.step op).2 := by
  cases op with
  | runtimePull taskid =>
    obtain ⟨fs', hpull, hr⟩ := h.runtimePull taskid
    refine ⟨⟨st.dManager, fs'⟩, ?_, hr⟩
    rw [areaStep, hpull]
    rfl
  | runtimePush taskid runtime =>
    obtain ⟨fs', hpush, hr⟩ := h.runtimePush hop
    refine ⟨⟨st.dManager, fs'⟩, ?_, hr⟩
    rw [areaStep, hpush]
    rfl
  | runtimeRemove taskid => exact ⟨⟨st.dManager, _⟩, rfl, h.runtimeRemove taskid⟩
  | binaryPull path =>
    obtain ⟨fs', hpull, hr⟩ := h.binaryPull hop
    refine ⟨⟨st.dManager, fs'⟩, ?_, hr⟩
    rw [areaStep, hpull]
    rfl
  | binaryPush path binary =>
    obtain ⟨fs', hpush, hr⟩ := h.binaryPush hop.1 hop.2.1 hop.2.2
    refine ⟨⟨st.dManager, fs'⟩, ?_, hr⟩
    rw [areaStep, hpush, Contents.step]
    split_ifs <;> rfl
  | binaryRemove path => exact ⟨⟨st.dManager, _⟩, rfl, h.binaryRemove hop⟩
  | init | enginePull | enginePush | engineRemove => exact absurd hop id

/-- The maps and the answers so far. -/
def Contents.run (x : Contents × List Answer) (op : AreaOp) : Contents × List Answer :=
  ((x.1.step op).2, x.2 ++ [(x.1.step op).1])

theorem run_refines {st : State Fs} {p : Path} {m : Contents} (h : Refines st.dManager st.fs p m)
    {answers : List Answer} {inputs : List AreaOp}
    (hinputs : Along (fun x => Allowed x.1) Contents.run (m, answers) inputs) :
    ∃ x, run (areaRun localFileoperations) (st, answers) inputs = .ok x ∧
      x.2 = (inputs.foldl Contents.run (m, answers)).2 := by
  have hstep : ∀ (x : State Fs × List Answer) (m : Contents × List Answer) op,
      (Refines x.1.dManager x.1.fs p m.1 ∧ x.2 = m.2) → Allowed m.1 op →
      ∃ x', areaRun localFileoperations x op = .ok x' ∧
        (Refines x'.1.dManager x'.1.fs p (Contents.run m op).1 ∧ x'.2 = (Contents.run m op).2) := by
    rintro ⟨st, answers⟩ ⟨m, outs⟩ op ⟨hr, rfl⟩ hop
    obtain ⟨st', hstep, hr'⟩ := hr.step hop
    refine ⟨(st', answers ++ [(m.step op).1]), ?_, hr', rfl⟩
    rw [areaRun, hstep]
    rfl
  have hstart : Refines st.dManager st.fs p m ∧ answers = answers := ⟨h, rfl⟩
  obtain ⟨x, hx, -, hanswers⟩ := run_simulates (areaRun localFileoperations)
    (fun m => Allowed m.1) Contents.run
    (fun x m => Refines x.1.dManager x.1.fs p m.1 ∧ x.2 = m.2) hstep (s := (st, answers))
    (a := (m, answers)) hstart hinputs
  exact ⟨x, hx, hanswers⟩

/-- **The areas refine the maps.** From a manager that has just been initialised, every sequence of
calls that are allowed when they are made returns what the same sequence returns on the maps. -/
theorem areas_refine {st : State Fs} {p : Path} (h : Blank st.dManager st.fs p)
    {inputs : List AreaOp}
    (hinputs : Along (fun x => Allowed x.1) Contents.run (Contents.empty, []) inputs) :
    ∃ x, run (areaRun localFileoperations) (st, []) inputs = .ok x ∧
      x.2 = (inputs.foldl Contents.run (Contents.empty, [])).2 :=
  run_refines h.refines hinputs

/-- A binary below two new directories, and runtime data, on a new node. -/
theorem areas_refine_newNode : ∃ x,
    run (areaRun localFileoperations) (newNode, []) [.binaryPush (lit "a/b/c") [0x01],
      .binaryPull (lit "a/b/c"), .runtimePush 5 [0x02], .runtimePush 5 [0x03], .runtimePull 5] =
      .ok x ∧
    x.2 = [.code 0, .data [0x01], .code 0, .code 0, .data [0x02, 0x03]] := by
  have hpath : ValidPath (lit "a/b/c") := ⟨by decide, by decide⟩
  have hinputs : Along (fun x => Allowed x.1) Contents.run (Contents.empty, [])
      [.binaryPush (lit "a/b/c") [0x01], .binaryPull (lit "a/b/c"), .runtimePush 5 [0x02],
        .runtimePush 5 [0x03], .runtimePull 5] :=
    ⟨⟨hpath, fun _ _ => rfl, Nat.one_lt_two_pow (by decide)⟩, hpath,
      Nat.one_lt_two_pow (by decide), (by decide : 2 < 2 ^ 31), trivial, trivial⟩
  exact areas_refine newNode_blank hinputs

/-- **A path that was never pushed is taken** by the directory of another: its push fails. -/
theorem binary_directory_taken : ∃ x,
    run (areaRun localFileoperations) (newNode, []) [.binaryPush (lit "a/b") [0x01],
      .binaryPush (lit "a") [0x02], .binaryPull (lit "a")] = .ok x ∧
    x.2 = [.code 0, .code (-1), .data []] ∧
    x.2 ≠ (WriteOnce.outs (fun _ => none) [.push (lit "a/b") [0x01], .push (lit "a") [0x02],
      .pull (lit "a")]).map answerOf := by
  have hinputs : Along (fun x => Allowed x.1) Contents.run (Contents.empty, [])
      [.binaryPush (lit "a/b") [0x01], .binaryPush (lit "a") [0x02], .binaryPull (lit "a")] := by
    have hone {b : UInt8} : [b] ∈ shortStr := Nat.one_lt_two_pow (by decide)
    have hsearched : searched (lit "a") = [] := rfl
    refine ⟨⟨⟨by decide, by decide⟩, fun _ _ => rfl, hone⟩, ⟨⟨by decide, by decide⟩, ?_, hone⟩,
      ⟨by decide, by decide⟩, trivial⟩
    rw [hsearched]
    exact fun _ hmem => absurd hmem List.not_mem_nil
  obtain ⟨x, hx, hanswers⟩ := run_refines newNode_blank.refines hinputs
  have heq : x.2 = [.code 0, .code (-1), .data []] := hanswers.trans (by decide +kernel)
  refine ⟨x, hx, heq, ?_⟩
  rw [heq]
  decide

/-- **Two paths that are one before their zero bytes**: the second push fails. -/
theorem binary_zero_bytes : ∃ x,
    run (areaRun localFileoperations) (newNode, []) [.binaryPush [0x61, 0x00, 0x62] [0x01],
      .binaryPush [0x61, 0x00, 0x63] [0x02]] = .ok x ∧ x.2 = [.code 0, .code (-1)] :=
  ⟨_, rfl, by decide +kernel⟩

end Jxtd.Storage
