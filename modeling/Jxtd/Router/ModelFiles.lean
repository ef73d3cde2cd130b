import Jxtd.Lib.Run
import Jxtd.Router.Change

/-!
# The files of the private models

* `Agree`: the files in the directory of the user are the ids of the private models.
* `Kept`: a command that is no way out of the agreement.
* `Inv`, **`Inv.after`**: what holds before and after every such command.
* **`agree_foldl`**: the files and the models agree while all commands are of this kind.
-/

namespace Jxtd.Router.Session

open Lib Lib.Posix Lib.Posix.Fs

/-! ## Agreement -/

/-- The private models are the files of the user, and there are none without a user. -/
structure Agree (s : Session Fs) : Prop where
  files : s.user ≠ [] → ∀ f, s.files.Holds (userDir s.user) f ↔ f ∈ s.enginePrivate.map Prod.snd
  nobody : s.user = [] → s.enginePrivate = []

/-- A command that keeps the files and the models together: the user changes only while there is no
private model, a new directory holds no file, a model is made for a user, and a name stands for a
model only if it is its id. -/
def Kept (s : Session Fs) : Command → Prop
  | .REG message => ∀ name, message.type = .CMD → message.param = [name] → s.user ≠ name →
      s.enginePrivate = [] ∧ (name ≠ [] → ∀ f, ¬ s.files.Holds (userDir name) f)
  | .RTUNREG message => message.type = .CMD → message.param = [] → s.user ≠ [] →
      s.enginePrivate = []
  | .MDDECL draws message => s.Makes (.MDDECL draws message) → s.user ≠ []
  | .MDRM message => ∀ temp, message.Selects (lit "name") temp →
      ∀ engine ∈ s.enginePrivate, engine.1 = temp → engine.2 = temp
  | .MDPUSH _ _ _ _ | .CPSTART _ _ => True

/-- The state of a session whose files and models agree. -/
structure Inv (s : Session Fs) : Prop where
  wf : s.files.WellFormed
  dir : s.user ≠ [] → ∃ p, s.files.resolve (userDir s.user) = some p ∧ s.files.IsDir p
  zero : 0 ∈ s.user → s.enginePrivate = []
  drawn : ∀ engine ∈ s.enginePrivate, ∃ draw : Drawn, draw.id = engine.2
  unique : s.registry.Unique
  agree : s.Agree

/-! ## Paths -/

theorem userDir_eq (user : Str) : userDir user = lit "../" ++ user ++ [slash] := rfl

/-- The file of a model is in the directory of its user. -/
theorem resolve_modelFile {fs : Fs} {user : Str} {p : Path} (hzero : 0 ∉ user)
    (h : fs.resolve (userDir user) = some p) (hd : fs.IsDir p) {id : Str} (hclean : Clean id)
    (hplain : Plain id) : fs.resolve (modelFile user id) = some (p ++ [id]) := by
  have hs : 0 ∉ lit "../" ++ user := by
    rw [List.mem_append, not_or]
    exact ⟨by decide, hzero⟩
  have hne : lit "../" ++ user ≠ [] := List.cons_ne_nil _ _
  rw [userDir_eq] at h
  have hfile := resolve_child (resolve_of_slash hs hne h) hd hs hclean.1 hclean.2 hplain
  rw [modelFile, userDir_eq, List.append_assoc]
  exact hfile

/-- A name with a zero byte has no files. -/
theorem resolve_modelFile_of_mem {fs : Fs} {user : Str} (hzero : 0 ∈ user) (id : Str) :
    fs.resolve (modelFile user id) = fs.resolve (userDir user) := by
  have hmem : 0 ∈ userDir user := by
    rw [userDir_eq]
    simp [hzero]
  exact resolve_append_of_mem hmem id

/-! ## Models that go -/

theorem mem_map_eraseP {xs : List (Str × Str)} {found : Str × Str → Bool} {engine : Str × Str}
    (h : xs.Pairwise fun a b => a.2 ≠ b.2) (hfind : xs.find? found = some engine) (f : Str) :
    f ∈ (xs.eraseP found).map Prod.snd ↔ f ≠ engine.2 ∧ f ∈ xs.map Prod.snd := by
  have hperm := perm_eraseP hfind
  have hne := (hperm.pairwise_iff fun hab => hab.symm).mp h
  rw [(hperm.map Prod.snd).mem_iff, List.map_cons, List.mem_cons]
  constructor
  · intro hf
    obtain ⟨engine', hmem, rfl⟩ := List.mem_map.mp hf
    exact ⟨((List.pairwise_cons.mp hne).1 engine' hmem).symm, .inr hf⟩
  · rintro ⟨hf, heq | hmem⟩
    · exact absurd heq hf
    · exact hmem

variable {s : Session Fs}

theorem Inv.ids (h : Inv s) : s.enginePrivate.Pairwise fun a b => a.2 ≠ b.2 :=
  (List.Pairwise.sublist (List.sublist_append_left _ _) h.unique).imp And.right

/-- The file of a private model, before and after it is removed. -/
theorem Inv.remove (h : Inv s) (huser : s.user ≠ []) {found : Str × Str → Bool}
    {engine : Str × Str} (hfind : s.enginePrivate.find? found = some engine) :
    ∃ p data, s.files.resolve (userDir s.user) = some p ∧ s.files.IsDir p ∧
      s.files.node (p ++ [engine.2]) = some (.file data) ∧
      (localFiles.remove s.files (modelFile s.user engine.2)).2 =
        s.files.del (p ++ [engine.2]) := by
  obtain ⟨p, hp, hd⟩ := h.dir huser
  have hmem := List.mem_of_find?_eq_some hfind
  obtain ⟨draw, hdraw⟩ := h.drawn engine hmem
  obtain ⟨data, hnode⟩ := (holds_iff hp).mp
    ((h.agree.files huser engine.2).mpr (List.mem_map_of_mem hmem))
  have hzero : 0 ∉ s.user := fun hzero => by
    rw [h.zero hzero] at hmem
    cases hmem
  have hclean := draw.clean
  have hplain := draw.plain
  rw [hdraw] at hclean hplain
  refine ⟨p, data, hp, hd, hnode, ?_⟩
  show (s.files.remove _).2 = _
  rw [remove_file (resolve_modelFile hzero hp hd hclean hplain) hnode]

/-- **A private model goes with its file.** -/
theorem Inv.removed (h : Inv s) (huser : s.user ≠ []) {found : Str × Str → Bool}
    {engine : Str × Str} (hfind : s.enginePrivate.find? found = some engine)
    {cloud : List (Str × Str)} {s' : Session Fs} (hs' : s' = { s with
      enginePrivate := s.enginePrivate.eraseP found
      engineCloud := cloud
      files := (localFiles.remove s.files (modelFile s.user engine.2)).2 })
    (hunique : s'.registry.Unique) : Inv s' := by
  obtain ⟨p, data, hp, hd, hnode, hdel⟩ := h.remove huser hfind
  rw [hdel] at hs'
  subst hs'
  have hfile : ¬ s.files.IsDir (p ++ [engine.2]) := by simp [IsDir, hnode]
  have hkeeps := keepsDirs_del hfile
  refine ⟨h.wf.del_file hnode, fun _ => ⟨p, hkeeps.resolve hp, hkeeps.isDir p hd⟩, fun hzero => ?_,
    fun e he => h.drawn e (List.mem_of_mem_eraseP he), hunique, fun _ f => ?_,
    fun hnobody => absurd hnobody huser⟩
  · show s.enginePrivate.eraseP found = []
    rw [h.zero hzero]
    rfl
  · show (s.files.del (p ++ [engine.2])).Holds (userDir s.user) f ↔ _
    rw [holds_del hp hfile, mem_map_eraseP h.ids hfind, h.agree.files huser]

/-- The lists of the cloud are of no importance. -/
theorem Inv.cloud (h : Inv s) {cloud : List (Str × Str)} {task : Slot}
    (hunique : ({ s with engineCloud := cloud, task } : Session Fs).registry.Unique) :
    Inv { s with engineCloud := cloud, task } :=
  ⟨h.wf, h.dir, h.zero, h.drawn, hunique, h.agree.files, h.agree.nobody⟩

/-! ## Models that come -/

/-- **A private model comes with its file.** -/
theorem Inv.declared (h : Inv s) {data name : Str} {draw : Drawn} (huser : s.user ≠ [])
    (hopened : (localFiles.writeFile s.files (modelFile s.user draw.id) data).1 = true)
    {s' : Session Fs} (hs' : s' = { s with
      enginePrivate := s.enginePrivate ++ [(name, draw.id)]
      files := (localFiles.writeFile s.files (modelFile s.user draw.id) data).2 })
    (hunique : s'.registry.Unique) : Inv s' := by
  obtain ⟨p, hp, hd⟩ := h.dir huser
  obtain ⟨fs', hwrite⟩ := Option.ne_none_iff_exists'.mp (localFiles_opened.mp hopened)
  have hfiles : (localFiles.writeFile s.files (modelFile s.user draw.id) data).2 = fs' := by
    simp only [localFiles, hwrite]
  rw [hfiles] at hs'
  obtain ⟨q, hq, hfile, rfl⟩ := of_writeFile hwrite
  have hzero : 0 ∉ s.user := fun hzero => by
    -- the file would be the directory
    rw [resolve_modelFile_of_mem hzero, hp] at hq
    cases hq
    exact hfile hd
  rw [resolve_modelFile hzero hp hd draw.clean draw.plain] at hq
  cases hq
  subst hs'
  have hkeeps := keepsDirs_set_file hfile data
  refine ⟨h.wf.set (by rwa [List.dropLast_concat]) hfile,
    fun _ => ⟨p, hkeeps.resolve hp, hkeeps.isDir p hd⟩, fun hmem => absurd hmem hzero,
    fun engine he => ?_, hunique, fun _ f => ?_, fun hnobody => absurd hnobody huser⟩
  · rcases List.mem_append.mp he with he | he
    · exact h.drawn engine he
    · obtain rfl := List.mem_singleton.mp he
      exact ⟨draw, rfl⟩
  · show (s.files.set (p ++ [draw.id]) (.file data)).Holds (userDir s.user) f ↔
      f ∈ (s.enginePrivate ++ [(name, draw.id)]).map Prod.snd
    rw [holds_set hp hfile, h.agree.files huser, List.map_append, List.mem_append, or_comm,
      List.map_singleton, List.mem_singleton]

/-! ## Users that come and go -/

theorem Inv.unregistered (h : Inv s) (hprivate : s.enginePrivate = []) :
    Inv { s with user := [], files := s.files.removeAll (userDir s.user) } where
  wf := h.wf.removeAll _
  dir huser := absurd rfl huser
  zero _ := hprivate
  drawn := h.drawn
  unique := h.unique
  agree := ⟨fun huser => absurd rfl huser, fun _ => hprivate⟩

/-- What is left without the directory of the user was there before. -/
theorem Inv.cleared (h : Inv s) : (s.cleared localFiles).2.WellFormed ∧
    ∀ t f, (s.cleared localFiles).2.Holds t f → s.files.Holds t f := by
  unfold Session.cleared
  split_ifs
  · exact ⟨h.wf, fun t f hf => hf⟩
  · exact ⟨h.wf.removeAll _, fun t f hf => holds_removeAll hf⟩

theorem Inv.renamed (h : Inv s) (hprivate : s.enginePrivate = []) {name : Str}
    (hempty : name ≠ [] → ∀ f, ¬ s.files.Holds (userDir name) f)
    (hcreated : (localFiles.createDirectory (s.cleared localFiles).2 (userDir name)).1 = true) :
    Inv { s with
      user := name
      files := (localFiles.createDirectory (s.cleared localFiles).2 (userDir name)).2 } := by
  obtain ⟨hwf, hholds⟩ := h.cleared
  refine ⟨hwf.createDirectory _, fun _ => resolve_createDirectory hcreated, fun _ => hprivate,
    h.drawn, h.unique, fun hname f => ?_, fun _ => hprivate⟩
  show (localFiles.createDirectory _ _).2.Holds (userDir name) f ↔ f ∈ s.enginePrivate.map Prod.snd
  rw [hprivate]
  constructor
  · intro hf
    exact absurd (hholds _ _ (holds_createDirectory hwf hcreated hf)) (hempty hname f)
  · intro hf
    cases hf

/-! ## All commands -/

/-- The file operations of a command succeed. -/
def Succeeds (s : Session Fs) (c : Command) : Prop := (s.step localFiles c).1 ≠ none

instance (s : Session Fs) (c : Command) : Decidable (s.Succeeds c) :=
  inferInstanceAs (Decidable (_ ≠ _))

/-- **A command that is kept** keeps the files and the models together. -/
theorem Inv.after (h : Inv s) {c : Command} (hkept : s.Kept c)
    (hreturns : s.Succeeds c) : Inv (s.after localFiles c) := by
  have hchange := change_step localFiles s c
  have hunique := unique_after localFiles h.unique c
  unfold Session.after at hunique ⊢
  unfold Succeeds at hreturns
  generalize s.step localFiles c = out at hchange hunique hreturns
  cases hchange with
  | same => exact h
  | stuck c answer huser hstuck => cases hstuck
  | renamed htype hparam hname hanswer =>
    obtain ⟨hprivate, hempty⟩ := hkept _ htype hparam hname
    exact h.renamed hprivate hempty (hanswer hreturns)
  | unregistered answer htype hparam huser => exact h.unregistered (hkept htype hparam huser)
  | added c answer x huser => exact h.cloud hunique
  | declared answer hcreates hopened =>
    have huser := hkept ⟨_, _, hcreates, localFiles_opened.mp hopened⟩
    exact h.declared huser hopened rfl hunique
  | unopened answer hcreates hopened =>
    rw [localFiles_unopened hopened]
    exact h
  | removedCloud c answer found huser => exact h.cloud hunique
  | removedById answer huser hfind => exact h.removed huser hfind rfl hunique
  | removedByName answer huser hsel hfind =>
    have hid := hkept _ hsel _ (List.mem_of_find?_eq_some hfind) rfl
    exact h.removed huser hfind (by rw [hid]) hunique
  | forgotten answer found cloud huser hmem hempty =>
    obtain ⟨draw, hdraw⟩ := h.drawn _ hmem
    rcases hempty with hid | ⟨hname, hsel⟩
    · exact absurd (hdraw.trans hid) draw.ne_nil
    · exact absurd (hdraw.trans ((hkept _ hsel _ hmem rfl).trans hname)) draw.ne_nil
  | read c answer huser hmem => exact h
  | pushed c answer huser hfind => exact h.removed huser hfind rfl hunique
  | started remote message answer task huser hfiles =>
    rcases hfiles with rfl | ⟨engine, -, rfl⟩
    · exact h.cloud hunique
    · exact h.cloud hunique

/-- A command of a run in which the file operations succeed. -/
def Keeps (s : Session Fs) (c : Command) : Prop := s.Kept c ∧ s.Succeeds c

theorem inv_new {files : Fs} (hwf : files.WellFormed) : Inv { files } where
  wf := hwf
  dir huser := absurd rfl huser
  zero _ := rfl
  drawn engine he := by cases he
  unique := List.Pairwise.nil
  agree := ⟨fun huser => absurd rfl huser, fun _ => rfl⟩

/-- **The files and the models agree** after commands that are all kept. -/
theorem agree_foldl {files : Fs} (hwf : files.WellFormed) {commands : List Command}
    (h : Along Keeps (Session.after localFiles) { files } commands) :
    (commands.foldl (Session.after localFiles) { files }).Agree :=
  (h.foldl (fun _ _ hs hc => hs.after hc.1 hc.2) (inv_new hwf)).agree

theorem wellFormed_emptyFs : emptyFs.WellFormed := by
  intro p hp
  by_cases hnil : p = []
  · rw [hnil]
    rfl
  · rw [node, if_neg hnil] at hp
    exact absurd rfl hp

/-- A user with a model. -/
def declares : List Command :=
  [.REG ⟨.CMD, [lit "a"], []⟩, .MDDECL [drawnId] ⟨.LONG, [lit "m"], lit "x"⟩]

theorem keeps_declares : Along Keeps (Session.after localFiles) { files := emptyFs } declares := by
  refine ⟨⟨fun name _ hparam _ => ⟨rfl, fun _ f hf => ?_⟩, by decide +kernel⟩,
    ⟨fun _ => by decide +kernel, by decide +kernel⟩, trivial⟩
  obtain ⟨p, data, -, hnode⟩ := hf
  rw [show ({ files := emptyFs } : Session Fs).files = emptyFs from rfl, node,
    if_neg (by simp)] at hnode
  cases hnode

theorem agree_declares : (declares.foldl (Session.after localFiles) { files := emptyFs }).Agree :=
  agree_foldl wellFormed_emptyFs keeps_declares

/-- **A model without its user**: unregistering leaves the list as it is. -/
theorem unregistered_disagrees : ¬ ∀ (files : Fs) (commands : List Command), files.WellFormed →
    Along Succeeds (Session.after localFiles) { files } commands →
      (commands.foldl (Session.after localFiles) { files }).Agree := by
  intro h
  have hagree := h emptyFs
    [.REG ⟨.CMD, [lit "a"], []⟩, .MDDECL [drawnId] ⟨.LONG, [lit "m"], lit "x"⟩,
      .RTUNREG ⟨.CMD, [], []⟩] wellFormed_emptyFs
    ⟨by decide +kernel, by decide +kernel, by decide +kernel, trivial⟩
  have hprivate := hagree.nobody (by decide +kernel)
  revert hprivate
  decide +kernel

end Jxtd.Router.Session
