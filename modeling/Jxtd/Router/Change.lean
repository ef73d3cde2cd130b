import Jxtd.Router.SessionLists

/-!
# What a command changes

* `Selects`: the model that a command names; `Creates`: a command that makes a new private model.
* `Change`: everything that a command can do to the state and to the files.
* **`change_step`**: every command does one of these things.
* **`unregistered_iff`**: without a user, only a command that makes a private model changes
  something.
-/

namespace Jxtd.Router

open Lib Lib.Posix

/-- The only parameter of a message, around its first underscore. -/
def ATMessage.Selects (message : ATMessage) (judge temp : Str) : Prop :=
  ∃ param, message.param = [param] ∧ splitJudge param = some (judge, temp)

namespace Session

variable {φ : Type} {ops : FileOps φ} {s : Session φ}

/-- A message for a private model with a new name, and the id that is drawn for it. -/
structure Creates (s : Session φ) (draws : List Drawn) (message : ATMessage) (name : Str)
    (draw : Drawn) : Prop where
  type : message.type = .LONG
  param : message.param = [name]
  fresh : ∀ engine ∈ s.registry.models, engine.1 ≠ name
  drawn : createId s.registry draws = some draw

/-- The files after a private model is read. -/
def reading (ops : FileOps φ) (s : Session φ) (engine : Str × Str) : φ :=
  (ops.readFile s.files (modelFile s.user engine.2)).2

/-- The files are those of the state, or a private model was read. -/
def Reads (ops : FileOps φ) (s : Session φ) (files : φ) : Prop :=
  files = s.files ∨ ∃ engine ∈ s.enginePrivate, files = s.reading ops engine

/-- **Everything that a command can do.** -/
inductive Change (ops : FileOps φ) (s : Session φ) : Command → Answer × Session φ → Prop
  | same (c : Command) (answer : Answer) : Change ops s c (answer, s)
  | stuck (c : Command) (answer : Answer) (huser : s.user ≠ [])
      (h : (ops.removeAll s.files (userDir s.user)).1 = false) :
      Change ops s c (answer, { s with files := (ops.removeAll s.files (userDir s.user)).2 })
  | renamed {message : ATMessage} {name : Str} {answer : Answer} (htype : message.type = .CMD)
      (hparam : message.param = [name]) (hname : s.user ≠ name)
      (hanswer : answer ≠ none → (ops.createDirectory (s.cleared ops).2 (userDir name)).1 = true) :
      Change ops s (.REG message) (answer, { s with
        user := name
        files := (ops.createDirectory (s.cleared ops).2 (userDir name)).2 })
  | unregistered {message : ATMessage} (answer : Answer) (htype : message.type = .CMD)
      (hparam : message.param = []) (huser : s.user ≠ []) :
      Change ops s (.RTUNREG message) (answer, { s with
        user := []
        files := (ops.removeAll s.files (userDir s.user)).2 })
  | added (c : Command) (answer : Answer) (x : Str × Str) (huser : s.user ≠ []) :
      Change ops s c (answer, { s with engineCloud := s.engineCloud ++ [x] })
  | declared {draws : List Drawn} {message : ATMessage} {name : Str} {draw : Drawn}
      (answer : Answer) (h : s.Creates draws message name draw)
      (hopened : (ops.writeFile s.files (modelFile s.user draw.id) message.data).1 = true) :
      Change ops s (.MDDECL draws message) (answer, { s with
        enginePrivate := s.enginePrivate ++ [(name, draw.id)]
        files := (ops.writeFile s.files (modelFile s.user draw.id) message.data).2 })
  | unopened {draws : List Drawn} {message : ATMessage} {name : Str} {draw : Drawn}
      (answer : Answer) (h : s.Creates draws message name draw)
      (hopened : (ops.writeFile s.files (modelFile s.user draw.id) message.data).1 = false) :
      Change ops s (.MDDECL draws message) (answer, { s with
        files := (ops.writeFile s.files (modelFile s.user draw.id) message.data).2 })
  | removedCloud (c : Command) (answer : Answer) (found : Str × Str → Bool) (huser : s.user ≠ []) :
      Change ops s c (answer, { s with engineCloud := s.engineCloud.eraseP found })
  | removedById {message : ATMessage} {engine : Str × Str} (answer : Answer) (huser : s.user ≠ [])
      (hfind : s.enginePrivate.find? (fun e => engine.2 = e.2) = some engine) :
      Change ops s (.MDRM message) (answer, { s with
        enginePrivate := s.enginePrivate.eraseP fun e => engine.2 = e.2
        files := (ops.remove s.files (modelFile s.user engine.2)).2 })
  | removedByName {message : ATMessage} {engine : Str × Str} (answer : Answer) (huser : s.user ≠ [])
      (hsel : message.Selects (lit "name") engine.1)
      (hfind : s.enginePrivate.find? (fun e => engine.1 = e.1) = some engine) :
      Change ops s (.MDRM message) (answer, { s with
        enginePrivate := s.enginePrivate.eraseP fun e => engine.1 = e.1
        files := (ops.remove s.files (modelFile s.user engine.1)).2 })
  | forgotten {message : ATMessage} {engine : Str × Str} (answer : Answer)
      (found : Str × Str → Bool) (cloud : List (Str × Str)) (huser : s.user ≠ [])
      (hmem : engine ∈ s.enginePrivate)
      (hempty : engine.2 = [] ∨ engine.1 = [] ∧ message.Selects (lit "name") engine.1) :
      Change ops s (.MDRM message) (answer, { s with
        enginePrivate := s.enginePrivate.eraseP found
        engineCloud := cloud })
  | read {engine : Str × Str} (c : Command) (answer : Answer) (huser : s.user ≠ [])
      (hmem : engine ∈ s.enginePrivate) :
      Change ops s c (answer, { s with files := s.reading ops engine })
  | pushed {engine : Str × Str} {found : Str × Str → Bool} (c : Command) (answer : Answer)
      (huser : s.user ≠ []) (hfind : s.enginePrivate.find? found = some engine) :
      Change ops s c (answer, { s with
        enginePrivate := s.enginePrivate.eraseP found
        engineCloud := s.engineCloud ++ [engine]
        files := (ops.remove (s.reading ops engine) (modelFile s.user engine.2)).2 })
  | started {files : φ} (remote : Remote) (message : ATMessage) (answer : Answer)
      (task : Slot) (huser : s.user ≠ []) (hfiles : Reads ops s files) :
      Change ops s (.CPSTART remote message) (answer, { s with files, task })

theorem Change.ite {c : Command} {p : Prop} [Decidable p] {out₁ out₂ : Answer × Session φ}
    (h₁ : p → Change ops s c out₁) (h₂ : ¬ p → Change ops s c out₂) :
    Change ops s c (if p then out₁ else out₂) := by
  split_ifs with h
  · exact h₁ h
  · exact h₂ h

/-! ## Each command -/

variable {message : ATMessage}

theorem change_REG : Change ops s (.REG message) (s.REG ops message) := by
  unfold REG
  dsimp only
  split
  · rename_i htype
    split
    · rename_i name hparam
      split_ifs with hname hremoved hcreated
      · exact .same _ _
      · have hremoved : (s.cleared ops).1 = false := by simpa using hremoved
        by_cases huser : s.user = []
        · rw [cleared, if_pos huser] at hremoved
          cases hremoved
        · rw [cleared, if_neg huser] at hremoved ⊢
          exact .stuck _ _ huser hremoved
      · exact .renamed htype hparam hname fun _ => hcreated
      · exact .renamed htype hparam hname fun hanswer => absurd rfl hanswer
    · exact .same _ _
  · exact .same _ _
  · exact .same _ _

theorem change_RTUNREG : Change ops s (.RTUNREG message) (s.RTUNREG ops message) := by
  unfold RTUNREG
  dsimp only
  split
  · rename_i htype hparam
    split_ifs with huser hremoved
    · exact .same _ _
    · exact .stuck _ _ huser (by simpa using hremoved)
    · exact .unregistered _ htype hparam huser
  · exact .same _ _

theorem change_MDDECL (draws : List Drawn) :
    Change ops s (.MDDECL draws message) (s.MDDECL ops draws message) := by
  unfold MDDECL
  dsimp only
  split
  · rename_i name htype hparam
    split
    · exact .same _ _
    · exact .same _ _
    · rename_i hprivate hcloud
      split
      · exact .same _ _
      · rename_i draw hdraw
        have hcreates : s.Creates draws message name draw :=
          ⟨htype, hparam, ne_of_find?_append hprivate hcloud, hdraw⟩
        split_ifs with hopened
        · exact .unopened _ hcreates (by simpa using hopened)
        · exact .declared _ hcreates (by simpa using hopened)
  · rename_i hother
    obtain ⟨type, param, data⟩ := message
    unfold Router.MDDECL
    dsimp only
    split
    · by_cases huser : s.user = []
      · rw [if_pos (show s.registry.user = [] from huser)]
        exact .same _ _
      · rw [if_neg (show s.registry.user ≠ [] from huser)]
        split
        · split
          · exact .same _ _
          · exact .same _ _
          · exact .added _ _ _ huser
        · split
          · exact .same _ _
          · split_ifs
            · split <;> exact .same _ _
            · split <;> exact .same _ _
            · split <;> exact .same _ _
            · exact .same _ _
        · exact .same _ _
    · split_ifs <;> exact .same _ _
    · split
      · rename_i name
        exact absurd rfl (hother name rfl)
      · exact .same _ _
    · exact .same _ _

theorem change_MDRM : Change ops s (.MDRM message) (s.MDRM ops message) := by
  unfold MDRM
  dsimp only
  split
  · rename_i param htype hparam
    refine .ite (fun _ => .same _ _) fun huser => ?_
    split
    · exact .same _ _
    · rename_i judge temp hsplit
      have hsel : message.Selects judge temp := ⟨param, hparam, hsplit⟩
      refine .ite (fun _ => ?_) fun _ => .ite (fun _ => ?_) fun _ =>
        .ite (fun hname => ?_) fun _ => .same _ _
      · exact .ite (fun _ => .removedCloud _ _ _ huser) fun _ => .same _ _
      · split
        · exact .same _ _
        · rename_i engine hfind
          have htemp : temp = engine.2 := by simpa using List.find?_some hfind
          subst htemp
          refine .ite (fun hempty => ?_) fun _ => .removedById _ huser hfind
          exact .forgotten _ _ _ huser (List.mem_of_find?_eq_some hfind) (.inl hempty)
      · subst hname
        split
        · rename_i engine hfilter
          obtain ⟨hfind, -⟩ := Option.filter_eq_some_iff.mp hfilter
          have htemp : temp = engine.1 := by simpa using List.find?_some hfind
          subst htemp
          exact .removedByName _ huser hsel hfind
        · rename_i hfilter
          cases hfind : s.enginePrivate.find? fun engine => decide (temp = engine.1) with
          | none =>
            have herase : s.enginePrivate.eraseP (fun engine => decide (temp = engine.1)) =
                s.enginePrivate := List.eraseP_of_forall_not (List.find?_eq_none.mp hfind)
            rw [herase]
            exact .ite (fun _ => .removedCloud _ _ _ huser) fun _ => .same _ _
          | some engine =>
            rw [hfind] at hfilter
            have hempty : engine.1 = [] := by simpa using hfilter
            have htemp : temp = engine.1 := by simpa using List.find?_some hfind
            subst htemp
            have hforgotten (cloud : List (Str × Str)) (answer : Answer) :=
              (Change.forgotten answer (fun e => engine.1 = e.1) cloud huser
                (List.mem_of_find?_eq_some hfind) (.inr ⟨hempty, hsel⟩) : Change ops s _ _)
            exact .ite (fun _ => hforgotten _ _) fun _ => hforgotten _ _
  · exact .same _ _

theorem change_pushPrivate (c : Command) (huser : s.user ≠ []) (pushed : Str → Str → Str → Bool)
    (temp : Str) (found : Str × Str → Bool) :
    Change ops s c (s.pushPrivate ops pushed temp found) := by
  unfold pushPrivate
  cases hfind : s.enginePrivate.find? found with
  | none => exact .same _ _
  | some engine =>
    have hmem := List.mem_of_find?_eq_some hfind
    refine .ite (fun _ => .same _ _) fun _ => ?_
    dsimp only
    split
    · exact .read _ _ huser hmem
    · exact .ite (fun _ => .read _ _ huser hmem) fun _ => .pushed _ _ huser hfind

theorem change_MDPUSH (flag : Flag) (draws : List Drawn) (transfer : Datatransfer.Request → Bool) :
    Change ops s (.MDPUSH flag draws transfer message)
      (s.MDPUSH ops flag draws transfer message) := by
  unfold MDPUSH
  dsimp only
  split
  · refine .ite (fun _ => .same _ _) fun huser => .ite (fun _ => .same _ _) fun _ =>
      .ite (fun _ => .same _ _) fun _ => ?_
    split
    · split
      · exact .same _ _
      · exact .ite (fun _ => change_pushPrivate _ huser _ _ _) fun _ =>
          .ite (fun _ => change_pushPrivate _ huser _ _ _) fun _ => .same _ _
    · split
      · exact .same _ _
      · split
        · exact .same _ _
        · exact .ite (fun _ => .same _ _) fun _ => .added _ _ _ huser
    · exact .same _ _
  · exact .same _ _

theorem reads_readEngine (found : Str × Str → Bool) : Reads ops s (s.readEngine ops found).2 := by
  unfold readEngine
  split
  · exact .inl rfl
  · rename_i engine hfind
    exact .inr ⟨engine, List.mem_of_find?_eq_some hfind, rfl⟩

theorem reads_findEngine (judge temp : Str) : Reads ops s (s.findEngine ops judge temp).2 := by
  unfold findEngine
  dsimp only
  split_ifs
  · exact .inl rfl
  · exact reads_readEngine _
  · split
    · exact .inl rfl
    · exact reads_readEngine _
  · exact .inl rfl

/-- A start is refused, or a model of the user is looked up for the idle slot. -/
theorem startEngine_cases (ops : FileOps φ) (s : Session φ) (message : ATMessage) :
    (∃ answer, s.startEngine ops message = (.error answer, s.files)) ∨
      s.user ≠ [] ∧ Reads ops s (s.startEngine ops message).2 := by
  unfold startEngine
  split
  · exact .inl ⟨_, rfl⟩
  · split_ifs with _ _ huser
    · exact .inl ⟨_, rfl⟩
    · exact .inl ⟨_, rfl⟩
    · exact .inl ⟨_, rfl⟩
    · exact .inl ⟨_, rfl⟩
    split
    · exact .inl ⟨_, rfl⟩
    · exact .inr ⟨huser, reads_findEngine _ _⟩

theorem change_CPSTART (remote : Remote) :
    Change ops s (.CPSTART remote message) (s.CPSTART ops remote message) := by
  unfold CPSTART
  obtain ⟨answer, hrefused⟩ | ⟨huser, hreads⟩ := startEngine_cases ops s message
  · rw [hrefused]
    exact .same _ _
  · dsimp only
    split
    · exact .started _ _ _ s.task huser hreads
    · refine .ite (fun _ => .started _ _ _ s.task huser hreads) fun _ =>
        .ite (fun _ => .started _ _ _ _ huser hreads) fun _ => .ite (fun _ => ?_) fun _ =>
          .started _ _ _ _ huser hreads
      split
      · exact .started _ _ _ _ huser hreads
      · exact .ite (fun _ => .started _ _ _ _ huser hreads) fun _ =>
          .started _ _ _ _ huser hreads

/-- **A command** does one of these things. -/
theorem change_step (ops : FileOps φ) (s : Session φ) (c : Command) :
    Change ops s c (s.step ops c) := by
  cases c with
  | REG message => exact change_REG
  | RTUNREG message => exact change_RTUNREG
  | MDDECL draws message => exact change_MDDECL draws
  | MDRM message => exact change_MDRM
  | MDPUSH flag draws transfer message => exact change_MDPUSH flag draws transfer
  | CPSTART remote message => exact change_CPSTART remote

/-! ## Without a user -/

theorem MDDECL_of_creates {draws : List Drawn} {name : Str} {draw : Drawn}
    (h : s.Creates draws message name draw)
    (hopened : (ops.writeFile s.files (modelFile s.user draw.id) message.data).1 = true) :
    s.after ops (.MDDECL draws message) = { s with
      enginePrivate := s.enginePrivate ++ [(name, draw.id)]
      files := (ops.writeFile s.files (modelFile s.user draw.id) message.data).2 } := by
  obtain ⟨type, param, data⟩ := message
  obtain ⟨rfl, rfl, hfresh, hdraw⟩ := h
  have hnone {xs : List (Str × Str)} (hxs : ∀ engine ∈ xs, engine ∈ s.registry.models) :
      xs.find? (fun engine => decide (engine.1 = name)) = none :=
    List.find?_eq_none.mpr fun engine he heq =>
      hfresh engine (hxs engine he) (of_decide_eq_true heq)
  have hprivate : s.enginePrivate.find? (fun engine => decide (engine.1 = name)) = none :=
    hnone fun engine he => List.mem_append_left _ he
  have hcloud : s.engineCloud.find? (fun engine => decide (engine.1 = name)) = none :=
    hnone fun engine he => List.mem_append_right _ he
  simp [after, step, MDDECL, hprivate, hcloud, hdraw, hopened]

/-- The commands on models. -/
def OnModels : Command → Prop
  | .REG _ | .RTUNREG _ => False
  | .MDDECL _ _ | .MDRM _ | .MDPUSH _ _ _ _ | .CPSTART _ _ => True

/-- A command that makes a new private model with its file. -/
def Makes (s : Session Fs) : Command → Prop
  | .MDDECL draws message => ∃ name draw, s.Creates draws message name draw ∧
      s.files.writeFile (modelFile s.user draw.id) message.data ≠ none
  | _ => False

theorem localFiles_opened {fs : Fs} {path data : Str} :
    (localFiles.writeFile fs path data).1 = true ↔ fs.writeFile path data ≠ none := by
  simp only [localFiles]
  cases fs.writeFile path data <;> simp

theorem localFiles_unopened {fs : Fs} {path data : Str}
    (h : (localFiles.writeFile fs path data).1 = false) :
    (localFiles.writeFile fs path data).2 = fs := by
  simp only [localFiles] at h ⊢
  cases hw : fs.writeFile path data with
  | none => rfl
  | some fs' =>
    rw [hw] at h
    cases h

/-- A model that is made stands in the list. -/
theorem after_ne_of_makes {s : Session Fs} {c : Command} (h : s.Makes c) :
    s.after localFiles c ≠ s := by
  cases c with
  | MDDECL draws message =>
    obtain ⟨name, draw, hcreates, hopened⟩ := h
    rw [MDDECL_of_creates hcreates (localFiles_opened.mpr hopened)]
    intro heq
    have hprivate := congrArg (fun s => s.enginePrivate.length) heq
    simp at hprivate
  | REG | RTUNREG | MDRM | MDPUSH | CPSTART => cases h

theorem after_eq_of_not_makes {s : Session Fs} {c : Command} (hs : s.user = []) (hc : OnModels c)
    (h : ¬ s.Makes c) : s.after localFiles c = s := by
  have hchange := change_step localFiles s c
  unfold after
  generalize s.step localFiles c = out at hchange
  cases hchange with
  | same => rfl
  | unopened answer hcreates hopened => rw [localFiles_unopened hopened]
  | declared answer hcreates hopened =>
    exact absurd ⟨_, _, hcreates, localFiles_opened.mp hopened⟩ h
  | renamed | unregistered => cases hc
  | stuck | added | removedCloud | removedById | removedByName | forgotten | read | pushed
  | started => contradiction

/-- **Without a user** a command on models changes something exactly when it makes a model: only
that variant does not ask for a user. -/
theorem unregistered_iff {s : Session Fs} {c : Command} (hs : s.user = []) (hc : OnModels c) :
    s.after localFiles c = s ↔ ¬ s.Makes c :=
  ⟨fun heq hmakes => after_ne_of_makes hmakes heq, after_eq_of_not_makes hs hc⟩

/-- A file system with nothing but its root. -/
def emptyFs : Fs := ⟨∅, ∅, []⟩

def drawnId : Drawn where
  id := lit "1234ABcd"
  bytes := List.all_eq_true.mp (by decide)
  digits := by decide
  letters := by decide

/-- A model that is made, and one that is removed while there is none. -/
theorem unregistered_iff_remove :
    after localFiles { files := emptyFs } (.MDDECL [drawnId] ⟨.LONG, [lit "m"], lit "x"⟩) ≠
      { files := emptyFs } ∧
    after localFiles { files := emptyFs } (.MDRM ⟨.CMD, [lit "id_7"], []⟩) =
      { files := emptyFs } := by
  constructor
  · intro heq
    have hmakes : Makes { files := emptyFs } (.MDDECL [drawnId] ⟨.LONG, [lit "m"], lit "x"⟩) :=
      ⟨lit "m", drawnId, ⟨rfl, rfl, List.forall_mem_nil _, rfl⟩, by decide +kernel⟩
    exact (unregistered_iff rfl (by trivial)).mp heq hmakes
  · exact (unregistered_iff rfl (by trivial)).mpr id

/-- **A model without a user.** -/
theorem unregistered_declares : ¬ ∀ (s : Session Fs) (c : Command), s.user = [] → OnModels c →
    s.after localFiles c = s := by
  intro h
  have hprivate := congrArg enginePrivate
    (h { files := emptyFs } (.MDDECL [drawnId] ⟨.LONG, [lit "m"], lit "x"⟩) rfl trivial)
  revert hprivate
  decide +kernel

end Session

end Jxtd.Router
