import Jxtd.Proto.Taskdep.Message
import Jxtd.Storage.Fs.Operations

/-!
# The storage manager

`Datamanager`: the area of the file system below its root, and the tables of the bound tasks and of
their extra files. Every function is generic in the file operations of the current service.

* `init`, `runtimePull`, …, `binaryRemove`: `Datamanager::init` and the three areas.
* `taskBind`, …, `removeExtfiles`: the tables; `emplace` keeps an entry that is there.
* `pullData`, `pushData`: the macros `PULL_DATA` and `PUSH_DATA`.
-/

namespace Jxtd.Storage

open Lib Taskdep

/-- What ends the process: `std::string` of a negative length. -/
inductive Fault
  | lengthError
  deriving DecidableEq

structure Datamanager where
  rootPath : Str
  isInit : Bool
  taskExtfiles : AList fun _ : UInt64 => List Extfile
  taskEngine : AList fun _ : UInt64 => (Str × Str) × List Engine

/-- The constructor chooses the local service and leaves the root unset. -/
def Datamanager.new : Datamanager := ⟨[], false, ∅, ∅⟩

namespace Datamanager

variable {σ : Type} (ops : Operations σ)

/-! ## The areas -/

def init (d : Datamanager) (s : σ) (path : Str) (isNewRoot : Bool) : ℤ × Datamanager × σ :=
  let d := { d with taskEngine := ∅, taskExtfiles := ∅ }
  if isNewRoot then
    let (judge, s) := ops.mkdir s path
    if judge = -1 then (-1, d, s)
    else
      let (judge, s) := ops.opendir s path { directory := true }
      if judge = -1 then (-1, d, s)
      else
        let s := (ops.mkdir s (path ++ lit "/runtime")).2
        let s := (ops.mkdir s (path ++ lit "/engine")).2
        let s := (ops.mkdir s (path ++ lit "/binary")).2
        (0, { d with rootPath := path, isInit := true }, (ops.closedir s judge).2)
  else
    let (judge, s) := ops.opendir s path { directory := true }
    if judge = -1 then (-1, d, s)
    else (0, { d with rootPath := path, isInit := true }, (ops.closedir s judge).2)

/-- `int size = fsize(fd)` keeps the low 32 bits. -/
def narrow (n : ℤ) : ℤ := n.bmod (2 ^ 32)

/-- `PULL_DATA` on the result of `open`. -/
def pullData (s : σ) (fd : ℤ) : Except Fault (Str × σ) :=
  if fd = -1 then .ok ([], s)
  else
    let (n, s) := ops.fsize s fd
    let size := narrow n
    if size = -1 then .ok ([], (ops.close s fd).2)
    else if size < 0 then .error .lengthError
    else
      match ops.read s fd size.toNat with
      | (none, s) => .ok ([], (ops.close s fd).2)
      -- the buffer is filled with zeros before
      | (some data, s) =>
        .ok (data ++ List.replicate (size.toNat - data.length) 0, (ops.close s fd).2)

/-- `PUSH_DATA` on the result of `open`. -/
def pushData (s : σ) (fd : ℤ) (data : Str) : ℤ × σ :=
  if fd = -1 then (-1, s)
  else
    let (written, s) := ops.write s fd data
    if written = -1 then (-1, (ops.close s fd).2) else (0, (ops.close s fd).2)

variable {ops}

theorem pushData_ok {s s' : σ} {fd n : ℤ} {data : Str} (hfd : fd ≠ -1)
    (hwrite : ops.write s fd data = (n, s')) (hn : n ≠ -1) :
    pushData ops s fd data = (0, (ops.close s' fd).2) := by
  rw [pushData, if_neg hfd]
  simp only [hwrite]
  rw [if_neg hn]

theorem pullData_ok {s s₁ s₂ : σ} {fd n : ℤ} {data : Str} (hfd : fd ≠ -1)
    (hsize : ops.fsize s fd = (n, s₁)) (hn : 0 ≤ narrow n)
    (hread : ops.read s₁ fd (narrow n).toNat = (some data, s₂)) :
    pullData ops s fd = .ok
      (data ++ List.replicate ((narrow n).toNat - data.length) 0, (ops.close s₂ fd).2) := by
  rw [pullData, if_neg hfd]
  simp only [hsize]
  rw [if_neg (by omega), if_neg (by omega)]
  simp only [hread]

variable (ops)

/-- The file of a task's runtime data. -/
def runtimePath (d : Datamanager) (taskid : UInt64) : Str :=
  d.rootPath ++ lit "/runtime/Task_" ++ decimal taskid.toNat

def runtimePull (d : Datamanager) (s : σ) (taskid : UInt64) : Except Fault (Str × σ) :=
  let (fd, s) := ops.openFile s (d.runtimePath taskid) {}
  pullData ops s fd

def runtimePush (d : Datamanager) (s : σ) (taskid : UInt64) (runtime : Str) : ℤ × σ :=
  let (fd, s) := ops.openFile s (d.runtimePath taskid)
    { creat := true, write := true, append := true }
  pushData ops s fd runtime

def runtimeRemove (d : Datamanager) (s : σ) (taskid : UInt64) : σ :=
  (ops.remove s (d.runtimePath taskid)).2

/-- The name of an engine's file. -/
def engineFile (mid name : Str) : Str := lit "JXTDENGINE_" ++ mid ++ lit "_" ++ name ++ lit ".so"

def enginePath (d : Datamanager) (mid name : Str) : Str :=
  d.rootPath ++ lit "/engine/" ++ engineFile mid name

def enginePull (d : Datamanager) (s : σ) (mid name : Str) : Except Fault (Str × σ) :=
  let (fd, s) := ops.openFile s (d.enginePath mid name) {}
  pullData ops s fd

def enginePush (d : Datamanager) (s : σ) (mid name engine : Str) : ℤ × σ :=
  let (fd, s) := ops.openFile s (d.enginePath mid name)
    { write := true, creat := true, excl := true }
  pushData ops s fd engine

def engineRemove (d : Datamanager) (s : σ) (mid name : Str) : σ :=
  (ops.remove s (d.enginePath mid name)).2

def binaryPath (d : Datamanager) (path : Str) : Str := d.rootPath ++ lit "/binary/" ++ path

def binaryPull (d : Datamanager) (s : σ) (path : Str) : Except Fault (Str × σ) :=
  let (fd, s) := ops.openFile s (d.binaryPath path) {}
  pullData ops s fd

/-- The first loop of `binary_push`: shorten the path until it is a directory or one name. The
descriptor of the directory is not closed. -/
def openParent (d : Datamanager) (s : σ) (path : Str) : Bool × Str × σ :=
  match ops.opendir s (d.binaryPath path) { directory := true } with
  | (fd, s) =>
    if fd = -1 then
      match _h : Posix.findLastSlash path with
      | none => (true, path, s)
      | some pos => openParent d s (path.take pos)
    else (false, path, s)
termination_by path.length
decreasing_by
  have := Posix.findLastSlash_lt _h
  rw [List.length_take]
  omega

theorem openParent_eq (d : Datamanager) (s : σ) (path : Str) :
    openParent ops d s path =
      if (ops.opendir s (d.binaryPath path) { directory := true }).1 = -1 then
        (Posix.findLastSlash path).elim
          (true, path, (ops.opendir s (d.binaryPath path) { directory := true }).2) fun pos =>
            openParent ops d (ops.opendir s (d.binaryPath path) { directory := true }).2
              (path.take pos)
      else (false, path, (ops.opendir s (d.binaryPath path) { directory := true }).2) := by
  rw [openParent]
  dsimp only
  split_ifs
  · split
    · rename_i hpos
      rw [hpos]
      rfl
    · rename_i pos hpos
      rw [hpos]
      rfl
  · rfl

/-- The second loop of `binary_push`: make a directory for every slash of `substr`. -/
def makeParents (d : Datamanager) (s : σ) (path substr : Str) : σ :=
  match _h : substr.findIdx? fun b => b = Posix.slash with
  | none => s
  | some pos =>
    let path := path ++ substr.take (pos + 1)
    makeParents d (ops.mkdir s (d.binaryPath path)).2 path (substr.drop (pos + 1))
termination_by substr.length
decreasing_by
  have := (List.findIdx?_eq_some_iff_findIdx_eq.mp _h).1
  rw [List.length_drop]
  omega

def binaryPush (d : Datamanager) (s : σ) (path binary : Str) : ℤ × σ :=
  let s :=
    match Posix.findLastSlash path with
    | none => s
    | some pos =>
      let (create, path', s) := openParent ops d s (path.take pos)
      let substr := path.drop (path'.length + 1)
      let s := if create then (ops.mkdir s (d.binaryPath path')).2 else s
      makeParents ops d s (path' ++ lit "/") substr
  let (fd, s) := ops.openFile s (d.binaryPath path) { write := true, creat := true, excl := true }
  pushData ops s fd binary

/-- The state in which `binary_push` opens the file. -/
def makeDirectories (d : Datamanager) (s : σ) (path : Str) : σ :=
  match Posix.findLastSlash path with
  | none => s
  | some pos =>
    let (create, path', s) := openParent ops d s (path.take pos)
    let substr := path.drop (path'.length + 1)
    let s := if create then (ops.mkdir s (d.binaryPath path')).2 else s
    makeParents ops d s (path' ++ lit "/") substr

theorem binaryPush_eq (d : Datamanager) (s : σ) (path binary : Str) :
    binaryPush ops d s path binary =
      let (fd, s) := ops.openFile (makeDirectories ops d s path) (d.binaryPath path)
        { write := true, creat := true, excl := true }
      pushData ops s fd binary := rfl

section Directories

variable {ops} {R : σ → σ → Prop}

/-- What holds across every `opendir` holds across the first loop of `binary_push`. -/
theorem openParent_rel (htrans : ∀ {a b c}, R a b → R b c → R a c)
    (hopen : ∀ s path, R s (ops.opendir s path { directory := true }).2) (d : Datamanager) (s : σ)
    (path : Str) : R s (openParent ops d s path).2.2 := by
  induction hn : path.length using Nat.strong_induction_on generalizing s path with
  | _ n ih =>
    subst hn
    rw [openParent]
    have h := hopen s (d.binaryPath path)
    dsimp only
    split_ifs
    · split
      · exact h
      · rename_i pos hpos
        exact htrans h (ih _ (Posix.length_take_lt hpos) _ _ rfl)
    · exact h

/-- What holds across every `mkdir` holds across the second loop. -/
theorem makeParents_rel (hrefl : ∀ a, R a a) (htrans : ∀ {a b c}, R a b → R b c → R a c)
    (hmkdir : ∀ s path, R s (ops.mkdir s path).2) (d : Datamanager) (s : σ) (path substr : Str) :
    R s (makeParents ops d s path substr) := by
  induction hn : substr.length using Nat.strong_induction_on generalizing s path substr with
  | _ n ih =>
    subst hn
    rw [makeParents]
    split
    · exact hrefl s
    · rename_i pos hpos
      refine htrans (hmkdir s _) (ih _ ?_ _ _ _ rfl)
      have := (List.findIdx?_eq_some_iff_findIdx_eq.mp hpos).1
      rw [List.length_drop]
      omega

/-! What the loops are called with is always a part of the path that ends before a slash. -/

theorem openParent_along (htrans : ∀ {a b c}, R a b → R b c → R a c) {full : Str}
    (d : Datamanager) (hopen : ∀ s b, b ++ [Posix.slash] <+: full →
      R s (ops.opendir s (d.binaryPath b) { directory := true }).2) (s : σ) {path : Str}
    (hpath : path ++ [Posix.slash] <+: full) :
    R s (openParent ops d s path).2.2 ∧ (openParent ops d s path).2.1 ++ [Posix.slash] <+: full := by
  induction hn : path.length using Nat.strong_induction_on generalizing s path with
  | _ n ih =>
    subst hn
    have h := hopen s path hpath
    rw [openParent_eq]
    split_ifs
    · cases hpos : Posix.findLastSlash path with
      | none => exact ⟨h, hpath⟩
      | some pos =>
        have hlt := Posix.length_take_lt hpos
        have hup : path.take pos ++ [Posix.slash] <+: full :=
          (Posix.take_findLastSlash hpos).trans ((List.prefix_append path _).trans hpath)
        obtain ⟨hR, hb⟩ := ih _ hlt (ops.opendir s (d.binaryPath path) { directory := true }).2 hup
          rfl
        exact ⟨htrans h hR, hb⟩
    · exact ⟨h, hpath⟩

theorem append_drop_of_prefix {b path : Str} (h : b ++ [Posix.slash] <+: path) :
    (b ++ [Posix.slash]) ++ path.drop (b.length + 1) = path := by
  obtain ⟨rest, rfl⟩ := h
  have hlen : b.length + 1 = (b ++ [Posix.slash]).length := by simp
  rw [hlen, List.drop_left]

theorem makeParents_along (hrefl : ∀ a, R a a) (htrans : ∀ {a b c}, R a b → R b c → R a c)
    {full : Str} (d : Datamanager) (hmkdir : ∀ s b, b ++ [Posix.slash] <+: full →
      R s (ops.mkdir s (d.binaryPath (b ++ [Posix.slash]))).2) (s : σ) {path substr : Str}
    (hfull : path ++ substr = full) : R s (makeParents ops d s path substr) := by
  induction hn : substr.length using Nat.strong_induction_on generalizing s path substr with
  | _ n ih =>
    subst hn
    rw [makeParents]
    split
    · exact hrefl s
    · rename_i pos hpos
      obtain ⟨hlt, hslash, -⟩ := List.findIdx?_eq_some_iff_getElem.mp hpos
      have htake : path ++ substr.take (pos + 1) = (path ++ substr.take pos) ++ [Posix.slash] := by
        rw [List.take_succ_eq_append_getElem hlt, of_decide_eq_true hslash, List.append_assoc]
      have hrest : path ++ substr.take (pos + 1) ++ substr.drop (pos + 1) = full := by
        rw [List.append_assoc, List.take_append_drop, hfull]
      have hstep := hmkdir s (path ++ substr.take pos) ⟨substr.drop (pos + 1), htake ▸ hrest⟩
      rw [← htake] at hstep
      refine htrans hstep (ih _ ?_ _ hrest rfl)
      rw [List.length_drop]
      omega

/-- **What holds across every call of `binary_push` on a directory of its path.** -/
theorem makeDirectories_along (hrefl : ∀ a, R a a) (htrans : ∀ {a b c}, R a b → R b c → R a c)
    (d : Datamanager) (path : Str)
    (hopen : ∀ s b, b ++ [Posix.slash] <+: path →
      R s (ops.opendir s (d.binaryPath b) { directory := true }).2)
    (hfirst : ∀ s b, b ++ [Posix.slash] <+: path → R s (ops.mkdir s (d.binaryPath b)).2)
    (hmkdir : ∀ s b, b ++ [Posix.slash] <+: path →
      R s (ops.mkdir s (d.binaryPath (b ++ [Posix.slash]))).2) (s : σ) :
    R s (makeDirectories ops d s path) := by
  unfold makeDirectories
  cases hpos : Posix.findLastSlash path with
  | none => exact hrefl s
  | some pos =>
    have hparent := Posix.take_findLastSlash hpos
    have hopened : R s (openParent ops d s (path.take pos)).2.2 ∧
        (openParent ops d s (path.take pos)).2.1 ++ [Posix.slash] <+: path :=
      openParent_along @htrans d hopen s hparent
    obtain ⟨hR, hb⟩ := hopened
    have hsplit := append_drop_of_prefix hb
    dsimp only
    split_ifs
    · exact htrans (htrans hR (hfirst _ _ hb))
        (makeParents_along hrefl @htrans d hmkdir _ hsplit)
    · exact htrans hR (makeParents_along hrefl @htrans d hmkdir _ hsplit)

end Directories

def binaryRemove (d : Datamanager) (s : σ) (path : Str) : σ := (ops.remove s (d.binaryPath path)).2

/-! ## The tables -/

def taskExist (d : Datamanager) (taskid : UInt64) : Bool := taskid ∈ d.taskEngine

def taskBind (d : Datamanager) (taskid : UInt64) (engine : Str × Str) (deps : List Engine) :
    Datamanager :=
  if d.taskExist taskid then d
  else { d with taskEngine := d.taskEngine.insert taskid (engine, deps) }

def taskUnbind (d : Datamanager) (taskid : UInt64) : Datamanager :=
  { d with taskEngine := d.taskEngine.erase taskid }

def getTaskEngine (d : Datamanager) (taskid : UInt64) : Option ((Str × Str) × List Engine) :=
  d.taskEngine.lookup taskid

def getTaskExtfiles (d : Datamanager) (taskid : UInt64) : Option (List Extfile) :=
  d.taskExtfiles.lookup taskid

def extfilesExist (d : Datamanager) (taskid : UInt64) : Bool := taskid ∈ d.taskExtfiles

def addExtfiles (d : Datamanager) (taskid : UInt64) (extfiles : List Extfile) : Datamanager :=
  if d.extfilesExist taskid then d
  else { d with taskExtfiles := d.taskExtfiles.insert taskid extfiles }

def removeExtfiles (d : Datamanager) (taskid : UInt64) : Datamanager :=
  { d with taskExtfiles := d.taskExtfiles.erase taskid }

theorem taskExist_eq (d : Datamanager) (taskid : UInt64) :
    d.taskExist taskid = (d.getTaskEngine taskid).isSome := by
  rw [Bool.eq_iff_iff]
  exact decide_eq_true_iff.trans AList.lookup_isSome.symm

theorem extfilesExist_eq (d : Datamanager) (taskid : UInt64) :
    d.extfilesExist taskid = (d.getTaskExtfiles taskid).isSome := by
  rw [Bool.eq_iff_iff]
  exact decide_eq_true_iff.trans AList.lookup_isSome.symm

theorem getTaskEngine_taskBind {d : Datamanager} {taskid : UInt64}
    (h : d.taskExist taskid = false) (engine : Str × Str) (deps : List Engine) :
    (d.taskBind taskid engine deps).getTaskEngine =
      Function.update d.getTaskEngine taskid (some (engine, deps)) := by
  funext t
  rw [taskBind, if_neg (by simp [h]), Function.update_apply]
  split_ifs with ht
  · rw [ht]
    exact AList.lookup_insert _
  · exact AList.lookup_insert_ne ht

@[simp] theorem getTaskExtfiles_taskBind (d : Datamanager) (taskid : UInt64) (engine : Str × Str)
    (deps : List Engine) : (d.taskBind taskid engine deps).getTaskExtfiles = d.getTaskExtfiles := by
  unfold taskBind
  split_ifs <;> rfl

theorem getTaskEngine_taskUnbind (d : Datamanager) (taskid : UInt64) :
    (d.taskUnbind taskid).getTaskEngine = Function.update d.getTaskEngine taskid none := by
  funext t
  rw [Function.update_apply]
  split_ifs with ht
  · rw [ht]
    exact AList.lookup_erase _ _
  · exact AList.lookup_erase_ne ht

theorem getTaskExtfiles_addExtfiles {d : Datamanager} {taskid : UInt64}
    (h : d.getTaskExtfiles taskid = none) (extfiles : List Extfile) :
    (d.addExtfiles taskid extfiles).getTaskExtfiles =
      Function.update d.getTaskExtfiles taskid (some extfiles) := by
  funext t
  rw [addExtfiles, if_neg (by simp [extfilesExist_eq, h]), Function.update_apply]
  split_ifs with ht
  · rw [ht]
    exact AList.lookup_insert _
  · exact AList.lookup_insert_ne ht

@[simp] theorem getTaskEngine_addExtfiles (d : Datamanager) (taskid : UInt64)
    (extfiles : List Extfile) :
    (d.addExtfiles taskid extfiles).getTaskEngine = d.getTaskEngine := by
  unfold addExtfiles
  split_ifs <;> rfl

theorem getTaskExtfiles_removeExtfiles (d : Datamanager) (taskid : UInt64) :
    (d.removeExtfiles taskid).getTaskExtfiles =
      Function.update d.getTaskExtfiles taskid none := by
  funext t
  rw [Function.update_apply]
  split_ifs with ht
  · rw [ht]
    exact AList.lookup_erase _ _
  · exact AList.lookup_erase_ne ht

end Datamanager

end Jxtd.Storage
