import Mathlib.Data.Set.Insert
import Jxtd.Storage.Areas
import Jxtd.Storage.EngineArea

/-!
# The descriptors of the storage manager

Every function of the manager closes with one call what it opened with one. The search of
`binary_push` for a directory that exists is the exception: what it opens is not closed.

* `Descriptors`: what success and failure of the file operations mean for the open descriptors.
* `Balanced`: the condition on one call.
* **`descriptors_balanced_iff`**: the set of open descriptors is the same after every call of a run
  exactly when every call meets the condition.
* **`balanced_local_iff`**: for the local service, the condition in terms of directories.
* `binaryPush_leaks`: the second push below one directory.
-/

namespace Jxtd.Storage

open Lib Posix

/-! ## Opening and closing -/

/-- A call that opens: a descriptor that was not in use, or `-1`. -/
def Opens (before : Set ℤ) (fd : ℤ) (after : Set ℤ) : Prop :=
  if fd = -1 then after = before else fd ∉ before ∧ after = insert fd before

/-- A call that closes: with `-1` nothing is closed. -/
def Closes (before : Set ℤ) (fd code : ℤ) (after : Set ℤ) : Prop :=
  after = if code = -1 then before else before \ {fd}

section Sets

variable {A B C : Set ℤ} {fd code : ℤ}

theorem Opens.subset (h : Opens A fd B) : A ⊆ B := by
  unfold Opens at h
  split_ifs at h with hfd
  · exact h.symm.subset
  · rw [h.2]
    exact Set.subset_insert fd A

/-- What is opened and closed leaves the set as it was exactly when the second call succeeds. -/
theorem Opens.closes_iff (h : Opens A fd B) (hfd : fd ≠ -1) (hc : Closes B fd code C) :
    C = A ↔ code ≠ -1 := by
  rw [Opens, if_neg hfd] at h
  obtain ⟨hnew, hB⟩ := h
  rw [Closes] at hc
  split_ifs at hc with hcode
  · refine iff_of_false (fun hCA => hnew ?_) (not_not.mpr hcode)
    rw [← hCA, hc, hB]
    exact Set.mem_insert fd A
  · refine iff_of_true ?_ hcode
    rw [hc, hB, Set.insert_sdiff_self_of_notMem hnew]

/-- What was open before stays open. -/
theorem Opens.subset_closes (h : Opens A fd B) (hfd : fd ≠ -1) (hc : Closes B fd code C) :
    A ⊆ C := by
  intro fd' hmem
  rw [Opens, if_neg hfd] at h
  have hne : fd' ≠ fd := fun heq => h.1 (heq ▸ hmem)
  have hB : fd' ∈ B := h.2 ▸ Set.mem_insert_of_mem fd hmem
  rw [Closes] at hc
  split_ifs at hc with hcode
  · exact hc ▸ hB
  · rw [hc]
    exact ⟨hB, hne⟩

end Sets

/-- What the results of the file operations say about the open descriptors. -/
structure Descriptors {σ : Type} (ops : Operations σ) (fds : σ → Set ℤ) : Prop where
  openFile : ∀ s path flags,
    Opens (fds s) (ops.openFile s path flags).1 (fds (ops.openFile s path flags).2)
  opendir : ∀ s path flags,
    Opens (fds s) (ops.opendir s path flags).1 (fds (ops.opendir s path flags).2)
  close : ∀ s fd, Closes (fds s) fd (ops.close s fd).1 (fds (ops.close s fd).2)
  closedir : ∀ s fd, Closes (fds s) fd (ops.closedir s fd).1 (fds (ops.closedir s fd).2)
  write : ∀ s fd data, fds (ops.write s fd data).2 = fds s
  read : ∀ s fd count, fds (ops.read s fd count).2 = fds s
  fsize : ∀ s fd, fds (ops.fsize s fd).2 = fds s
  mkdir : ∀ s path, fds (ops.mkdir s path).2 = fds s
  remove : ∀ s path, fds (ops.remove s path).2 = fds s

/-! ## The condition -/

section Condition

variable {σ : Type} (ops : Operations σ)

/-- The code of the `close` that ends `PULL_DATA`. -/
def pullEnd (s : σ) (fd : ℤ) : ℤ :=
  let (n, s) := ops.fsize s fd
  let size := Datamanager.narrow n
  if size = -1 then (ops.close s fd).1
  else (ops.close (ops.read s fd size.toNat).2 fd).1

/-- The code of the `close` that ends `PUSH_DATA`. -/
def pushEnd (s : σ) (fd : ℤ) (data : Str) : ℤ := (ops.close (ops.write s fd data).2 fd).1

/-- The file cannot be opened, or the `close` at the end succeeds. -/
def PullBalanced (s : σ) (path : Str) : Prop :=
  let (fd, s) := ops.openFile s path {}
  fd = -1 ∨ pullEnd ops s fd ≠ -1

def PushBalanced (s : σ) (path : Str) (flags : OpenFlags) (data : Str) : Prop :=
  let (fd, s) := ops.openFile s path flags
  fd = -1 ∨ pushEnd ops s fd data ≠ -1

/-- A path, and what is before each of its slashes, the longest first. -/
def parents (path : Str) : List Str :=
  path ::
    match _h : findLastSlash path with
    | none => []
    | some pos => parents (path.take pos)
termination_by path.length
decreasing_by
  have := findLastSlash_lt _h
  rw [List.length_take]
  omega

theorem parents_eq (path : Str) :
    parents path = path :: (findLastSlash path).elim [] fun pos => parents (path.take pos) := by
  rw [parents]
  split
  · rename_i hpos
    rw [hpos]
    rfl
  · rename_i pos hpos
    rw [hpos]
    rfl

/-- None of the directories can be opened, one after the other. -/
def NoneOpens (d : Datamanager) : σ → List Str → Prop
  | _, [] => True
  | s, path :: paths =>
    let (fd, s) := ops.opendir s (d.binaryPath path) { directory := true }
    fd = -1 ∧ NoneOpens d s paths

/-- The directories of the path of a binary, as `binary_push` looks for them. -/
def searched (path : Str) : List Str :=
  match findLastSlash path with
  | none => []
  | some pos => parents (path.take pos)

/-- `opendir` fails, or the `closedir` at the end succeeds. -/
def InitBalanced (s : σ) (path : Str) (isNewRoot : Bool) : Prop :=
  if isNewRoot then
    let (judge, s) := ops.mkdir s path
    judge = -1 ∨
      let (judge, s) := ops.opendir s path { directory := true }
      let s := (ops.mkdir s (path ++ lit "/runtime")).2
      let s := (ops.mkdir s (path ++ lit "/engine")).2
      let s := (ops.mkdir s (path ++ lit "/binary")).2
      judge = -1 ∨ (ops.closedir s judge).1 ≠ -1
  else
    let (judge, s) := ops.opendir s path { directory := true }
    judge = -1 ∨ (ops.closedir s judge).1 ≠ -1

/-- When a call leaves the open descriptors as they were. -/
def Balanced (st : State σ) : AreaOp → Prop
  | .init path isNewRoot => InitBalanced ops st.fs path isNewRoot
  | .runtimePull taskid => PullBalanced ops st.fs (st.dManager.runtimePath taskid)
  | .runtimePush taskid runtime =>
    PushBalanced ops st.fs (st.dManager.runtimePath taskid)
      { creat := true, write := true, append := true } runtime
  | .enginePull mid name => PullBalanced ops st.fs (st.dManager.enginePath mid name)
  | .enginePush mid name engine =>
    PushBalanced ops st.fs (st.dManager.enginePath mid name)
      { write := true, creat := true, excl := true } engine
  | .binaryPull path => PullBalanced ops st.fs (st.dManager.binaryPath path)
  | .binaryPush path binary =>
    NoneOpens ops st.dManager st.fs (searched path) ∧
      PushBalanced ops (st.dManager.makeDirectories ops st.fs path) (st.dManager.binaryPath path)
        { write := true, creat := true, excl := true } binary
  | .runtimeRemove _ | .engineRemove _ _ | .binaryRemove _ => True

end Condition

/-! ## Every function -/

namespace Descriptors

variable {σ : Type} {ops : Operations σ} {fds : σ → Set ℤ}

/-- `PULL_DATA` after an `open` before which `A` was open. -/
theorem pullData_iff (h : Descriptors ops fds) {A : Set ℤ} {s s' : σ} {fd : ℤ} {data : Str}
    (hopen : Opens A fd (fds s)) (hpull : Datamanager.pullData ops s fd = .ok (data, s')) :
    fds s' = A ↔ fd = -1 ∨ pullEnd ops s fd ≠ -1 := by
  unfold Datamanager.pullData at hpull
  by_cases hfd : fd = -1
  · rw [if_pos hfd] at hpull
    cases hpull
    rw [Opens, if_pos hfd] at hopen
    exact iff_of_true hopen (.inl hfd)
  rw [if_neg hfd] at hpull
  rw [or_iff_right hfd]
  unfold pullEnd
  dsimp only at hpull ⊢
  have hsize := h.fsize s fd
  by_cases hone : Datamanager.narrow (ops.fsize s fd).1 = -1
  · rw [if_pos hone] at hpull ⊢
    cases hpull
    rw [← hsize] at hopen
    exact hopen.closes_iff hfd (h.close _ fd)
  · rw [if_neg hone] at hpull ⊢
    have hread := h.read (ops.fsize s fd).2 fd (Datamanager.narrow (ops.fsize s fd).1).toNat
    rw [← hsize, ← hread] at hopen
    have hend := hopen.closes_iff hfd (h.close _ fd)
    split_ifs at hpull
    -- the buffer is returned or not, the file is closed
    split at hpull
    · rename_i s₁ heq
      cases hpull
      rwa [heq] at hend ⊢
    · rename_i got s₁ heq
      cases hpull
      rwa [heq] at hend ⊢

theorem pull_iff (h : Descriptors ops fds) {s s' : σ} {path data : Str}
    (hpull : Datamanager.pullData ops (ops.openFile s path {}).2 (ops.openFile s path {}).1 =
      .ok (data, s')) : fds s' = fds s ↔ PullBalanced ops s path :=
  h.pullData_iff (h.openFile s path {}) hpull

theorem push_iff (h : Descriptors ops fds) (s : σ) (path : Str) (flags : OpenFlags) (data : Str) :
    fds (Datamanager.pushData ops (ops.openFile s path flags).2 (ops.openFile s path flags).1
      data).2 = fds s ↔ PushBalanced ops s path flags data := by
  have hopen := h.openFile s path flags
  unfold PushBalanced Datamanager.pushData pushEnd
  dsimp only
  by_cases hfd : (ops.openFile s path flags).1 = -1
  · rw [if_pos hfd]
    rw [Opens, if_pos hfd] at hopen
    exact iff_of_true hopen (.inl hfd)
  rw [if_neg hfd, or_iff_right hfd]
  rw [← h.write (ops.openFile s path flags).2 (ops.openFile s path flags).1 data] at hopen
  have hend := hopen.closes_iff hfd (h.close _ _)
  split_ifs
  · exact hend
  · exact hend

/-- A push closes no other descriptor. -/
theorem subset_push (h : Descriptors ops fds) (s : σ) (path : Str) (flags : OpenFlags)
    (data : Str) : fds s ⊆ fds (Datamanager.pushData ops (ops.openFile s path flags).2
      (ops.openFile s path flags).1 data).2 := by
  have hopen := h.openFile s path flags
  unfold Datamanager.pushData
  dsimp only
  by_cases hfd : (ops.openFile s path flags).1 = -1
  · rw [if_pos hfd]
    exact hopen.subset
  · rw [if_neg hfd]
    rw [← h.write (ops.openFile s path flags).2 (ops.openFile s path flags).1 data] at hopen
    have hend := hopen.subset_closes hfd (h.close _ _)
    split_ifs
    · exact hend
    · exact hend

/-! ### The search of `binary_push` -/

/-- The first loop opens nothing, or one directory that stays open. -/
theorem openParent_fds (h : Descriptors ops fds) (d : Datamanager) (s : σ) (path : Str) :
    (NoneOpens ops d s (parents path) ∧
      fds (d.openParent ops s path).2.2 = fds s) ∨
    (¬ NoneOpens ops d s (parents path) ∧
      ∃ fd ∉ fds s, fds (d.openParent ops s path).2.2 = insert fd (fds s)) := by
  induction hn : path.length using Nat.strong_induction_on generalizing s path with
  | _ n ih =>
    subst hn
    have hopen := h.opendir s (d.binaryPath path) { directory := true }
    rw [d.openParent_eq ops, parents_eq]
    by_cases hfd : (ops.opendir s (d.binaryPath path) { directory := true }).1 = -1
    · rw [if_pos hfd]
      rw [Opens, if_pos hfd] at hopen
      cases hpos : findLastSlash path with
      | none => exact .inl ⟨⟨hfd, trivial⟩, hopen⟩
      | some pos =>
        have hlt := length_take_lt hpos
        have hrest := ih _ hlt (ops.opendir s (d.binaryPath path) { directory := true }).2 _ rfl
        rw [hopen] at hrest
        simpa only [Option.elim_some, NoneOpens, hfd, true_and] using hrest
    · rw [if_neg hfd]
      rw [Opens, if_neg hfd] at hopen
      exact .inr ⟨fun hnone => hfd hnone.1, _, hopen⟩

theorem makeParents_fds (h : Descriptors ops fds) (d : Datamanager) (s : σ) (path substr : Str) :
    fds (d.makeParents ops s path substr) = fds s :=
  (d.makeParents_rel (R := fun s s' => fds s = fds s') (fun _ => rfl) Eq.trans
    (fun s path => (h.mkdir s path).symm) s path substr).symm

theorem makeDirectories_fds (h : Descriptors ops fds) (d : Datamanager) (s : σ) (path : Str) :
    (NoneOpens ops d s (searched path) ∧ fds (d.makeDirectories ops s path) = fds s) ∨
    (¬ NoneOpens ops d s (searched path) ∧
      ∃ fd ∉ fds s, fds (d.makeDirectories ops s path) = insert fd (fds s)) := by
  unfold Datamanager.makeDirectories searched
  cases hpos : findLastSlash path with
  | none => exact .inl ⟨trivial, rfl⟩
  | some pos =>
    have hopen := h.openParent_fds d s (path.take pos)
    have hmake : fds (d.makeDirectories ops s path) =
        fds (d.openParent ops s (path.take pos)).2.2 := by
      unfold Datamanager.makeDirectories
      simp only [hpos, h.makeParents_fds]
      split_ifs
      · exact h.mkdir _ _
      · rfl
    unfold Datamanager.makeDirectories at hmake
    simp only [hpos] at hmake
    rwa [← hmake] at hopen

theorem binaryPush_iff (h : Descriptors ops fds) (d : Datamanager) (s : σ) (path binary : Str) :
    fds (d.binaryPush ops s path binary).2 = fds s ↔
      NoneOpens ops d s (searched path) ∧
        PushBalanced ops (d.makeDirectories ops s path) (d.binaryPath path)
          { write := true, creat := true, excl := true } binary := by
  have hsubset := h.subset_push (d.makeDirectories ops s path) (d.binaryPath path)
    { write := true, creat := true, excl := true } binary
  have hpush := h.push_iff (d.makeDirectories ops s path) (d.binaryPath path)
    { write := true, creat := true, excl := true } binary
  change fds (d.makeDirectories ops s path) ⊆ fds (d.binaryPush ops s path binary).2 at hsubset
  change fds (d.binaryPush ops s path binary).2 = _ ↔ _ at hpush
  rcases h.makeDirectories_fds d s path with ⟨hnone, heq⟩ | ⟨hsome, fd, hfd, heq⟩
  · rw [← hpush, heq]
    exact (and_iff_right hnone).symm
  · refine iff_of_false (fun hsame => hfd ?_) fun hb => hsome hb.1
    rw [← hsame]
    exact hsubset (heq ▸ Set.mem_insert fd _)

/-! ### `init` -/

theorem mkdir_three (h : Descriptors ops fds) (s : σ) (a b c : Str) :
    fds (ops.mkdir (ops.mkdir (ops.mkdir s a).2 b).2 c).2 = fds s := by
  rw [h.mkdir, h.mkdir, h.mkdir]

theorem init_iff (h : Descriptors ops fds) (d : Datamanager) (s : σ) (path : Str)
    (isNewRoot : Bool) :
    fds (d.init ops s path isNewRoot).2.2 = fds s ↔ InitBalanced ops s path isNewRoot := by
  unfold Datamanager.init InitBalanced
  cases isNewRoot with
  | false =>
    have hopen := h.opendir s path { directory := true }
    simp only [Bool.false_eq_true, if_false]
    by_cases hfd : (ops.opendir s path { directory := true }).1 = -1
    · rw [if_pos hfd]
      rw [Opens, if_pos hfd] at hopen
      exact iff_of_true hopen (.inl hfd)
    · rw [if_neg hfd, or_iff_right hfd]
      exact hopen.closes_iff hfd (h.closedir _ _)
  | true =>
    have hmk := h.mkdir s path
    have hopen := h.opendir (ops.mkdir s path).2 path { directory := true }
    rw [hmk] at hopen
    simp only [if_true]
    by_cases hnew : (ops.mkdir s path).1 = -1
    · rw [if_pos hnew]
      exact iff_of_true hmk (.inl hnew)
    rw [if_neg hnew, or_iff_right hnew]
    by_cases hfd : (ops.opendir (ops.mkdir s path).2 path { directory := true }).1 = -1
    · rw [if_pos hfd]
      rw [Opens, if_pos hfd] at hopen
      exact iff_of_true hopen (.inl hfd)
    · rw [if_neg hfd, or_iff_right hfd]
      have hdirs := h.mkdir_three (ops.opendir (ops.mkdir s path).2 path { directory := true }).2
        (path ++ lit "/runtime") (path ++ lit "/engine") (path ++ lit "/binary")
      rw [← hdirs] at hopen
      exact hopen.closes_iff hfd (h.closedir _ _)

/-- **One call.** -/
theorem areaStep_iff (h : Descriptors ops fds) {st st' : State σ} {op : AreaOp} {answer : Answer}
    (hstep : areaStep ops st op = .ok (answer, st')) :
    fds st'.fs = fds st.fs ↔ Balanced ops st op := by
  cases op with
  | init path isNewRoot =>
    cases hstep
    exact h.init_iff st.dManager st.fs path isNewRoot
  | runtimePull taskid =>
    obtain ⟨x, hx, heq⟩ := map_eq_ok.mp hstep
    cases heq
    exact h.pull_iff hx
  | enginePull mid name =>
    obtain ⟨x, hx, heq⟩ := map_eq_ok.mp hstep
    cases heq
    exact h.pull_iff hx
  | binaryPull path =>
    obtain ⟨x, hx, heq⟩ := map_eq_ok.mp hstep
    cases heq
    exact h.pull_iff hx
  | runtimePush taskid runtime =>
    cases hstep
    exact h.push_iff st.fs _ _ runtime
  | enginePush mid name engine =>
    cases hstep
    exact h.push_iff st.fs _ _ engine
  | binaryPush path binary =>
    cases hstep
    exact h.binaryPush_iff st.dManager st.fs path binary
  | runtimeRemove | engineRemove | binaryRemove =>
    cases hstep
    exact iff_of_true (h.remove _ _) trivial

end Descriptors

/-! ## Runs -/

/-- **Descriptor balance.** Whatever succeeds and fails, the set of open descriptors is after each
call of a run what it was before exactly when each call meets the condition. -/
theorem descriptors_balanced_iff {σ : Type} {ops : Operations σ} {fds : σ → Set ℤ}
    (h : Descriptors ops fds) (st : State σ) (inputs : List AreaOp) :
    AtEach ops st inputs (fun x _ y => fds y.fs = fds x.fs) ↔
      AtEach ops st inputs fun x op _ => Balanced ops x op :=
  atEach_congr fun _ _ _ _ hstep => h.areaStep_iff hstep

/-! ## The local service -/

namespace Local

variable {fs : Fs} {s : Str}

/-- The open descriptors. -/
def openFds (fs : Fs) : Set ℤ := { fd | fd ∈ fs.fds }

theorem opens_fail (A : Set ℤ) : Opens A (-1) A := by rw [Opens, if_pos rfl]

theorem closes_fail (A : Set ℤ) (fd : ℤ) : Closes A fd (-1) A := by rw [Closes, if_pos rfl]

theorem opens_allocate (fs : Fs) (p : Path) (flags : OpenFlags) :
    Opens (openFds fs) (fs.allocate p flags).1 (openFds (fs.allocate p flags).2) := by
  rw [Opens, if_neg (Fs.allocate_fst_ne fs p flags)]
  refine ⟨fs.freshFd_notMem, ?_⟩
  ext fd
  exact AList.mem_insert _

theorem opens_openFile (fs : Fs) (s : Str) (flags : OpenFlags) :
    Opens (openFds fs) (fs.openFile s flags).1 (openFds (fs.openFile s flags).2) := by
  unfold Fs.openFile
  split
  · exact opens_fail _
  · split
    · split_ifs
      · exact opens_allocate (fs.set _ _) _ flags
      · exact opens_fail _
    · split_ifs
      · exact opens_fail _
      · exact opens_allocate fs _ flags
    · split_ifs
      · exact opens_fail _
      · exact opens_allocate fs _ flags

theorem closes_fsClose (fs : Fs) (fd : ℤ) :
    Closes (openFds fs) fd (fs.close fd).1 (openFds (fs.close fd).2) := by
  unfold Fs.close
  split_ifs
  · have hcode : (0 : ℤ) ≠ -1 := by decide
    rw [Closes, if_neg hcode]
    ext fd'
    exact AList.mem_erase.trans and_comm
  · exact closes_fail _ fd

theorem closes_close (fs : Fs) (fd : ℤ) :
    Closes (openFds fs) fd (close fs fd).1 (openFds (close fs fd).2) := by
  unfold close
  split
  · exact closes_fsClose fs fd
  · exact closes_fail _ fd

theorem closes_closedir (fs : Fs) (fd : ℤ) :
    Closes (openFds fs) fd (closedir fs fd).1 (openFds (closedir fs fd).2) := by
  unfold closedir
  split
  · exact closes_fsClose fs fd
  · exact closes_fail _ fd

/-- A descriptor stays open when its offset changes. -/
theorem mem_insert_of_lookup {fd : ℤ} {f f' : OpenFile} (h : fs.fds.lookup fd = some f) (fd' : ℤ) :
    fd' ∈ fs.fds.insert fd f' ↔ fd' ∈ fs.fds := by
  have hmem : fd ∈ fs.fds := AList.lookup_isSome.mp (h ▸ rfl)
  rw [AList.mem_insert, or_iff_right_of_imp]
  rintro rfl
  exact hmem

theorem openFds_write (fs : Fs) (fd : ℤ) (data : Str) :
    openFds (fs.write fd data).2 = openFds fs := by
  unfold Fs.write
  split
  · rfl
  · rename_i f hf
    split
    · by_cases hw : f.write = true
      · rw [if_pos hw]
        ext fd'
        exact mem_insert_of_lookup hf fd'
      · rw [if_neg hw]
    · rfl

theorem openFds_read (fs : Fs) (fd : ℤ) (count : ℕ) :
    openFds (fs.read fd count).2 = openFds fs := by
  unfold Fs.read
  split
  · rfl
  · rename_i f hf
    split
    · split_ifs
      · rfl
      · ext fd'
        exact mem_insert_of_lookup hf fd'
    · rfl

theorem fds_mkdir (fs : Fs) (path : Str) : (fs.mkdir path).2.fds = fs.fds := by
  unfold Fs.mkdir
  split
  · rfl
  · split <;> rfl

theorem fds_unlink (fs : Fs) (path : Str) : (fs.unlink path).2.fds = fs.fds := by
  unfold Fs.unlink
  split
  · rfl
  · split <;> rfl

end Local

/-- The local file operations. -/
theorem localDescriptors : Descriptors localFileoperations Local.openFds where
  openFile := Local.opens_openFile
  opendir fs path flags := Local.opens_openFile fs path { flags with directory := true }
  close := Local.closes_close
  closedir := Local.closes_closedir
  write := Local.openFds_write
  read := Local.openFds_read
  fsize _ _ := rfl
  mkdir fs path := by
    exact congrArg (fun fds => { fd | fd ∈ fds }) (Local.fds_mkdir fs path)
  remove fs path := by
    exact congrArg (fun fds => { fd | fd ∈ fds }) (Local.fds_unlink fs path)

namespace Local

variable {fs : Fs} {s : Str}

theorem close_code (fs : Fs) (fd : ℤ) : (close fs fd).1 ≠ -1 ↔ fs.isDirFd fd = some false := by
  unfold close
  split
  · rename_i h
    have hmem : fd ∈ fs.fds := by
      rw [Fs.isDirFd, Option.map_eq_some_iff] at h
      obtain ⟨f, hf, -⟩ := h
      exact AList.lookup_isSome.mp (hf ▸ rfl)
    have hcode : (0 : ℤ) ≠ -1 := by decide
    rw [Fs.close, if_pos hmem]
    exact iff_of_true hcode h
  · rename_i h
    exact iff_of_false (not_not.mpr rfl) h

theorem closedir_code (fs : Fs) (fd : ℤ) : (closedir fs fd).1 ≠ -1 ↔ fs.isDirFd fd = some true := by
  unfold closedir
  split
  · rename_i h
    have hmem : fd ∈ fs.fds := by
      rw [Fs.isDirFd, Option.map_eq_some_iff] at h
      obtain ⟨f, hf, -⟩ := h
      exact AList.lookup_isSome.mp (hf ▸ rfl)
    have hcode : (0 : ℤ) ≠ -1 := by decide
    rw [Fs.close, if_pos hmem]
    exact iff_of_true hcode h
  · rename_i h
    exact iff_of_false (not_not.mpr rfl) h

/-- Reading from a descriptor moves its offset only. -/
theorem isDirFd_read (fs : Fs) (fd fd' : ℤ) (count : ℕ) :
    (fs.read fd count).2.isDirFd fd' = fs.isDirFd fd' := by
  unfold Fs.read
  split
  · rfl
  · rename_i f hf
    split
    · split_ifs
      · rfl
      · rcases eq_or_ne fd' fd with rfl | hne
        · rw [Fs.isDirFd, Fs.isDirFd, hf, AList.lookup_insert]
          rfl
        · rw [Fs.isDirFd, Fs.isDirFd, AList.lookup_insert_ne hne]
          rfl
    · rfl

/-- What is written to was no directory and is none. -/
theorem isDirFd_write (fs : Fs) (fd : ℤ) (data : Str) :
    (fs.write fd data).2.isDirFd fd = fs.isDirFd fd := by
  unfold Fs.write
  split
  · rfl
  · rename_i f hf
    split
    · rename_i old hold
      by_cases hw : f.write = true
      · have hnew : ∀ d, (fs.set f.path (.file d)).node f.path = some (.file d) :=
          fun d => Fs.node_set fs (Fs.ne_nil_of_node_file hold) _
        rw [if_pos hw, Fs.isDirFd, Fs.isDirFd, hf]
        dsimp only
        rw [AList.lookup_insert, Option.map_some, Option.map_some, Option.some_inj, decide_eq_decide]
        refine iff_of_false (fun h => ?_) fun h => ?_
        · have := (hnew _).symm.trans h
          cases this
        · rw [Fs.IsDir, hold] at h
          cases h
      · rw [if_neg hw]
    · rfl

theorem pullEnd_ne (fs : Fs) (fd : ℤ) :
    pullEnd localFileoperations fs fd ≠ -1 ↔ fs.isDirFd fd = some false := by
  unfold pullEnd
  dsimp only
  split_ifs
  · exact close_code fs fd
  · rw [← isDirFd_read fs fd fd]
    exact close_code _ fd

theorem pushEnd_ne (fs : Fs) (fd : ℤ) (data : Str) :
    pushEnd localFileoperations fs fd data ≠ -1 ↔ fs.isDirFd fd = some false := by
  rw [← isDirFd_write fs fd data]
  exact close_code _ fd

/-- Does the path lead to a directory? -/
def IsDirAt (fs : Fs) (s : Str) : Prop := ∃ p, fs.resolve s = some p ∧ fs.IsDir p

theorem isDirFd_allocate (fs : Fs) (p : Path) (flags : OpenFlags) :
    (fs.allocate p flags).2.isDirFd (fs.allocate p flags).1 = some (decide (fs.IsDir p)) := by
  rw [Fs.isDirFd, Fs.lookup_allocate]
  rfl

theorem pullBalanced_iff (fs : Fs) (s : Str) :
    PullBalanced localFileoperations fs s ↔ ¬ IsDirAt fs s := by
  have hopen : PullBalanced localFileoperations fs s ↔ (fs.openFile s {}).1 = -1 ∨
      (fs.openFile s {}).2.isDirFd (fs.openFile s {}).1 = some false :=
    or_congr_right (pullEnd_ne _ _)
  rw [hopen]
  unfold IsDirAt Fs.openFile
  cases hr : fs.resolve s with
  | none => simp
  | some p =>
    cases hp : fs.node p with
    | none => simp [Fs.IsDir, hp]
    | some n =>
      cases n with
      | dir => simp [Fs.IsDir, hp, isDirFd_allocate, Fs.allocate_fst_ne]
      | file data => simp [Fs.IsDir, hp, isDirFd_allocate]

/-- What is opened for writing is a file. -/
theorem pushBalanced (fs : Fs) (s : Str) {flags : OpenFlags} (hw : flags.write = true)
    (data : Str) : PushBalanced localFileoperations fs s flags data := by
  have hopen : PushBalanced localFileoperations fs s flags data ↔ (fs.openFile s flags).1 = -1 ∨
      (fs.openFile s flags).2.isDirFd (fs.openFile s flags).1 = some false :=
    or_congr_right (pushEnd_ne _ _ data)
  rw [hopen]
  unfold Fs.openFile
  cases hr : fs.resolve s with
  | none => exact .inl rfl
  | some p =>
    dsimp only
    cases hp : fs.node p with
    | none =>
      dsimp only
      split_ifs
      · have hnew := Fs.node_set fs (Fs.ne_nil_of_node_none hp) (.file [])
        right
        have hfile : ¬ (fs.set p (.file [])).IsDir p := fun hd => by
          cases hnew.symm.trans hd
        rw [isDirFd_allocate, decide_eq_false hfile]
      · exact .inl rfl
    | some n =>
      cases n with
      | dir => simp [hw]
      | file old =>
        dsimp only
        split_ifs
        · exact .inl rfl
        · have hfile : ¬ fs.IsDir p := fun hd => by
            cases hp.symm.trans hd
          right
          rw [isDirFd_allocate, decide_eq_false hfile]

theorem opendir_dir {p : Path} (hr : fs.resolve s = some p) (hp : fs.IsDir p) :
    opendir fs s { directory := true } = fs.allocate p { directory := true } := by
  rw [Fs.IsDir] at hp
  rw [opendir, Fs.openFile, hr]
  simp only [hp]
  rfl

theorem opendir_fails (h : ¬ IsDirAt fs s) : opendir fs s { directory := true } = (-1, fs) := by
  unfold IsDirAt at h
  rw [opendir, Fs.openFile]
  cases hr : fs.resolve s with
  | none => rfl
  | some p =>
    cases hp : fs.node p with
    | none => simp [hp]
    | some n =>
      cases n with
      | dir => exact absurd ⟨p, hr, hp⟩ h
      | file data => simp [hp]

theorem opendir_code : (opendir fs s { directory := true }).1 = -1 ↔ ¬ IsDirAt fs s := by
  refine ⟨?_, fun h => congrArg Prod.fst (opendir_fails h)⟩
  rintro h ⟨p, hr, hp⟩
  rw [opendir_dir hr hp] at h
  exact Fs.allocate_fst_ne fs p _ h

theorem noneOpens_iff (d : Datamanager) (fs : Fs) (paths : List Str) :
    NoneOpens localFileoperations d fs paths ↔ ∀ path ∈ paths, ¬ IsDirAt fs (d.binaryPath path) := by
  induction paths with
  | nil => exact iff_of_true trivial fun _ hmem => absurd hmem List.not_mem_nil
  | cons path paths ih =>
    rw [List.forall_mem_cons, ← ih]
    change (opendir fs (d.binaryPath path) { directory := true }).1 = -1 ∧ NoneOpens _ d
      (opendir fs (d.binaryPath path) { directory := true }).2 paths ↔ _
    rw [opendir_code]
    refine and_congr_right fun h => ?_
    rw [opendir_fails h]

/-- The directory that `init` opens is closed. -/
theorem closedir_opened {p : Path} (hp : fs.IsDir p) (flags : OpenFlags) {fs' : Fs}
    (hgrows : (fs.allocate p flags).2.Grows fs') (hfds : fs'.fds = (fs.allocate p flags).2.fds) :
    (closedir fs' (fs.allocate p flags).1).1 ≠ -1 := by
  have hdir : fs'.IsDir p := hgrows.node p .dir hp
  rw [closedir_code, Fs.isDirFd, hfds, Fs.lookup_allocate, Option.map_some, Option.some_inj,
    decide_eq_true_iff]
  exact hdir

theorem initBalanced (fs : Fs) (path : Str) (isNewRoot : Bool) :
    InitBalanced localFileoperations fs path isNewRoot := by
  have hopened (fs : Fs) {fs' : Fs}
      (hgrows : (opendir fs path { directory := true }).2.Grows fs')
      (hfds : fs'.fds = (opendir fs path { directory := true }).2.fds) :
      (opendir fs path { directory := true }).1 = -1 ∨
        (closedir fs' (opendir fs path { directory := true }).1).1 ≠ -1 := by
    by_cases hdir : IsDirAt fs path
    · obtain ⟨p, hr, hp⟩ := hdir
      rw [opendir_dir hr hp] at hgrows hfds ⊢
      exact .inr (closedir_opened hp _ hgrows hfds)
    · exact .inl (opendir_code.mpr hdir)
  unfold InitBalanced
  split_ifs
  · refine .inr (hopened _ ?_ ?_)
    · exact ((Fs.grows_mkdir _ _).trans (Fs.grows_mkdir _ _)).trans (Fs.grows_mkdir _ _)
    · exact ((fds_mkdir _ _).trans (fds_mkdir _ _)).trans (fds_mkdir _ _)
  · exact hopened fs (.refl _) rfl

/-- The condition for the local service: a pull is not one of a directory, and `binary_push` finds
none of the directories of its path. -/
def LeavesClosed (st : State Fs) : AreaOp → Prop
  | .runtimePull taskid => ¬ IsDirAt st.fs (st.dManager.runtimePath taskid)
  | .enginePull mid name => ¬ IsDirAt st.fs (st.dManager.enginePath mid name)
  | .binaryPull path => ¬ IsDirAt st.fs (st.dManager.binaryPath path)
  | .binaryPush path _ => ∀ q ∈ searched path, ¬ IsDirAt st.fs (st.dManager.binaryPath q)
  | _ => True

end Local

/-- **The condition for the local service.** -/
theorem balanced_local_iff (st : State Fs) (op : AreaOp) :
    Balanced localFileoperations st op ↔ Local.LeavesClosed st op := by
  cases op with
  | runtimePull | enginePull | binaryPull => exact Local.pullBalanced_iff st.fs _
  | runtimePush | enginePush => exact iff_of_true (Local.pushBalanced st.fs _ rfl _) trivial
  | binaryPush path binary =>
    exact (and_iff_left (Local.pushBalanced _ _ rfl binary)).trans
      (Local.noneOpens_iff st.dManager st.fs (searched path))
  | init path isNewRoot => exact iff_of_true (Local.initBalanced st.fs path isNewRoot) trivial
  | runtimeRemove | engineRemove | binaryRemove => exact Iff.rfl

/-- A push and a pull of runtime data. -/
theorem runtime_balanced : AtEach localFileoperations newNode [.runtimePush 5 [0x01], .runtimePull 5]
    fun x _ y => Local.openFds y.fs = Local.openFds x.fs := by
  refine (descriptors_balanced_iff localDescriptors newNode
    [.runtimePush 5 [0x01], .runtimePull 5]).mpr ?_
  intro pre op post x answer y hin hrun _
  rw [balanced_local_iff]
  cases pre with
  | nil =>
    obtain ⟨rfl, -⟩ := List.cons.inj hin
    trivial
  | cons op' pre =>
    obtain ⟨rfl, hrest⟩ := List.cons.inj hin
    cases pre with
    | nil =>
      obtain ⟨rfl, -⟩ := List.cons.inj hrest
      -- what is pulled is the file that was pushed
      obtain ⟨x', p, hx', hr, hp⟩ : ∃ x' p, run (areaRun localFileoperations) (newNode, [])
          [.runtimePush 5 [0x01]] = .ok x' ∧
            x'.1.fs.resolve (x'.1.dManager.runtimePath 5) = some p ∧
            x'.1.fs.node p = some (.file [0x01]) := ⟨_, _, rfl, rfl, rfl⟩
      cases hx'.symm.trans hrun
      rintro ⟨q, hq, hd⟩
      cases hr.symm.trans hq
      rw [Fs.IsDir, hp] at hd
      cases hd
    | cons op'' pre =>
      have hlen := congrArg List.length hrest
      simp at hlen

/-- **The second push below one directory** leaves it open. -/
theorem binaryPush_leaks : ¬ AtEach localFileoperations newNode
    [.binaryPush (lit "a/b") [0x01], .binaryPush (lit "a/c") [0x02]]
    fun x _ y => Local.openFds y.fs = Local.openFds x.fs := by
  intro h
  obtain ⟨x, y, answer, hrun, hstep, hx, hy⟩ : ∃ x y answer,
      run (areaRun localFileoperations) (newNode, []) [.binaryPush (lit "a/b") [0x01]] = .ok x ∧
      areaStep localFileoperations x.1 (.binaryPush (lit "a/c") [0x02]) = .ok (answer, y) ∧
      (0 : ℤ) ∉ x.1.fs.fds ∧ (0 : ℤ) ∈ y.fs.fds :=
    ⟨_, _, _, rfl, rfl, by decide +kernel, by decide +kernel⟩
  have hsame := h [.binaryPush (lit "a/b") [0x01]] _ [] x answer y rfl hrun hstep
  exact hx (hsame.subset hy)

end Jxtd.Storage
