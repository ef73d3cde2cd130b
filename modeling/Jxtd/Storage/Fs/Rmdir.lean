import Jxtd.Lib.Bytes

/-!
# Removing a directory

`rmdir` of the local file operations (`storage/fs/local/Fileoperations.cc`) on any tree of entries,
where any of its system calls may fail.

* `Entry`, `Calls`: a tree of entries, and which calls succeed.
* `rmdir`: the result, and what is left of the tree.
* `Removable`: no call below a directory fails.
* **`rmdir_result`**: the result is that of `opendir`.
* **`truthful_iff`**: exactly when the result says whether all is removed.
-/

namespace Jxtd.Storage.Local

open Lib

/-- An entry that `readdir` lists as a directory (`DT_DIR`), or as anything else. -/
inductive Entry
  | file (name : Str)
  | dir (name : Str) (entries : List Entry)

/-- The system calls that succeed, by their path; `rmdir` fails besides where entries are left. -/
structure Calls where
  opendir : Str → Bool
  unlink : Str → Bool
  rmdir : Str → Bool

/-- What a system call returns. -/
def status (succeeds : Bool) : Int32 :=
  if succeeds then 0 else -1

/-- The path of an entry. -/
def tmpPath (filepath name : Str) : Str :=
  filepath ++ lit "/" ++ name

section Tree

variable (calls : Calls)

/-- `rmdir` around its loop: `loop` is the flag after the loop, with the entries that are left.
Nothing is left of a directory that is removed. -/
def rmdirBody (filepath : Str) (entries : List Entry) (loop : Int32 × List Entry) :
    Int32 × Option (List Entry) :=
  if calls.opendir filepath then
    let (flag, left) := loop
    let removed := left.isEmpty && calls.rmdir filepath
    (flag &&& status removed, if removed then none else some left)
  else (-1, some entries)

mutual

/-- What an entry returns to the loop, and what is left of it. -/
def removeEntry (filepath : Str) : Entry → Int32 × Option Entry
  | .file name =>
    let removed := calls.unlink (tmpPath filepath name)
    (status removed, if removed then none else some (.file name))
  | .dir name entries =>
    let (flag, left) := rmdirBody calls (tmpPath filepath name) entries
      (removeEntries (tmpPath filepath name) 0 entries)
    (flag, left.map (Entry.dir name))

/-- The loop, without the two dots that it skips. -/
def removeEntries (filepath : Str) (flag : Int32) : List Entry → Int32 × List Entry
  | [] => (flag, [])
  | entry :: entries =>
    let (n, left) := removeEntry filepath entry
    let (flag, lefts) := removeEntries filepath (flag &&& n) entries
    (flag, left.toList ++ lefts)

end

/-- `rmdir`: what it returns, and what is left of the directory (`none` if it is removed). -/
def rmdir (filepath : Str) (entries : List Entry) : Int32 × Option (List Entry) :=
  rmdirBody calls filepath entries (removeEntries calls filepath 0 entries)

mutual

/-- No call on an entry fails. -/
def RemovableEntry (filepath : Str) : Entry → Prop
  | .file name => calls.unlink (tmpPath filepath name) = true
  | .dir name entries =>
    calls.opendir (tmpPath filepath name) = true ∧ Removable (tmpPath filepath name) entries ∧
      calls.rmdir (tmpPath filepath name) = true

/-- No call on some entries fails. -/
def Removable (filepath : Str) : List Entry → Prop
  | [] => True
  | entry :: entries => RemovableEntry filepath entry ∧ Removable filepath entries

end

/-- **The result is true to the tree**: `0` exactly when nothing is left of it. -/
def Truthful (filepath : Str) (entries : List Entry) : Prop :=
  (rmdir calls filepath entries).1 = 0 ↔ (rmdir calls filepath entries).2 = none

variable {calls} {filepath : Str} {entries : List Entry}

variable (calls) in
/-- **The flag** stays `0`, whatever the entries return. -/
theorem removeEntries_zero (filepath : Str) (entries : List Entry) :
    (removeEntries calls filepath 0 entries).1 = 0 := by
  induction entries with
  | nil => rfl
  | cons entry entries ih =>
    have hzero : (0 : Int32) &&& (removeEntry calls filepath entry).1 = 0 := Int32.zero_and
    rw [removeEntries]
    dsimp only
    rw [hzero, ih]

theorem removeEntries_cons_eq_nil {flag : Int32} {entry : Entry} :
    (removeEntries calls filepath flag (entry :: entries)).2 = [] ↔
      (removeEntry calls filepath entry).2 = none ∧
        (removeEntries calls filepath (flag &&& (removeEntry calls filepath entry).1)
          entries).2 = [] := by
  rw [removeEntries, List.append_eq_nil_iff, Option.toList_eq_nil_iff]

/-! ## What is left -/

theorem rmdirBody_eq_none {loop : Int32 × List Entry} :
    (rmdirBody calls filepath entries loop).2 = none ↔
      calls.opendir filepath = true ∧ loop.2 = [] ∧ calls.rmdir filepath = true := by
  cases hopendir : calls.opendir filepath with
  | false => simp [rmdirBody, hopendir]
  | true => simp [rmdirBody, hopendir]

mutual

/-- **An entry is removed** if no call on it fails. -/
theorem removeEntry_eq_none (filepath : Str) :
    ∀ entry, (removeEntry calls filepath entry).2 = none ↔ RemovableEntry calls filepath entry
  | .file name => by simp [removeEntry, RemovableEntry]
  | .dir name entries => by
    rw [removeEntry, Option.map_eq_none_iff, rmdirBody_eq_none,
      removeEntries_eq_nil (tmpPath filepath name) 0 entries, RemovableEntry]

theorem removeEntries_eq_nil (filepath : Str) (flag : Int32) :
    ∀ entries, (removeEntries calls filepath flag entries).2 = [] ↔
      Removable calls filepath entries
  | [] => by simp [removeEntries, Removable]
  | entry :: entries => by
    rw [removeEntries_cons_eq_nil, removeEntry_eq_none filepath entry,
      removeEntries_eq_nil filepath _ entries, Removable]

end

/-- **All is removed** if no call fails. -/
theorem rmdir_eq_none : (rmdir calls filepath entries).2 = none ↔
    calls.opendir filepath = true ∧ Removable calls filepath entries ∧
      calls.rmdir filepath = true := by
  rw [rmdir, rmdirBody_eq_none, removeEntries_eq_nil]

/-! ## What is returned -/

/-- **The result is that of `opendir`**: no other call has a part in it. -/
theorem rmdir_result (calls : Calls) (filepath : Str) (entries : List Entry) :
    (rmdir calls filepath entries).1 = status (calls.opendir filepath) := by
  cases hopendir : calls.opendir filepath with
  | false => simp [rmdir, rmdirBody, hopendir, status]
  | true =>
    have hflag := removeEntries_zero calls filepath entries
    simp only [rmdir, rmdirBody, hopendir, if_true, hflag, Int32.zero_and]
    rfl

/-- **Exactly when the result is true to the tree**: the directory cannot be opened, or no call
fails. -/
theorem truthful_iff (calls : Calls) (filepath : Str) (entries : List Entry) :
    Truthful calls filepath entries ↔ calls.opendir filepath = false ∨
      Removable calls filepath entries ∧ calls.rmdir filepath = true := by
  rw [Truthful, rmdir_result, rmdir_eq_none]
  cases hopendir : calls.opendir filepath with
  | false => simp [status]
  | true => simp [status]

end Tree

/-- A directory with a file that cannot be removed. -/
def stuckFile : Calls where
  opendir _ := true
  unlink _ := false
  rmdir _ := true

/-- **A failure is masked**: `0` is returned, and all is left. -/
theorem failure_masked : ¬ Truthful stuckFile (lit "root") [.file (lit "a")] := by
  intro h
  have hleft : (rmdir stuckFile (lit "root") [.file (lit "a")]).2 = none := h.mp (by decide)
  cases hleft

end Jxtd.Storage.Local
