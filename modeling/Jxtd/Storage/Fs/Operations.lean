import Jxtd.Lib.Posix

/-!
# File operations

The operations that the scheduler passes on to its current service, and those of the local one. A
call takes and returns the state of the service, so that one that fails at will is an `Operations`
too. Permission bits are left out.

* `Operations`: `open`, `close`, `write`, … with `-1` (`none` for `read`) for a failure.
* `localFileoperations`: `Get_local_fileoperations`.
-/

namespace Jxtd.Storage

open Lib

structure Operations (σ : Type) where
  openFile : σ → Str → Posix.OpenFlags → ℤ × σ
  close : σ → ℤ → ℤ × σ
  write : σ → ℤ → Str → ℤ × σ
  read : σ → ℤ → ℕ → Option Str × σ
  remove : σ → Str → ℤ × σ
  opendir : σ → Str → Posix.OpenFlags → ℤ × σ
  mkdir : σ → Str → ℤ × σ
  closedir : σ → ℤ → ℤ × σ
  fsize : σ → ℤ → ℤ × σ

namespace Local

/-- `close` of a directory is refused. -/
def close (fs : Posix.Fs) (fd : ℤ) : ℤ × Posix.Fs :=
  match fs.isDirFd fd with
  | some false => fs.close fd
  | _ => (-1, fs)

/-- `closedir` of anything else is refused. -/
def closedir (fs : Posix.Fs) (fd : ℤ) : ℤ × Posix.Fs :=
  match fs.isDirFd fd with
  | some true => fs.close fd
  | _ => (-1, fs)

def opendir (fs : Posix.Fs) (filename : Str) (flags : Posix.OpenFlags) : ℤ × Posix.Fs :=
  fs.openFile filename { flags with directory := true }

end Local

/-- `Get_local_fileoperations` -/
def localFileoperations : Operations Posix.Fs where
  openFile := Posix.Fs.openFile
  close := Local.close
  write := Posix.Fs.write
  read := Posix.Fs.read
  remove := Posix.Fs.unlink
  opendir := Local.opendir
  mkdir := Posix.Fs.mkdir
  closedir := Local.closedir
  fsize fs fd := (fs.fsize fd, fs)

end Jxtd.Storage
