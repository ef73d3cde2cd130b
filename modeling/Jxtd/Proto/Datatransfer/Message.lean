import Jxtd.Lib.Bytes

/-!
# The datatransfer messages

`Adtsrc` and `Dtsrc`, and the requests and responses that carry them, with their setters. The id of
a task is a `uint32_t` here.
-/

namespace Jxtd.Datatransfer

open Lib

/-- One source: an engine `(mid, name)`, an endpoint `(proto, url)` or a binary, by its type. -/
structure Adtsrc where
  taskid : UInt32
  type : UInt32
  engineattr : Str × Str
  endpointattr : Str × Str
  binary : Str
  deriving DecidableEq

def Adtsrc.new : Adtsrc := ⟨0, 0, ([], []), ([], []), []⟩

/-- A source with what it depends on; the second component is a relative path. -/
structure Dtsrc where
  master : Adtsrc
  deps : List (Adtsrc × Str)
  deriving DecidableEq

structure Request where
  token : Str
  src : Str
  dest : Str
  direction : UInt32
  adtsrcs : List Adtsrc
  deriving DecidableEq

def Request.new : Request := ⟨[], [], [], 0, []⟩

def Request.setSrc (r : Request) (src : Str) : Request := { r with src := src }

def Request.setDest (r : Request) (dest : Str) : Request := { r with dest := dest }

def Request.setToken (r : Request) (token : Str) : Request := { r with token := token }

/-- `Request::set_direction`: `0x0` is a pull and `0x1` a push, the rest is refused. -/
def Request.setDirection (r : Request) (direction : UInt32) : ℤ × Request :=
  if direction = 0x0 ∨ direction = 0x1 then (0, { r with direction := direction }) else (-1, r)

def Request.addAdtsrc (r : Request) (adtsrc : Adtsrc) : Request :=
  { r with adtsrcs := r.adtsrcs ++ [adtsrc] }

structure Response where
  src : Str
  dest : Str
  token : Str
  dtsrcs : List Dtsrc
  deriving DecidableEq

def Response.new : Response := ⟨[], [], [], []⟩

def Response.setSrc (r : Response) (src : Str) : Response := { r with src := src }

def Response.setDest (r : Response) (dest : Str) : Response := { r with dest := dest }

def Response.setToken (r : Response) (token : Str) : Response := { r with token := token }

def Response.addDtsrc (r : Response) (dtsrc : Dtsrc) : Response :=
  { r with dtsrcs := r.dtsrcs ++ [dtsrc] }

end Jxtd.Datatransfer
