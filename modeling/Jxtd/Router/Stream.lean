import Jxtd.Lib.Posix
import Jxtd.Misc.ATParser

/-!
# The command stream of the router

The loop of `router/bin/main.cc`. What one `recv` brings, at most 4095 bytes, is taken for one
command: it is parsed as a C string, and the function of its command is called.

* `functions`, `received`, `executed`: the loop, as the commands that it hands to their functions.
* `Sendable`, `Segmented`: what a client sends, and how it arrives.
* **`executed_iff`**: the commands are executed as they were sent exactly when each is a segment of
  its own, without a zero byte and without empty data.
* `executed_joined`: two commands in one segment.
-/

namespace Jxtd.Router

open Lib Lib.Posix
open Misc.ATParser

/-- The names in the table of functions. -/
def functions : List Str :=
  [lit "REG", lit "RTUNREG", lit "RTBUSY", lit "MDDECL", lit "MDRM", lit "MDPUSH", lit "CPSTART",
    lit "CPMOD", lit "CPRDY", lit "CPVAL", lit "TRANS", lit "STRANS"]

/-- The size of what one `recv` reads. -/
def recvSize : ℕ := 4095

/-- The command that is executed for one segment; without one, the answer is `AT+ENVAL`. -/
def received (segment : Str) : Option ATCommand :=
  (parse (cstr segment)).filter fun message => message.cmd ∈ functions

/-- The commands that are executed for the segments of a connection. -/
def executed (segments : List Str) : List ATCommand := segments.filterMap received

/-- A command that a client can send and the router knows. -/
def Sendable (m : ATCommand) : Prop := m.Valid ∧ m.cmd ∈ functions

/-- The segments of the commands, however they are split and joined. -/
structure Segmented (ms : List ATCommand) (segments : List Str) : Prop where
  recv : ∀ s ∈ segments, s ≠ [] ∧ s.length ≤ recvSize
  bytes : segments.flatten = (ms.map ATCommand.render).flatten

/-- A command that its segment brings. -/
def Carried (m : ATCommand) : Prop := 0 ∉ m.data ∧ (m.type = .LONG → m.data ≠ [])

variable {ms : List ATCommand} {segments : List Str} {s : Str} {m : ATCommand}

/-! ## One segment -/

theorem length_cstr_le (s : Str) : (cstr s).length ≤ s.length :=
  (List.takeWhile_prefix _).length_le

theorem received_sound (h : received s = some m) :
    (m.type = .LONG → m.data ≠ []) ∧ m.render.Sublist (cstr s) := by
  obtain ⟨hparse, -⟩ := Option.filter_eq_some_iff.mp h
  exact (parse_sound hparse).2

/-- A segment of the length of its command is the command. -/
theorem eq_render_of_length (h : received s = some m) (hlen : m.render.length = s.length) :
    s = m.render ∧ Carried m := by
  obtain ⟨hdata, hsub⟩ := received_sound h
  have hcstr : (cstr s).Sublist s := (List.takeWhile_prefix _).sublist
  have hs : m.render = s := (hsub.trans hcstr).eq_of_length hlen
  refine ⟨hs.symm, fun hzero => notMem_cstr s ?_, hdata⟩
  have hall : m.render = cstr s := hsub.eq_of_length_le (hlen ▸ length_cstr_le s)
  rw [← hall]
  cases htype : m.type with
  | LONG =>
    rw [ATCommand.render, renderNext, htype]
    simp [hzero]
  | NON | CMD | SEARCH | TEST =>
    have hvalid := (parse_sound (Option.filter_eq_some_iff.mp h).1).1
    rw [hvalid.data (by rw [htype]; decide)] at hzero
    cases hzero

theorem zero_notMem_renderParams {ps : List Str} (hps : ∀ p ∈ ps, Word paramByte p) :
    0 ∉ renderParams ps := by
  have hword {p : Str} (hp : Word paramByte p) : 0 ∉ p := fun h => by
    have hzero := hp.2 0 h
    revert hzero
    decide
  cases ps with
  | nil => exact List.not_mem_nil
  | cons p ps =>
    obtain ⟨hp, hps⟩ := List.forall_mem_cons.mp hps
    simp only [renderParams, renderParam, List.mem_append, List.mem_flatMap, not_or, not_exists,
      not_and]
    refine ⟨⟨by decide, hword hp⟩, fun q hq => ⟨by decide, hword (hps q hq)⟩⟩

theorem zero_notMem_render (h : m.Valid) (hdata : 0 ∉ m.data) : 0 ∉ m.render := by
  have hcmd : 0 ∉ m.cmd := fun h0 => by
    have hzero := h.cmd.2 0 h0
    revert hzero
    decide
  have hparams := zero_notMem_renderParams h.param
  rw [ATCommand.render, List.mem_append, List.mem_append, not_or, not_or]
  refine ⟨⟨by decide, hcmd⟩, ?_⟩
  rw [renderNext]
  cases m.type with
  | NON => exact List.not_mem_nil
  | SEARCH =>
    show 0 ∉ lit "=?" ++ crlf
    decide
  | TEST =>
    show 0 ∉ lit "?" ++ crlf
    decide
  | CMD =>
    rw [List.mem_append, not_or]
    exact ⟨hparams, by decide⟩
  | LONG =>
    simp only [List.mem_append, not_or]
    exact ⟨⟨⟨hparams, by decide⟩, hdata⟩, by decide⟩

/-- **A command in a segment of its own** is executed. -/
theorem received_render (h : Sendable m) (hm : Carried m) : received m.render = some m := by
  rw [received, cstr_of_notMem (zero_notMem_render h.1 hm.1), parse_render h.1 hm.2]
  exact Option.filter_eq_some_iff.mpr ⟨rfl, decide_eq_true h.2⟩

/-! ## All segments -/

/-- What is executed is no longer than what was received. -/
theorem length_executed_le (segments : List Str) :
    ((executed segments).map ATCommand.render).flatten.length ≤ segments.flatten.length := by
  induction segments with
  | nil => exact le_rfl
  | cons s segments ih =>
    rw [executed, List.filterMap_cons]
    rw [executed] at ih
    cases hs : received s with
    | none =>
      simp only [List.flatten_cons, List.length_append]
      omega
    | some m =>
      have hle := (received_sound hs).2.length_le.trans (length_cstr_le s)
      simp only [List.map_cons, List.flatten_cons, List.length_append]
      omega

/-- **Nothing is left over** when what is executed is as long as what was received. -/
theorem segments_of_length (hne : ∀ s ∈ segments, s ≠ [])
    (h : ((executed segments).map ATCommand.render).flatten.length = segments.flatten.length) :
    segments = (executed segments).map ATCommand.render ∧ ∀ m ∈ executed segments, Carried m := by
  induction segments with
  | nil => exact ⟨rfl, fun m hm => by cases hm⟩
  | cons s segments ih =>
    obtain ⟨hs, hne⟩ := List.forall_mem_cons.mp hne
    have hle := length_executed_le segments
    rw [executed, List.filterMap_cons] at h ⊢
    rw [executed] at hle ih
    cases hreceived : received s with
    | none =>
      have hpos := List.length_pos_iff.mpr hs
      rw [hreceived] at h
      simp only [List.flatten_cons, List.length_append] at h
      omega
    | some m =>
      have hlen := (received_sound hreceived).2.length_le.trans (length_cstr_le s)
      rw [hreceived] at h
      simp only [List.map_cons, List.flatten_cons, List.length_append] at h
      obtain ⟨hm, hcarried⟩ := eq_render_of_length hreceived (by omega)
      obtain ⟨hrest, hall⟩ := ih hne (by omega)
      refine ⟨?_, List.forall_mem_cons.mpr ⟨hcarried, hall⟩⟩
      rw [List.map_cons, ← hrest, ← hm]

/-- **The commands are executed as they were sent** exactly when every segment is one command,
without a zero byte and, if it is a long one, with data. -/
theorem executed_iff (hms : ∀ m ∈ ms, Sendable m) (h : Segmented ms segments) :
    executed segments = ms ↔ segments = ms.map ATCommand.render ∧ ∀ m ∈ ms, Carried m := by
  constructor
  · intro hexecuted
    have hlen : ((executed segments).map ATCommand.render).flatten.length =
        segments.flatten.length := by
      rw [hexecuted, h.bytes]
    have hall := segments_of_length (fun s hs => (h.recv s hs).1) hlen
    rwa [hexecuted] at hall
  · rintro ⟨rfl, hcarried⟩
    rw [executed, List.filterMap_map]
    have hsome : ∀ m ∈ ms, (received ∘ ATCommand.render) m = some m := fun m hm =>
      received_render (hms m hm) (hcarried m hm)
    rw [List.filterMap_congr hsome, List.filterMap_some]

/-- The test of the slot. -/
def busyTest : ATCommand := ⟨⟨.TEST, [], []⟩, lit "RTBUSY"⟩

theorem busyTest_sendable : Sendable busyTest :=
  ⟨⟨by decide, by simp [busyTest], by decide, fun _ => rfl, fun _ => rfl⟩, by decide⟩

/-- A model that is declared with its data. -/
def declareData : ATCommand := ⟨⟨.LONG, [lit "m"], lit "x y"⟩, lit "MDDECL"⟩

theorem declareData_sendable : Sendable declareData :=
  ⟨⟨by decide, by decide, by decide, by simp [declareData], by decide⟩, by decide⟩

/-- Two commands in segments of their own. -/
theorem executed_iff_busyTest :
    executed [declareData.render, busyTest.render] = [declareData, busyTest] := by
  have hms : ∀ m ∈ [declareData, busyTest], Sendable m :=
    List.forall_mem_cons.mpr ⟨declareData_sendable, List.forall_mem_singleton.mpr busyTest_sendable⟩
  have hrecv : Segmented [declareData, busyTest] [declareData.render, busyTest.render] :=
    ⟨List.forall_mem_cons.mpr ⟨⟨by decide, by decide⟩,
      List.forall_mem_singleton.mpr ⟨by decide, by decide⟩⟩, rfl⟩
  refine (executed_iff hms hrecv).mpr ⟨rfl, List.forall_mem_cons.mpr ⟨?_, ?_⟩⟩
  · exact ⟨by decide, fun _ => by decide⟩
  · exact List.forall_mem_singleton.mpr ⟨by decide, fun h => by cases h⟩

/-- **Two commands in one segment** are not executed. -/
theorem executed_joined : ¬ ∀ (ms : List ATCommand) (segments : List Str),
    (∀ m ∈ ms, Sendable m) → Segmented ms segments → executed segments = ms := by
  intro h
  have hms : ∀ m ∈ [busyTest, busyTest], Sendable m := by
    intro m hm
    obtain rfl : m = busyTest := by simpa using hm
    exact busyTest_sendable
  have hexecuted := h [busyTest, busyTest] [busyTest.render ++ busyTest.render] hms
    ⟨List.forall_mem_singleton.mpr ⟨by decide, by decide⟩, by decide⟩
  revert hexecuted
  decide +kernel

end Jxtd.Router
