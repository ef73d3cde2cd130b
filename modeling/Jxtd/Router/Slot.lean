import Jxtd.Lib.Run
import Jxtd.Router.Session

/-!
# The slot that results are put in

Results come in beside the commands. Every use that `process`, `CPSTART`, `CPMOD` and `CPVAL` make
of the slot is a step of its own, and between two of them anything else can happen. What is refused
before it reaches the slot is left out.

* `Put`, `Main`, `Shared`: a result on its way, the thread of the commands, and what they share.
* `Event`, `next`, `step`: the steps.
* `Shows`, **`Shows.step`**: the steps of a put are those of the slot of a session.
* **`next_waiting`**: without anything between, the steps of a wait return the data.
* `Timely`, `Sound`, **`Sound.step`**: a step that writes no result of another task, and what it
  keeps.
* **`attributed_foldl`**: what is returned was put for the task for which it is returned.
-/

namespace Jxtd.Router

open Lib

/-- A result that a computation node puts, and the task that it was made for. -/
structure Put where
  taskid : UInt64
  body : Str
  deriving DecidableEq

/-- Where the thread of the commands stands. -/
inductive Main
  | idle
  | negotiating (nonblock : Bool)
  | deploying (nonblock : Bool)
  | waiting
  | woken
  | reading
  | checked
  | polling
  | taking (data : Str) (origin : Option UInt64)
  | removing
  deriving DecidableEq

/-- Data that is returned for a task, and the task that it was put for. -/
structure Returned where
  taskid : UInt64
  data : Str
  origin : Option UInt64
  deriving DecidableEq

/-- What the threads share. The code does not know `origin`, the task of the put that wrote the
data. -/
structure Shared where
  slot : Taskresult := {}
  origin : Option UInt64 := none
  writing : List Put := []
  failing : ℕ := 0
  main : Main := .idle
  returned : List Returned := []
  deriving DecidableEq

namespace Shared

inductive Event
  | PUT (put : Put)
  | write (put : Put)
  | fail
  | CPSTART (nonblock : Bool)
  | negotiated (taskid : UInt64)
  | deployed (result : ℤ)
  | CPMOD
  | CPVAL
  | next
  deriving DecidableEq

/-- The next use that a command makes of the slot. -/
def next (s : Shared) : Shared :=
  match s.main with
  | .waiting => if s.slot.ready then { s with main := .woken } else s
  | .woken => { s with main := if s.slot.status then .reading else .removing }
  | .reading => { s with main := .taking s.slot.data s.origin }
  | .checked => { s with main := if s.slot.status then .polling else .removing }
  | .polling =>
    { s with main := if s.slot.data = [] then .idle else .taking s.slot.data s.origin }
  | .taking data origin =>
    { s with
      slot := s.slot.remove
      origin := none
      main := .idle
      returned := ⟨s.slot.taskid, data, origin⟩ :: s.returned }
  | .removing => { s with slot := s.slot.remove, origin := none, main := .idle }
  | .idle | .negotiating _ | .deploying _ => s

def step (s : Shared) : Event → Shared
  | .PUT put => if s.slot.taskid = 0 then s else { s with writing := put :: s.writing }
  | .write put =>
    if put ∈ s.writing then
      { s with
        slot := { s.slot with data := put.body }
        origin := some put.taskid
        writing := s.writing.erase put
        failing := if put.body = [] then s.failing + 1 else s.failing }
    else s
  | .fail =>
    if s.failing = 0 then s
    else { s with slot := { s.slot with status := false }, failing := s.failing - 1 }
  | .CPSTART nonblock =>
    if s.main = .idle ∧ s.slot.taskid = 0 then { s with main := .negotiating nonblock } else s
  | .negotiated taskid =>
    match s.main with
    | .negotiating nonblock =>
      if taskid = 0 then { s with main := .idle }
      else { s with slot := s.slot.set taskid, origin := none, main := .deploying nonblock }
    | _ => s
  | .deployed result =>
    match s.main with
    | .deploying nonblock =>
      { s with main := if result = -1 ∨ nonblock = true then .idle else .waiting }
    | _ => s
  | .CPMOD => if s.main = .idle ∧ s.slot.taskid ≠ 0 then { s with main := .removing } else s
  | .CPVAL => if s.main = .idle ∧ s.slot.taskid ≠ 0 then { s with main := .checked } else s
  | .next => s.next

variable {s : Shared}

/-! ## The slot of a session -/

/-- What a session has of the slot. -/
structure Shows (s : Shared) (t : Slot) : Prop where
  slot : t.toTaskresult = s.slot
  writing : t.writing.Perm (s.writing.map Put.body)
  failing : t.failing = s.failing

/-- The steps of `process`. A put is written that was found before. -/
inductive Arrives (s : Shared) : Event → Arrival → Prop
  | found (put : Put) : Arrives s (.PUT put) (.found put.body)
  | written {put : Put} (h : put ∈ s.writing) : Arrives s (.write put) (.written put.body)
  | failed : Arrives s .fail .failed

/-- **A step of `process`** is the one of the session. -/
theorem Shows.step {t : Slot} (h : s.Shows t) {e : Event} {arrival : Arrival}
    (ha : s.Arrives e arrival) : (s.step e).Shows (t.process arrival) := by
  obtain ⟨task, writing, failing⟩ := t
  obtain rfl : task = s.slot := h.slot
  obtain rfl : failing = s.failing := h.failing
  have hwriting : writing.Perm (s.writing.map Put.body) := h.writing
  cases ha with
  | found put =>
    simp only [Shared.step, Slot.process]
    split_ifs
    · exact h
    · exact ⟨rfl, hwriting.cons put.body, rfl⟩
  | @written put hput =>
    have hbody : put.body ∈ writing := hwriting.mem_iff.mpr (List.mem_map_of_mem hput)
    simp only [Shared.step, Slot.process, if_pos hput, if_pos hbody]
    refine ⟨rfl, ?_, rfl⟩
    -- one of the puts with this body is gone on both sides
    have hcons : (put.body :: (s.writing.erase put).map Put.body).Perm writing :=
      ((List.perm_cons_erase hput).map Put.body).symm.trans hwriting.symm
    exact (hcons.trans (List.perm_cons_erase hbody)).cons_inv.symm
  | failed =>
    simp only [Shared.step, Slot.process]
    split_ifs
    · exact h
    · exact ⟨rfl, hwriting, rfl⟩

/-- **A wait that ends** with nothing between its steps returns the data and gives the slot back. -/
theorem next_waiting (hmain : s.main = .waiting) (hready : s.slot.ready = true)
    (hstatus : s.slot.status = true) :
    [Event.next, .next, .next, .next].foldl step s = { s with
      slot := s.slot.remove
      origin := none
      main := .idle
      returned := ⟨s.slot.taskid, s.slot.data, s.origin⟩ :: s.returned } := by
  simp [step, next, hmain, hready, hstatus]

/-! ## Results of the task -/

/-- What is written is a result of the task in the slot, if there is one. -/
def Timely (s : Shared) : Event → Prop
  | .write put => put ∈ s.writing → s.slot.taskid = 0 ∨ s.slot.taskid = put.taskid
  | _ => True

/-- What a place in a command tells about the slot. -/
def Stands (s : Shared) : Main → Prop
  | .idle | .negotiating _ | .removing => True
  | .deploying _ | .waiting | .checked | .polling => s.slot.taskid ≠ 0
  | .woken => s.slot.taskid ≠ 0 ∧ (s.slot.status = false ∨ s.origin ≠ none)
  | .reading => s.slot.taskid ≠ 0 ∧ s.origin ≠ none
  | .taking _ origin => origin = some s.slot.taskid

/-- The data in the slot was put for its task, and so was everything that is returned. -/
structure Sound (s : Shared) : Prop where
  origin : s.slot.taskid ≠ 0 → s.origin ≠ none → s.origin = some s.slot.taskid
  data : s.slot.data ≠ [] → s.origin ≠ none
  main : s.Stands s.main
  returned : ∀ r ∈ s.returned, r.origin = some r.taskid

/-- A command that stands elsewhere, with the same slot. -/
theorem Sound.move (h : Sound s) {main : Main} (hmain : s.Stands main) : Sound { s with main } :=
  ⟨h.origin, h.data, hmain, h.returned⟩

/-- The slot is given back. -/
theorem Sound.remove (h : Sound s) {returned : List Returned}
    (hreturned : ∀ r ∈ returned, r ∈ s.returned ∨ r.origin = some r.taskid) :
    Sound { s with slot := s.slot.remove, origin := none, main := .idle, returned } where
  origin htask := absurd rfl htask
  data hdata := absurd rfl hdata
  main := trivial
  returned r hr := (hreturned r hr).elim (h.returned r) id

theorem Sound.next (h : Sound s) : Sound s.next := by
  have hmain := h.main
  unfold Shared.next
  split
  · rename_i heq
    rw [heq] at hmain
    split_ifs with hready
    · apply h.move
      refine ⟨hmain, ?_⟩
      -- the wait ended for its status or for its data
      have hready : s.slot.taskid = 0 ∨ s.slot.status = false ∨ s.slot.data ≠ [] := by
        simpa [Taskresult.ready] using hready
      exact (hready.resolve_left hmain).imp_right h.data
    · exact h
  · rename_i heq
    rw [heq] at hmain
    apply h.move
    split_ifs with hstatus
    · exact ⟨hmain.1, hmain.2.resolve_left (by simp [hstatus])⟩
    · trivial
  · rename_i heq
    rw [heq] at hmain
    apply h.move
    exact h.origin hmain.1 hmain.2
  · rename_i heq
    rw [heq] at hmain
    apply h.move
    split_ifs
    · exact hmain
    · trivial
  · rename_i heq
    rw [heq] at hmain
    apply h.move
    split_ifs with hdata
    · trivial
    · exact h.origin hmain (h.data hdata)
  · rename_i data origin heq
    rw [heq] at hmain
    apply h.remove
    intro r hr
    rcases List.mem_cons.mp hr with rfl | hr
    · exact .inr hmain
    · exact .inl hr
  · apply h.remove
    intro r hr
    exact .inl hr
  · exact h
  · exact h
  · exact h

/-- A result of the task in the slot, or of any task while the slot is idle. -/
theorem Sound.write (h : Sound s) {put : Put}
    (hput : s.slot.taskid = 0 ∨ s.slot.taskid = put.taskid) (writing : List Put) (failing : ℕ) :
    Sound { s with
      slot := { s.slot with data := put.body }
      origin := some put.taskid
      writing
      failing } where
  origin htask _ := congrArg some (hput.resolve_left htask).symm
  data _ := Option.some_ne_none _
  main := by
    have hmain := h.main
    cases heq : s.main with
    | idle | negotiating | removing => trivial
    | deploying | waiting | checked | polling | taking => rwa [heq] at hmain
    | woken =>
      rw [heq] at hmain
      exact ⟨hmain.1, .inr (Option.some_ne_none _)⟩
    | reading =>
      rw [heq] at hmain
      exact ⟨hmain.1, Option.some_ne_none _⟩
  returned := h.returned

theorem Sound.fail (h : Sound s) (failing : ℕ) :
    Sound { s with slot := { s.slot with status := false }, failing } where
  origin := h.origin
  data := h.data
  main := by
    have hmain := h.main
    cases heq : s.main with
    | idle | negotiating | removing => trivial
    | deploying | waiting | checked | polling | taking | reading => rwa [heq] at hmain
    | woken =>
      rw [heq] at hmain
      exact ⟨hmain.1, .inl rfl⟩
  returned := h.returned

/-- **A step that writes no result of another task** keeps the slot sound. -/
theorem Sound.step (h : Sound s) {e : Event} (he : s.Timely e) : Sound (s.step e) := by
  have hmain := h.main
  cases e with
  | PUT put =>
    simp only [Shared.step]
    split_ifs
    · exact h
    · exact ⟨h.origin, h.data, h.main, h.returned⟩
  | write put =>
    simp only [Shared.step]
    split_ifs with hput
    · exact h.write (he hput) _ _
    · exact h.write (he hput) _ _
    · exact h
  | fail =>
    simp only [Shared.step]
    split_ifs
    · exact h
    · exact h.fail _
  | CPSTART nonblock =>
    simp only [Shared.step]
    split_ifs
    · exact h.move trivial
    · exact h
  | negotiated taskid =>
    simp only [Shared.step]
    split
    · split_ifs with htask
      · exact h.move trivial
      · exact ⟨fun _ horigin => absurd rfl horigin, fun hdata => absurd rfl hdata, htask,
          h.returned⟩
    · exact h
  | deployed result =>
    simp only [Shared.step]
    split
    · rename_i nonblock heq
      rw [heq] at hmain
      apply h.move
      split_ifs
      · trivial
      · exact hmain
    · exact h
  | CPMOD =>
    simp only [Shared.step]
    split_ifs
    · exact h.move trivial
    · exact h
  | CPVAL =>
    simp only [Shared.step]
    split_ifs with htask
    · exact h.move htask.2
    · exact h
  | next => exact h.next

theorem sound_new : Sound {} where
  origin htask := absurd rfl htask
  data hdata := absurd rfl hdata
  main := trivial
  returned r hr := by cases hr

/-- **What is returned for a task was put for it**, while no result of another task is written. -/
theorem attributed_foldl {events : List Event} (h : Along Timely step {} events) :
    ∀ r ∈ (events.foldl step {}).returned, r.origin = some r.taskid :=
  (h.foldl (fun _ _ hs he => hs.step he) sound_new).returned

/-- A task that is started, and its result. -/
def answered : List Event :=
  [.CPSTART false, .negotiated 1, .deployed 0, .PUT ⟨1, lit "x"⟩, .write ⟨1, lit "x"⟩, .next, .next,
    .next, .next]

theorem timely_answered : Along Timely step {} answered :=
  ⟨trivial, trivial, trivial, trivial, fun _ => .inr rfl, trivial, trivial, trivial, trivial,
    trivial⟩

theorem attributed_answered : (answered.foldl step {}).returned = [⟨1, lit "x", some 1⟩] ∧
    (⟨1, lit "x", some 1⟩ : Returned).origin = some 1 :=
  ⟨by decide +kernel, attributed_foldl timely_answered _ (by decide +kernel)⟩

/-- **A late result**: the first task is cancelled, and its result is returned for the second. -/
theorem late_returned : ¬ ∀ events : List Event, ∀ r ∈ (events.foldl step {}).returned,
    r.origin = some r.taskid := by
  intro h
  have hlate := h [.CPSTART true, .negotiated 1, .deployed 0, .CPMOD, .next, .CPSTART true,
    .negotiated 2, .deployed 0, .PUT ⟨1, lit "x"⟩, .write ⟨1, lit "x"⟩, .CPVAL, .next, .next, .next]
    ⟨2, lit "x", some 1⟩ (by decide +kernel)
  revert hlate
  decide

end Shared

end Jxtd.Router
