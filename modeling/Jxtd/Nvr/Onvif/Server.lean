import Jxtd.Proto.Onvif.Message

/-!
# The forward server of the cameras

The handler of the onvif forward server (`nvr/onvif/server.cc`) over a driver of the cameras
(`nvr/onvif/adapter.h`), of which nothing is assumed.

* `OnvifAdapter`, `recorded`: a driver, and one that notes the moves it is given.
* `process`: the handler.
* `answer`, `answers`: what every action calls for, one after the other.
* **`process_scan`**: a request is answered as far as its first scan.
* **`handlesAll_iff`**: exactly when every action is handled.
-/

namespace Jxtd.Nvr.Onvif

open Lib
open Jxtd.Onvif (Action Message)

/-- `OnvifAdapter::OnvifDevice`, as far as the server reads it. -/
structure OnvifDevice where
  xaddr : Str

/-- `OnvifAdapter`: the functions of a driver, which may change the driver. -/
structure OnvifAdapter (σ φ : Type) where
  devicesList : σ → List OnvifDevice × σ
  absoluteMove : σ → Str → φ × φ × φ → Int32 × σ
  continousMove : σ → Str → φ × φ × φ → UInt16 → Int32 × σ

section Server

variable {σ φ : Type}

def OnvifAdapter.getDevices (adapter : OnvifAdapter σ φ) (s : σ) : List OnvifDevice × σ :=
  adapter.devicesList s

def OnvifAdapter.ptzDevice (adapter : OnvifAdapter σ φ) (s : σ) (xaddr : Str) (absolute : Bool)
    (geo : φ × φ × φ) (timeout : UInt16) : Int32 × σ :=
  if absolute then adapter.absoluteMove s xaddr geo else adapter.continousMove s xaddr geo timeout

/-- A move that a driver is given. -/
inductive Move (φ : Type)
  | absolute (xaddr : Str) (geo : φ × φ × φ)
  | continous (xaddr : Str) (geo : φ × φ × φ) (timeout : UInt16)
  deriving DecidableEq

/-- The same driver, with a record of its moves. -/
def recorded (adapter : OnvifAdapter σ φ) : OnvifAdapter (σ × List (Move φ)) φ where
  devicesList s := ((adapter.devicesList s.1).1, (adapter.devicesList s.1).2, s.2)
  absoluteMove s xaddr geo :=
    ((adapter.absoluteMove s.1 xaddr geo).1, (adapter.absoluteMove s.1 xaddr geo).2,
      s.2 ++ [.absolute xaddr geo])
  continousMove s xaddr geo timeout :=
    ((adapter.continousMove s.1 xaddr geo timeout).1,
      (adapter.continousMove s.1 xaddr geo timeout).2, s.2 ++ [.continous xaddr geo timeout])

/-- The acknowledgement of an action. -/
def acknowledgement (a : Action φ) : Action φ :=
  ⟨a.target, [], true, a.scan, a.streaming, a.snap, a.moving, a.absmov, a.pan, a.tilt, a.zoom,
    a.timeout⟩

/-- The camera of an action is moved, if it asks for that. -/
def moveDevice (adapter : OnvifAdapter σ φ) (s : σ) (a : Action φ) : σ :=
  if a.moving then (adapter.ptzDevice s a.target a.absmov (a.pan, a.tilt, a.zoom) a.timeout).2
  else s

/-- The move that an action calls for; a scan calls for none. -/
def move (a : Action φ) : Option (Move φ) :=
  if a.scan = false ∧ a.moving = true then
    some (if a.absmov then .absolute a.target (a.pan, a.tilt, a.zoom)
      else .continous a.target (a.pan, a.tilt, a.zoom) a.timeout)
  else none

/-- Some actions are scans that find no device. -/
def Silent (adapter : OnvifAdapter σ φ) : σ → List (Action φ) → Prop
  | _, [] => True
  | s, a :: as =>
    a.scan = true ∧ (adapter.getDevices s).1 = [] ∧ Silent adapter (adapter.getDevices s).2 as

/-! ## The handler -/

variable [Zero φ]

/-- The entry of a device. -/
def deviceEntry (device : OnvifDevice) : Action φ :=
  ⟨device.xaddr, device.xaddr, true, true, false, false, false, false, 0, 0, 0, 0⟩

/-- The loop of `process`. -/
def processActions (adapter : OnvifAdapter σ φ) :
    σ → Message φ → List (Action φ) → Message φ × σ
  | s, resp, [] => (resp, s)
  | s, resp, action :: actions =>
    if action.scan then
      -- the function returns after the devices
      let (devices, s) := adapter.getDevices s
      (devices.foldl (fun resp device => resp.addAction (deviceEntry device)) resp, s)
    else
      processActions adapter (moveDevice adapter s action)
        (resp.addAction (acknowledgement action)) actions

/-- `process` -/
def process (adapter : OnvifAdapter σ φ) (uid : UInt32) (s : σ) (req : Message φ) :
    Message φ × σ :=
  let resp := ((Message.new.setTransaction req.transaction).setDest req.src).setSrc uid
  processActions adapter s resp req.actions

/-! ## What every action calls for -/

/-- The entries that an action calls for. -/
def answer (adapter : OnvifAdapter σ φ) (s : σ) (a : Action φ) : List (Action φ) × σ :=
  if a.scan then ((adapter.getDevices s).1.map deviceEntry, (adapter.getDevices s).2)
  else ([acknowledgement a], moveDevice adapter s a)

/-- The entries that some actions call for, in their order. -/
def answers (adapter : OnvifAdapter σ φ) : σ → List (Action φ) → List (Action φ) × σ
  | s, [] => ([], s)
  | s, a :: as =>
    ((answer adapter s a).1 ++ (answers adapter (answer adapter s a).2 as).1,
      (answers adapter (answer adapter s a).2 as).2)

/-- **Every action is handled**: the moves and the entries are those of all actions. -/
def HandlesAll (adapter : OnvifAdapter σ φ) (uid : UInt32) (s : σ) (req : Message φ) : Prop :=
  (process (recorded adapter) uid (s, []) req).2.2 = req.actions.filterMap move ∧
    (process (recorded adapter) uid (s, []) req).1.actions = (answers adapter s req.actions).1

variable {adapter : OnvifAdapter σ φ} {uid : UInt32} {s : σ} {resp req : Message φ} {a : Action φ}
  {as as' : List (Action φ)}

theorem answer_of_scan (h : a.scan = true) (adapter : OnvifAdapter σ φ) (s : σ) :
    answer adapter s a = ((adapter.getDevices s).1.map deviceEntry, (adapter.getDevices s).2) :=
  if_pos h

theorem answer_of_not_scan (h : a.scan = false) (adapter : OnvifAdapter σ φ) (s : σ) :
    answer adapter s a = ([acknowledgement a], moveDevice adapter s a) :=
  if_neg (by simp [h])

theorem answers_append (adapter : OnvifAdapter σ φ) (s : σ) (as as' : List (Action φ)) :
    answers adapter s (as ++ as') =
      ((answers adapter s as).1 ++ (answers adapter (answers adapter s as).2 as').1,
        (answers adapter (answers adapter s as).2 as').2) := by
  induction as generalizing s with
  | nil => rfl
  | cons a as ih => rw [List.cons_append, answers, ih, answers, List.append_assoc]

/-- **Scans that find nothing** are the actions without an entry. -/
theorem silent_iff : Silent adapter s as ↔ (answers adapter s as).1 = [] := by
  induction as generalizing s with
  | nil => simp [Silent, answers]
  | cons a as ih =>
    rw [Silent, answers, List.append_eq_nil_iff]
    cases hscan : a.scan with
    | true =>
      rw [answer_of_scan hscan, List.map_eq_nil_iff, ih]
      simp
    | false =>
      rw [answer_of_not_scan hscan]
      simp

omit [Zero φ] in
theorem Silent.filterMap_move (h : Silent adapter s as) : as.filterMap move = [] := by
  induction as generalizing s with
  | nil => rfl
  | cons a as ih =>
    have hnone : move a = none := if_neg fun hmove => by simp [h.1] at hmove
    rw [List.filterMap_cons_none hnone]
    exact ih h.2.2

/-! ## The record -/

omit [Zero φ] in
theorem moveDevice_recorded (hscan : a.scan = false) (s : σ) (moves : List (Move φ)) :
    moveDevice (recorded adapter) (s, moves) a =
      (moveDevice adapter s a, moves ++ (move a).toList) := by
  cases hmoving : a.moving with
  | false => simp [moveDevice, move, hmoving]
  | true =>
    cases habsmov : a.absmov with
    | false =>
      simp [moveDevice, move, hscan, hmoving, habsmov, OnvifAdapter.ptzDevice, recorded]
    | true =>
      simp [moveDevice, move, hscan, hmoving, habsmov, OnvifAdapter.ptzDevice, recorded]

/-- **The record** makes no difference, and holds the moves of the actions. -/
theorem answers_recorded (s : σ) (moves : List (Move φ)) (as : List (Action φ)) :
    answers (recorded adapter) (s, moves) as =
      ((answers adapter s as).1, (answers adapter s as).2, moves ++ as.filterMap move) := by
  induction as generalizing s moves with
  | nil => simp [answers]
  | cons a as ih =>
    cases hscan : a.scan with
    | true =>
      have hmove : move a = none := if_neg fun hmove => by simp [hscan] at hmove
      have hdevices : (recorded adapter).getDevices (s, moves) =
          ((adapter.getDevices s).1, (adapter.getDevices s).2, moves) := rfl
      rw [answers, answers, answer_of_scan hscan, answer_of_scan hscan, hdevices, ih,
        List.filterMap_cons_none hmove]
    | false =>
      rw [answers, answers, answer_of_not_scan hscan, answer_of_not_scan hscan,
        moveDevice_recorded hscan, ih, List.append_assoc]
      cases hmove : move a <;> simp [hmove]

/-! ## As far as the first scan -/

variable (adapter) in
theorem processActions_append (h : ∀ a ∈ as, a.scan = false) (s : σ) (resp : Message φ)
    (as' : List (Action φ)) :
    processActions adapter s resp (as ++ as') =
      processActions adapter (answers adapter s as).2
        { resp with actions := resp.actions ++ (answers adapter s as).1 } as' := by
  induction as generalizing s resp with
  | nil => simp [answers]
  | cons a as ih =>
    obtain ⟨ha, has⟩ := List.forall_mem_cons.mp h
    have hstep : processActions adapter s resp (a :: (as ++ as')) =
        processActions adapter (moveDevice adapter s a) (resp.addAction (acknowledgement a))
          (as ++ as') := if_neg (by simp [ha])
    rw [List.cons_append, hstep, ih has, answers, answer_of_not_scan ha]
    simp [Message.addAction]

theorem foldl_addAction (resp : Message φ) (devices : List OnvifDevice) :
    devices.foldl (fun resp device => resp.addAction (deviceEntry device)) resp =
      { resp with actions := resp.actions ++ devices.map deviceEntry } := by
  induction devices generalizing resp with
  | nil => simp
  | cons device devices ih =>
    rw [List.foldl_cons, ih]
    simp [Message.addAction]

theorem processActions_scan (h : a.scan = true) (s : σ) (resp : Message φ)
    (as : List (Action φ)) :
    processActions adapter s resp (a :: as) =
      ({ resp with actions := resp.actions ++ (answer adapter s a).1 }, (answer adapter s a).2) := by
  rw [processActions, if_pos h, answer_of_scan h]
  dsimp only
  rw [foldl_addAction]

variable (adapter uid s) in
/-- **A request is answered as far as its first scan.** -/
theorem process_scan (h : ∀ a ∈ as, a.scan = false) (ha : a.scan = true)
    (hreq : req.actions = as ++ a :: as') :
    (process adapter uid s req).1.actions = (answers adapter s (as ++ [a])).1 ∧
      (process adapter uid s req).2 = (answers adapter s (as ++ [a])).2 := by
  rw [process, hreq, processActions_append adapter h, processActions_scan ha, answers_append]
  simp [answers, Message.new, Message.setTransaction, Message.setDest, Message.setSrc]

variable (adapter uid s) in
theorem process_no_scan (h : ∀ a ∈ req.actions, a.scan = false) :
    (process adapter uid s req).1.actions = (answers adapter s req.actions).1 ∧
      (process adapter uid s req).2 = (answers adapter s req.actions).2 := by
  have happ := processActions_append adapter h s
    (((Message.new.setTransaction req.transaction).setDest req.src).setSrc uid) []
  rw [List.append_nil] at happ
  rw [process, happ]
  simp [processActions, Message.new, Message.setTransaction, Message.setDest, Message.setSrc]

/-- **Exactly when every action is handled**: what follows the first scan, if there is one, are scans
that find no device. -/
theorem handlesAll_iff (adapter : OnvifAdapter σ φ) (uid : UInt32) (s : σ) (req : Message φ) :
    HandlesAll adapter uid s req ↔ ∀ as a as', req.actions = as ++ a :: as' →
      (∀ b ∈ as, b.scan = false) → a.scan = true →
        Silent adapter (answers adapter s (as ++ [a])).2 as' := by
  -- what a first scan leaves out
  have hscan {as as' : List (Action φ)} {a : Action φ} (hreq : req.actions = as ++ a :: as')
      (has : ∀ b ∈ as, b.scan = false) (ha : a.scan = true) :
      HandlesAll adapter uid s req ↔ Silent adapter (answers adapter s (as ++ [a])).2 as' := by
    obtain ⟨hactions, hstate⟩ := process_scan (recorded adapter) uid (s, []) has ha hreq
    rw [answers_recorded] at hactions hstate
    have hsplit : req.actions = (as ++ [a]) ++ as' := by rw [hreq, List.append_cons]
    have hmoves : (as ++ [a] ++ as').filterMap move =
        (as ++ [a]).filterMap move ++ as'.filterMap move := List.filterMap_append
    have hanswers := answers_append adapter s (as ++ [a]) as'
    rw [HandlesAll, hactions, hstate, hsplit, hmoves, hanswers, List.nil_append]
    constructor
    · rintro ⟨-, hentries⟩
      exact silent_iff.mpr (List.self_eq_append_right.mp hentries)
    · intro hsilent
      rw [hsilent.filterMap_move, silent_iff.mp hsilent, List.append_nil, List.append_nil]
      exact ⟨rfl, rfl⟩
  constructor
  · intro hall as a as' hreq has ha
    exact (hscan hreq has ha).mp hall
  · intro hsilent
    cases hfind : req.actions.find? fun a => a.scan with
    | none =>
      have hnone : ∀ a ∈ req.actions, a.scan = false := by
        simpa using List.find?_eq_none.mp hfind
      obtain ⟨hactions, hstate⟩ := process_no_scan (recorded adapter) uid (s, []) hnone
      rw [answers_recorded] at hactions hstate
      exact ⟨by rw [hstate, List.nil_append], hactions⟩
    | some a =>
      obtain ⟨ha, as, as', hreq, has⟩ := List.find?_eq_some_iff_append.mp hfind
      have has : ∀ b ∈ as, b.scan = false := by simpa using has
      exact (hscan hreq has ha).mpr (hsilent as a as' hreq has ha)

end Server

/-- A driver without cameras. -/
def noCameras : OnvifAdapter Unit ℚ where
  devicesList _ := ([], ())
  absoluteMove _ _ _ := (-1, ())
  continousMove _ _ _ _ := (-1, ())

/-- A scan, and a move of one camera. -/
def scanAndMove : Message ℚ :=
  Message.new.setActions
    [⟨[], [], false, true, false, false, false, false, 0, 0, 0, 0⟩,
      ⟨lit "ipc1", [], false, false, false, false, true, true, 1, 0, 0, 0⟩]

/-- **A move after a scan** is neither made nor acknowledged. -/
theorem move_dropped : ¬ HandlesAll noCameras 0 () scanAndMove := by
  rintro ⟨hmoves, -⟩
  cases hmoves

end Jxtd.Nvr.Onvif
